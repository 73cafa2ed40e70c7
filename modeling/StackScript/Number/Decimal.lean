import StackScript.Number.Binary

/-!
# Decimal text of binary numbers

`shortest` gives the fewest decimal digits that read back as the same double, and of the decimals
with that many digits the nearest one. `Layout` says how digits and a decimal point are laid
out; `plain` is the layout of a number in program output: positional from `0.0001` up to sixteen
digits before the point, otherwise one digit before the point and an exponent of at least two
digits. `fixed` and `scientific` write a given number of places, rounded exactly.
-/

namespace StackScript.Number

/-- The number `digits · 10 ^ exponent`. -/
structure Decimal where
  digits : Nat
  exponent : Int
  deriving DecidableEq, Repr

namespace Decimal

def ratio (d : Decimal) : Nat × Nat :=
  if 0 ≤ d.exponent then (d.digits * Nat.pow 10 d.exponent.toNat, 1)
  else (d.digits, Nat.pow 10 (-d.exponent).toNat)

/-- The digits as characters, the zeros at the end dropped; a lone zero for zero. -/
def text (d : Decimal) : List Char :=
  let kept := ((Nat.toDigits 10 d.digits).reverse.dropWhile (· == '0')).reverse
  if kept.isEmpty then ['0'] else kept

/-- The place of the decimal point, counted from before the first digit. -/
def point (d : Decimal) : Int :=
  (Nat.toDigits 10 d.digits).length + d.exponent

end Decimal

/-- The exponent of the highest power of ten that is at most `num / den`. -/
def decimalOrder (num den : Nat) : Int :=
  let guess : Int := ((num.log2 : Int) - den.log2 - 1) * 30103 / 100000 - 1
  let below (k : Int) : Bool :=
    if 0 ≤ k then num < den * Nat.pow 10 k.toNat else num * Nat.pow 10 (-k).toNat < den
  if below (guess + 1) then guess
  else if below (guess + 2) then guess + 1
  else if below (guess + 3) then guess + 2
  else guess + 3

/-- The quotient `num / (den · 10 ^ e)` as a pair of natural numbers. -/
def scaleDecimal (num den : Nat) (e : Int) : Nat × Nat :=
  if 0 ≤ e then (num, den * Nat.pow 10 e.toNat) else (num * Nat.pow 10 (-e).toNat, den)

/-- Of the decimals with `count` digits the nearest one that reads back as `x`, if any does. -/
def readsBack? (x : Float) (num den count : Nat) : Option Decimal :=
  let unit := decimalOrder num den - (count : Int) + 1
  let (p, q) := scaleDecimal num den unit
  let lower : Decimal := ⟨p / q, unit⟩
  let upper : Decimal := ⟨p / q + 1, unit⟩
  let hits (d : Decimal) : Bool :=
    let (n, m) := d.ratio
    (ofRatio (signBit x) n m).toBits == x.toBits
  match hits lower, hits upper with
  | true, true => some (if roundDiv p q = p / q then lower else upper)
  | true, false => some lower
  | false, true => some upper
  | false, false => none

/-- The shortest decimal that reads back as the given finite double. -/
def shortest (x : Float) : Decimal :=
  match Binary.ofFloat? x with
  | none => ⟨0, 0⟩
  | some b =>
    if b.significand = 0 then ⟨0, 0⟩
    else
      let (num, den) := b.ratio
      let counts := List.range 17 |>.map (· + 1)
      (counts.findSome? (readsBack? x num den)).getD ⟨0, 0⟩

/-- How the digits of a number are laid out. -/
structure Layout where
  /-- Positions of the point at which the number is written without an exponent. -/
  positional : Int → Bool
  /-- Whether a whole number keeps a point and a zero. -/
  keepPoint : Bool
  /-- The least number of digits of an exponent. -/
  exponentWidth : Nat

def Layout.plain : Layout where
  positional point := -4 < point && point ≤ 16
  keepPoint := true
  exponentWidth := 2

def exponentText (width : Nat) (e : Int) : List Char :=
  let digits := Nat.toDigits 10 e.natAbs
  let padded := List.replicate (width - digits.length) '0' ++ digits
  (if e < 0 then '-' else '+') :: padded

def Layout.write (style : Layout) (digits : List Char) (point : Int) : List Char :=
  if style.positional point then
    if point ≤ 0 then '0' :: '.' :: (List.replicate (-point).toNat '0' ++ digits)
    else
      let whole := digits.take point.toNat
      let padded := whole ++ List.replicate (point.toNat - whole.length) '0'
      let rest := digits.drop point.toNat
      if !rest.isEmpty then padded ++ '.' :: rest
      else if style.keepPoint then padded ++ ['.', '0']
      else padded
  else
    let head := digits.take 1
    let rest := digits.drop 1
    let mantissa := if rest.isEmpty then head else head ++ '.' :: rest
    mantissa ++ 'e' :: exponentText style.exponentWidth (point - 1)

def floatText (x : Float) : String :=
  if x.isNaN then "nan"
  else if x.isInf then if signBit x then "-inf" else "inf"
  else
    let d := shortest x
    let point := if d.digits = 0 then 1 else d.point
    let body := Layout.plain.write d.text point
    String.ofList (if signBit x then '-' :: body else body)

def paddedDigits (width n : Nat) : List Char :=
  let digits := Nat.toDigits 10 n
  List.replicate (width - digits.length) '0' ++ digits

/-- The absolute value of a finite double with `places` digits after the point, ties to even. -/
def fixed (places : Nat) (x : Float) : List Char :=
  match Binary.ofFloat? x with
  | none => if x.isNaN then ['n', 'a', 'n'] else ['i', 'n', 'f']
  | some b =>
    let (num, den) := b.ratio
    let scaled := roundDiv (num * Nat.pow 10 places) den
    let whole := Nat.toDigits 10 (scaled / Nat.pow 10 places)
    if places = 0 then whole
    else whole ++ '.' :: paddedDigits places (scaled % Nat.pow 10 places)

/-- The `count` leading decimal digits of a positive finite double, rounded, and the exponent of
the first of them. -/
def leadingDigits (count : Nat) (x : Float) : List Char × Int :=
  match Binary.ofFloat? x with
  | none => (List.replicate count '0', 0)
  | some b =>
    if b.significand = 0 then (List.replicate count '0', 0)
    else
      let (num, den) := b.ratio
      let order := decimalOrder num den
      let (p, q) := scaleDecimal num den (order - (count : Int) + 1)
      let digits := roundDiv p q
      if digits = Nat.pow 10 count then (Nat.toDigits 10 (Nat.pow 10 (count - 1)), order + 1)
      else (Nat.toDigits 10 digits, order)

/-- The absolute value of a finite double as one digit, `places` more and an exponent. -/
def scientific (places : Nat) (x : Float) : List Char :=
  if x.isNaN then ['n', 'a', 'n'] else if x.isInf then ['i', 'n', 'f']
  else
    let (digits, order) := leadingDigits (places + 1) x
    let head := digits.take 1
    let mantissa := if places = 0 then head else head ++ '.' :: digits.drop 1
    mantissa ++ 'e' :: exponentText 2 order

/-- The absolute value of a double with `count` significant digits, positional unless the exponent
is below `-4` or not below `count`; zeros at the end are kept only on request. -/
def general (count : Nat) (keepZeros : Bool) (x : Float) : List Char :=
  if x.isNaN then ['n', 'a', 'n'] else if x.isInf then ['i', 'n', 'f']
  else
    let (digits, order) := leadingDigits count x
    let trimmed := (digits.reverse.dropWhile (· == '0')).reverse
    let kept := if keepZeros then digits else if trimmed.isEmpty then ['0'] else trimmed
    let style : Layout :=
      { positional := fun point => -4 < point && point ≤ (count : Int)
        keepPoint := false
        exponentWidth := 2 }
    style.write kept (order + 1)

def grouped (digits : List Char) : List Char :=
  let rec groups : Nat → List Char → List Char
    | _, [] => []
    | n, c :: rest => if n % 3 = 0 && n ≠ 0 then c :: ',' :: groups (n - 1) rest
                      else c :: groups (n - 1) rest
  groups (digits.length - 1) digits

end StackScript.Number
