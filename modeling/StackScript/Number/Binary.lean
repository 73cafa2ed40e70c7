/-!
# Binary floating-point numbers, exactly

A finite double-precision number is a natural number times a power of two, with a sign. Here a
`Float` is taken apart into these three and put together again: `ofRatio` is the double nearest to
a quotient of natural numbers, ties going to the even significand. Every exact statement about a
`Float` in this library (comparison with an integer, remainder, decimal text) goes through the
two.
-/

namespace StackScript.Number

/-- The number `± significand · 2 ^ exponent`. -/
structure Binary where
  negative : Bool
  significand : Nat
  exponent : Int
  deriving DecidableEq, Repr

/-- The quotient rounded to the nearest natural number, a half going to the even neighbour. -/
def roundDiv (num den : Nat) : Nat :=
  let quotient := num / den
  let twice := 2 * (num % den)
  if twice < den then quotient
  else if den < twice then quotient + 1
  else if quotient % 2 = 0 then quotient
  else quotient + 1

namespace Binary

def ofFloat? (x : Float) : Option Binary :=
  let bits : Nat := x.toBits.toNat
  let field : Nat := bits >>> 52 % 0x800
  let fraction : Nat := bits % 0x10000000000000
  let negative := decide (0x8000000000000000 ≤ bits)
  if field = 2047 then none
  else if field = 0 then some ⟨negative, fraction, -1074⟩
  else some ⟨negative, fraction + 0x10000000000000, (field : Int) - 1075⟩

def ratio (b : Binary) : Nat × Nat :=
  if 0 ≤ b.exponent then (b.significand <<< b.exponent.toNat, 1)
  else (b.significand, 1 <<< (-b.exponent).toNat)

def truncate (b : Binary) : Int :=
  let (num, den) := b.ratio
  let whole : Int := (num / den : Nat)
  if b.negative then -whole else whole

def floor (b : Binary) : Int :=
  let (num, den) := b.ratio
  let signed : Int := if b.negative then -(num : Int) else num
  signed.fdiv den

/-- The nearest integer, a half going to the even neighbour. -/
def nearest (b : Binary) : Int :=
  let (num, den) := b.ratio
  let whole : Int := roundDiv num den
  if b.negative then -whole else whole

def isIntegral (b : Binary) : Bool :=
  let (num, den) := b.ratio
  num % den == 0

end Binary

/-- The quotient `num / (den · 2 ^ e)` as a pair of natural numbers. -/
def scaleRatio (num den : Nat) (e : Int) : Nat × Nat :=
  if 0 ≤ e then (num, den <<< e.toNat) else (num <<< (-e).toNat, den)

/-- The exponent of the highest power of two that is at most `num / den`. -/
def binaryOrder (num den : Nat) : Int :=
  let guess : Int := (num.log2 : Int) - den.log2
  let (p, q) := scaleRatio num den guess
  if q ≤ p then guess else guess - 1

/-- The double nearest to `± num / den`; quotients beyond the largest double give an infinity. -/
def ofRatio (negative : Bool) (num den : Nat) : Float :=
  let sign : Nat := if negative then 0x8000000000000000 else 0
  if num = 0 then Float.ofBits (UInt64.ofNat sign)
  else
    let e := max (binaryOrder num den - 52) (-1074)
    let (p, q) := scaleRatio num den e
    let magnitude := (e + 1074).toNat <<< 52 + roundDiv p q
    Float.ofBits (UInt64.ofNat (sign + min magnitude 0x7FF0000000000000))

def floatOfInt? (i : Int) : Option Float :=
  let x := ofRatio (i < 0) i.natAbs 1
  if x.isInf then none else some x

def signBit (x : Float) : Bool :=
  decide (0x8000000000000000 ≤ x.toBits.toNat)

/-- The double with the magnitude of the first and the sign of the second number. -/
def withSign (magnitude sign : Float) : Float :=
  let bits := magnitude.toBits.toNat % 0x8000000000000000
  Float.ofBits (UInt64.ofNat (bits + if signBit sign then 0x8000000000000000 else 0))

/-- The order of an integer and a double; none beside a number that is not one. -/
def compareIntFloat (i : Int) (x : Float) : Option Ordering :=
  if x.isNaN then none
  else match Binary.ofFloat? x with
    | none => some (if signBit x then .gt else .lt)
    | some b =>
      let (num, den) := b.ratio
      let right : Int := if b.negative then -(num : Int) else num
      some (compare (i * den) right)

/-- The remainder of the first number by the second, with the sign of the first. -/
def floatRemainder (x y : Float) : Float :=
  match Binary.ofFloat? x, Binary.ofFloat? y with
  | some a, some b =>
    if b.significand = 0 then Float.ofBits 0x7FF8000000000000
    else
      let low := min a.exponent b.exponent
      let p := a.significand <<< (a.exponent - low).toNat
      let q := b.significand <<< (b.exponent - low).toNat
      let (num, den) := (Binary.mk a.negative (p % q) low).ratio
      ofRatio a.negative num den
  | some _, none => if y.isNaN then y else x
  | none, _ => Float.ofBits 0x7FF8000000000000

end StackScript.Number
