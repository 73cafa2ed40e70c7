import StackScript.Number.Decimal
import StackScript.Text.Blank
import StackScript.Text.Numeral

/-!
# Numbers read from text

A whole number is an optional sign and decimal digits of any script; single underscores may stand
between digits and blanks around the number. Conversions in either direction are refused beyond
`digitLimit` digits. A decimal number may have a point and an exponent, or be one of the words
for infinity and for "not a number".
-/

namespace StackScript.Number

/-- The number of digits beyond which integers are not converted from or to text. -/
def digitLimit : Nat := 4300

/-- Why a text is no whole number. -/
inductive IntTextError where
  | malformed
  | tooLong (digits : Nat)
  deriving DecidableEq, Repr

/-- Blanks of the basic character set, which may surround a number. -/
def isNumberPadding (c : Char) : Bool :=
  c == ' ' || (9 ≤ c.toNat && c.toNat ≤ 13)

/-- The characters of a number with digits and blanks of other scripts replaced by basic ones.
Reading stops at the first character that has no replacement, which is kept as a question mark. -/
def basicForm (cs : List Char) : List Char :=
  if cs.all (·.toNat < 0x80) then cs
  else
    let rec convert : List Char → List Char
      | [] => []
      | c :: rest =>
        if c.toNat < 0x7F then c :: convert rest
        else if Text.isBlank c then ' ' :: convert rest
        else match Text.decimalValue? c with
          | some d => Char.ofNat (0x30 + d) :: convert rest
          | none => ['?']
    convert cs

/-- Splits an optional sign off; the flag says that it was a minus. -/
def takeSign : List Char → Bool × List Char
  | '+' :: rest => (false, rest)
  | '-' :: rest => (true, rest)
  | cs => (false, cs)

def digitsValue (cs : List Char) : Nat :=
  cs.foldl (fun n c => 10 * n + (c.toNat - 0x30)) 0

def underscoresSeparate : List Char → Bool
  | [] => true
  | ['_'] => false
  | '_' :: '_' :: _ => false
  | _ :: rest => underscoresSeparate rest

def readInt (s : String) : Except IntTextError Int :=
  let body := (basicForm s.toList).dropWhile isNumberPadding
  let (negative, body) := takeSign body
  let run := body.takeWhile fun c => c.isDigit || c == '_'
  let digits := run.filter Char.isDigit
  let rest := body.dropWhile fun c => c.isDigit || c == '_'
  if run.head? == some '_' || !underscoresSeparate run then .error .malformed
  else if digitLimit < digits.length then .error (.tooLong digits.length)
  else if digits.isEmpty || rest.any (!isNumberPadding ·) then .error .malformed
  else
    let value : Int := digitsValue digits
    .ok (if negative then -value else value)

/-- The double nearest to `± digits · 10 ^ exponent`. Exponents far outside the range of doubles
are decided without computing the power. -/
def floatOfDecimal (negative : Bool) (digits : Nat) (exponent : Int) : Float :=
  let order := (Nat.toDigits 10 digits).length + exponent
  if digits = 0 || order < -400 then ofRatio negative 0 1
  else if 400 < order then ofRatio negative (Nat.pow 10 400) 1
  else
    let (num, den) := (Decimal.mk digits exponent).ratio
    ofRatio negative num den

/-- Reads an exponent: nothing, or the letter, an optional sign and digits to the end. -/
def readExponent : List Char → Option Int
  | [] => some 0
  | c :: rest =>
    if c == 'e' || c == 'E' then
      let (negative, digits) := takeSign rest
      if digits.isEmpty || digits.any (!Char.isDigit ·) then none
      else some (if negative then -(digitsValue digits : Int) else digitsValue digits)
    else none

/-- Reads an unsigned decimal: digits with an optional point, then an exponent. -/
def readMagnitude (negative : Bool) (cs : List Char) : Option Float :=
  let whole := cs.takeWhile Char.isDigit
  let rest := cs.dropWhile Char.isDigit
  let (fraction, rest) := match rest with
    | '.' :: more => (more.takeWhile Char.isDigit, more.dropWhile Char.isDigit)
    | _ => ([], rest)
  if whole.isEmpty && fraction.isEmpty then none
  else (readExponent rest).map fun e =>
    floatOfDecimal negative (digitsValue (whole ++ fraction)) (e - fraction.length)

/-- Drops underscores that stand between two digits; none if another underscore is met. -/
def dropSeparators : Option Char → List Char → Option (List Char)
  | _, [] => some []
  | last, '_' :: rest =>
    match last, rest with
    | some l, n :: _ => if l.isDigit && n.isDigit then dropSeparators (some '_') rest else none
    | _, _ => none
  | _, c :: rest => (dropSeparators (some c) rest).map (c :: ·)

/-- Reads a decimal number, an infinity or a word for "not a number". -/
def readFloat (s : String) : Option Float := do
  let body := (basicForm s.toList).dropWhile isNumberPadding
  let body := (body.reverse.dropWhile isNumberPadding).reverse
  let body ← dropSeparators none body
  let (negative, magnitude) := takeSign body
  let word := String.ofList (magnitude.map Char.toLower)
  if word == "inf" || word == "infinity" then some (ofRatio negative (Nat.pow 10 400) 1)
  else if word == "nan" then some (Float.ofBits 0x7FF8000000000000)
  else readMagnitude negative magnitude

def intDigits (i : Int) : String :=
  let digits := i.natAbs.repr
  if i < 0 then "-" ++ digits else digits

def exceedsDigitLimit (i : Int) : Bool :=
  Nat.pow 10 digitLimit ≤ i.natAbs

end StackScript.Number
