import StackScript.Datum.Basic
import StackScript.Number.Reading

/-!
# JSON text as plain data

`Datum.read` reads one JSON value with nothing but blanks around it. The words for infinities and
for "not a number" are numbers, a repeated key keeps its first place and its last value, and a
refusal names the line, the column and the offset of the character it stopped at.
-/

namespace StackScript.Datum

/-- What a JSON text lacks. -/
inductive ReadCause where
  | value
  | comma
  | colon
  | propertyName
  | extraData
  | controlCharacter
  | unterminatedText
  | escape
  | unitEscape
  | byteOrderMark
  deriving DecidableEq, Repr

/-- Why a text is no JSON value. -/
inductive ReadError where
  | malformed (cause : ReadCause) (line column offset : Nat)
  | tooLong (digits : Nat)
  deriving DecidableEq, Repr

def ReadCause.message : ReadCause → String
  | value => "Expecting value"
  | comma => "Expecting ',' delimiter"
  | colon => "Expecting ':' delimiter"
  | propertyName => "Expecting property name enclosed in double quotes"
  | extraData => "Extra data"
  | controlCharacter => "Invalid control character at"
  | unterminatedText => "Unterminated string starting at"
  | escape => "Invalid \\escape"
  | unitEscape => "Invalid \\uXXXX escape"
  | byteOrderMark => "Unexpected UTF-8 BOM (decode using utf-8-sig)"

/-- A refusal at an offset of the text. -/
structure Refusal where
  cause : ReadCause
  offset : Nat

/-- What can stop a reading: a refusal, or an integer with too many digits. -/
abbrev Halt := Sum Refusal Nat

/-- The characters that are left, with the offset of the first. -/
structure Input where
  offset : Nat
  rest : List Char

def refuse {α : Type} (cause : ReadCause) (offset : Nat) : Except Halt α :=
  .error (.inl ⟨cause, offset⟩)

/-- The blanks that may stand between the parts of a JSON text. -/
def isGap (c : Char) : Bool :=
  c == ' ' || c == '\t' || c == '\n' || c == '\r'

def Input.skip (p : Char → Bool) (input : Input) : Input :=
  let taken := input.rest.takeWhile p
  ⟨input.offset + taken.length, input.rest.drop taken.length⟩

def hexValue? (c : Char) : Option Nat :=
  if c.isDigit then some (c.toNat - 0x30)
  else if 'a' ≤ c && c ≤ 'f' then some (c.toNat - 0x61 + 10)
  else if 'A' ≤ c && c ≤ 'F' then some (c.toNat - 0x41 + 10)
  else none

def hexUnit? (a b c d : Char) : Option Nat := do
  let a ← hexValue? a
  let b ← hexValue? b
  let c ← hexValue? c
  let d ← hexValue? d
  return ((a * 16 + b) * 16 + c) * 16 + d

def letterEscape? (c : Char) : Option Char :=
  if c = '"' || c = '\\' || c = '/' then some c
  else if c = 'b' then some (Char.ofNat 8)
  else if c = 'f' then some (Char.ofNat 12)
  else if c = 'n' then some '\n'
  else if c = 'r' then some '\r'
  else if c = 't' then some '\t'
  else none

/-- The character of a code unit; one half of a pair alone is shown as a replacement mark. -/
def unitChar (n : Nat) : Char :=
  if 0xD800 ≤ n && n < 0xE000 then Char.ofNat 0xFFFD else Char.ofNat n

/-- Reads the rest of a text whose opening quote stands at `start`. -/
def readText (start : Nat) (offset : Nat) (read : List Char) :
    List Char → Except Halt (String × Input)
  | [] => refuse .unterminatedText start
  | '"' :: rest => .ok (String.ofList read.reverse, ⟨offset + 1, rest⟩)
  | ['\\'] => refuse .unterminatedText start
  | '\\' :: 'u' :: rest =>
    match rest with
    | a :: b :: c :: d :: e :: rest =>
      match hexUnit? a b c d with
      | none => refuse .unitEscape (offset + 1)
      | some high =>
        let single (_ : Unit) : Except Halt (String × Input) :=
          readText start (offset + 6) (unitChar high :: read) (e :: rest)
        if 0xD800 ≤ high && high < 0xDC00 && e == '\\' then
          match rest with
          | 'u' :: a :: b :: c :: d :: e :: rest =>
            match hexUnit? a b c d with
            | none => refuse .unitEscape (offset + 7)
            | some low =>
              if 0xDC00 ≤ low && low < 0xE000 then
                let point := 0x10000 + (high - 0xD800) * 0x400 + (low - 0xDC00)
                readText start (offset + 12) (Char.ofNat point :: read) (e :: rest)
              else single ()
          | _ => single ()
        else single ()
    | _ => refuse .unitEscape (offset + 1)
  | '\\' :: c :: rest =>
    match letterEscape? c with
    | some e => readText start (offset + 2) (e :: read) rest
    | none => refuse .escape offset
  | c :: rest =>
    if c.toNat < 0x20 then refuse .controlCharacter offset
    else readText start (offset + 1) (c :: read) rest
termination_by cs => cs.length

/-- The digits, fraction and exponent at the start of the characters: how many characters they
take, and whether they make a decimal number. -/
def numberSpan (cs : List Char) : Option (Nat × Bool) :=
  let sign := if cs.head? == some '-' then 1 else 0
  let digits := (cs.drop sign).takeWhile Char.isDigit
  match digits with
  | [] => none
  | first :: _ =>
    let whole := sign + if first == '0' then 1 else digits.length
    let fraction := match cs.drop whole with
      | '.' :: more => match (more.takeWhile Char.isDigit).length with
        | 0 => 0
        | n + 1 => n + 2
      | _ => 0
    let here := whole + fraction
    let exponent := match cs.drop here with
      | e :: more =>
        if e == 'e' || e == 'E' then
          let signed := match more with
            | s :: _ => if s == '+' || s == '-' then 1 else 0
            | [] => 0
          match ((more.drop signed).takeWhile Char.isDigit).length with
          | 0 => 0
          | n + 1 => 1 + signed + n + 1
        else 0
      | [] => 0
    some (here + exponent, decide (0 < fraction + exponent))

def readNumber (input : Input) : Except Halt (Datum × Input) :=
  match numberSpan input.rest with
  | none => refuse .value input.offset
  | some (count, isDecimal) =>
    let text := input.rest.take count
    let after : Input := ⟨input.offset + count, input.rest.drop count⟩
    let (negative, magnitude) := Number.takeSign text
    if isDecimal then
      match Number.readMagnitude negative magnitude with
      | some x => .ok (.float x, after)
      | none => refuse .value input.offset
    else if Number.digitLimit < magnitude.length then .error (.inr magnitude.length)
    else
      let value : Int := Number.digitsValue magnitude
      .ok (.int (if negative then -value else value), after)

def words : List (String × Datum) :=
  [("null", .null), ("true", .bool true), ("false", .bool false),
   ("NaN", .float (Float.ofBits 0x7FF8000000000000)),
   ("Infinity", .float (Float.ofBits 0x7FF0000000000000)),
   ("-Infinity", .float (Float.ofBits 0xFFF0000000000000))]

def readAtom (input : Input) : Except Halt (Datum × Input) :=
  match words.find? fun word => word.1.toList.isPrefixOf input.rest with
  | some (word, d) => .ok (d, ⟨input.offset + word.length, input.rest.drop word.length⟩)
  | none => readNumber input

mutual

def readValue (fuel : Nat) (input : Input) : Except Halt (Datum × Input) :=
  match fuel with
  | 0 => refuse .value input.offset
  | fuel + 1 =>
    match input.rest with
    | '"' :: rest => do
      let (s, after) ← readText input.offset (input.offset + 1) [] rest
      return (.str s, after)
    | '[' :: rest => do
      let inner := Input.skip isGap ⟨input.offset + 1, rest⟩
      match inner.rest with
      | ']' :: rest => return (.list [], ⟨inner.offset + 1, rest⟩)
      | _ => readItems fuel [] inner
    | '{' :: rest => do
      let inner := Input.skip isGap ⟨input.offset + 1, rest⟩
      match inner.rest with
      | '}' :: rest => return (.dict [], ⟨inner.offset + 1, rest⟩)
      | _ => readFields fuel [] inner
    | _ => readAtom input

/-- Reads the items of a list up to its end; `items` are those read, latest first. -/
def readItems (fuel : Nat) (items : List Datum) (input : Input) : Except Halt (Datum × Input) :=
  match fuel with
  | 0 => refuse .value input.offset
  | fuel + 1 => do
    let (item, after) ← readValue fuel input
    let after := after.skip isGap
    match after.rest with
    | ']' :: rest => return (.list (item :: items).reverse, ⟨after.offset + 1, rest⟩)
    | ',' :: rest => readItems fuel (item :: items) (Input.skip isGap ⟨after.offset + 1, rest⟩)
    | _ => refuse .comma after.offset

def readFields (fuel : Nat) (fields : List (Datum × Datum)) (input : Input) :
    Except Halt (Datum × Input) :=
  match fuel with
  | 0 => refuse .value input.offset
  | fuel + 1 =>
    match input.rest with
    | '"' :: rest => do
      let (name, after) ← readText input.offset (input.offset + 1) [] rest
      let after := after.skip isGap
      match after.rest with
      | ':' :: rest =>
        let (value, after) ← readValue fuel (Input.skip isGap ⟨after.offset + 1, rest⟩)
        let fields := enter (.str name) value fields
        let after := after.skip isGap
        match after.rest with
        | '}' :: rest => return (.dict fields, ⟨after.offset + 1, rest⟩)
        | ',' :: rest => readFields fuel fields (Input.skip isGap ⟨after.offset + 1, rest⟩)
        | _ => refuse .comma after.offset
      | _ => refuse .colon after.offset
    | _ => refuse .propertyName input.offset

end

def placeOf (cs : List Char) (offset : Nat) : Nat × Nat :=
  let before := cs.take offset
  let line := before.countP (· == '\n') + 1
  let column := (before.reverse.takeWhile (· != '\n')).length + 1
  (line, column)

def read (s : String) : Except ReadError Datum :=
  let cs := s.toList
  let result : Except Halt Datum := do
    if cs.head? == some (Char.ofNat 0xFEFF) then refuse .byteOrderMark 0
    let (d, after) ← readValue (2 * cs.length + 2) (Input.skip isGap ⟨0, cs⟩)
    let after := after.skip isGap
    if after.rest.isEmpty then return d else refuse .extraData after.offset
  match result with
  | .ok d => .ok d
  | .error (.inr digits) => .error (.tooLong digits)
  | .error (.inl refusal) =>
    let (line, column) := placeOf cs refusal.offset
    .error (.malformed refusal.cause line column refusal.offset)

def ReadError.message : ReadError → String
  | malformed cause line column offset =>
    s!"{cause.message}: line {line} column {column} (char {offset})"
  | tooLong digits =>
    s!"Exceeds the limit ({Number.digitLimit} digits) for integer string conversion: value has {digits} digits; use sys.set_int_max_str_digits() to increase the limit"

end StackScript.Datum
