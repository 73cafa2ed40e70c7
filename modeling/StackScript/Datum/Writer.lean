import StackScript.Datum.Basic
import StackScript.Number.Reading

/-!
# Plain data as JSON text

Data are written on one line, with a blank after each comma and colon, and with every character
beyond the basic set escaped. Tuples are written as lists. Keys that are not texts are written as
the text of the key; `badKey?` finds the first key for which there is none. `writeIndented` puts
every item on a line of its own.
-/

namespace StackScript.Datum

def unitEscape (n : Nat) : List Char :=
  let digits := Nat.toDigits 16 n
  '\\' :: 'u' :: (List.replicate (4 - digits.length) '0' ++ digits)

def escapeChar (c : Char) : List Char :=
  if c = '"' then ['\\', '"']
  else if c = '\\' then ['\\', '\\']
  else if c = '\n' then ['\\', 'n']
  else if c = '\r' then ['\\', 'r']
  else if c = '\t' then ['\\', 't']
  else if c.toNat = 8 then ['\\', 'b']
  else if c.toNat = 12 then ['\\', 'f']
  else if 0x20 ≤ c.toNat && c.toNat < 0x7F then [c]
  else if c.toNat < 0x10000 then unitEscape c.toNat
  else
    let n := c.toNat - 0x10000
    unitEscape (0xD800 + n / 0x400) ++ unitEscape (0xDC00 + n % 0x400)

def writeText (s : String) : String :=
  "\"" ++ String.ofList (s.toList.flatMap escapeChar) ++ "\""

def writeFloat (x : Float) : String :=
  if x.isNaN then "NaN"
  else if x.isInf then if Number.signBit x then "-Infinity" else "Infinity"
  else Number.floatText x

def keyText : Datum → String
  | null => "null"
  | bool b => if b then "true" else "false"
  | int i => Number.intDigits i
  | float x => writeFloat x
  | str s => s
  | _ => ""

mutual

def write : Datum → String
  | null => "null"
  | bool b => if b then "true" else "false"
  | int i => Number.intDigits i
  | float x => writeFloat x
  | str s => writeText s
  | list items => "[" ++ ", ".intercalate (writeItems items) ++ "]"
  | tuple items => "[" ++ ", ".intercalate (writeItems items) ++ "]"
  | dict entries => "\x7b" ++ ", ".intercalate (writeEntries entries) ++ "\x7d"

def writeItems : List Datum → List String
  | [] => []
  | d :: rest => write d :: writeItems rest

def writeEntries : List (Datum × Datum) → List String
  | [] => []
  | (k, v) :: rest => (writeText k.keyText ++ ": " ++ write v) :: writeEntries rest

end

mutual

def badKey? : Datum → Option String
  | list items => badKeyItems? items
  | tuple items => badKeyItems? items
  | dict entries => badKeyEntries? entries
  | _ => none

def badKeyItems? : List Datum → Option String
  | [] => none
  | d :: rest => badKey? d <|> badKeyItems? rest

def badKeyEntries? : List (Datum × Datum) → Option String
  | [] => none
  | (k, v) :: rest =>
    (match k with
      | list _ | tuple _ | dict _ => some k.kindName
      | _ => none) <|> badKey? v <|> badKeyEntries? rest

end

def lineBreak (depth : Nat) : String :=
  "\n" ++ String.ofList (List.replicate (2 * depth) ' ')

mutual

def writeIndented (depth : Nat) : Datum → String
  | list items => indentItems depth items
  | tuple items => indentItems depth items
  | dict entries =>
    if entries.isEmpty then "\x7b\x7d"
    else "\x7b" ++ lineBreak (depth + 1)
      ++ ("," ++ lineBreak (depth + 1)).intercalate (indentEntries (depth + 1) entries)
      ++ lineBreak depth ++ "\x7d"
  | other => write other

def indentItems (depth : Nat) (items : List Datum) : String :=
  match items with
  | [] => "[]"
  | d :: rest => "[" ++ lineBreak (depth + 1)
      ++ ("," ++ lineBreak (depth + 1)).intercalate
          (writeIndented (depth + 1) d :: indentEach (depth + 1) rest)
      ++ lineBreak depth ++ "]"

def indentEach (depth : Nat) : List Datum → List String
  | [] => []
  | d :: rest => writeIndented depth d :: indentEach depth rest

def indentEntries (depth : Nat) : List (Datum × Datum) → List String
  | [] => []
  | (k, v) :: rest =>
    (writeText k.keyText ++ ": " ++ writeIndented depth v) :: indentEntries depth rest

end

end StackScript.Datum
