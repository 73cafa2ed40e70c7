import StackScript.Code.Basic
import StackScript.Datum.Reader
import StackScript.Datum.Writer
import StackScript.Text.Utf8

/-!
# Code files

A code file starts with four letters and a version. Four sections follow: constants, global slots,
routines and the main program. A section is its length in four bytes, lowest first, and the JSON
text of its data. Sections are read one at a time, since what one of them says may be wrong before
the next is looked at.
-/

namespace StackScript

def lowFirst (count n : Nat) : List UInt8 :=
  match count with
  | 0 => []
  | count + 1 => UInt8.ofNat (n % 256) :: lowFirst count (n / 256)

def ofLowFirst (bytes : List UInt8) : Nat :=
  bytes.foldr (fun b n => b.toNat + 256 * n) 0

namespace Instruction

def datum (i : Instruction) : Datum := .list [.int i.op.code, i.operand]

end Instruction

def Slots.datum (slots : Slots) : Datum :=
  .dict (slots.map fun entry => (.str entry.1, .int entry.2))

def Routine.datum (r : Routine) : Datum :=
  .dict [
    (.str "parameters", .list (r.parameters.map .str)),
    (.str "local_vars", r.slots.datum),
    (.str "instructions", .list (r.code.toList.map Instruction.datum))]

namespace CodeFile

def magic : List UInt8 := [0x41, 0x51, 0x55, 0x41]

def version : Nat := 1

def sectionBytes (d : Datum) : List UInt8 :=
  let bytes := Text.encodeUtf8 d.write
  lowFirst 4 bytes.length ++ bytes

def sections (unit : CodeUnit) : List Datum :=
  [.list unit.constants,
   unit.globals.datum,
   .dict (unit.routines.map fun r => (.str r.name, r.datum)),
   .list (unit.main.map Instruction.datum)]

def ofUnit (unit : CodeUnit) : List UInt8 :=
  magic ++ lowFirst 2 version ++ (sections unit).flatMap sectionBytes

def fits (unit : CodeUnit) : Bool :=
  (sections unit).all fun d => (Text.encodeUtf8 d.write).length < 0x100000000

/-- Why a code file cannot be read. -/
inductive ReadError where
  | wrongMagic
  | wrongVersion (found : Nat)
  | cutShort (wanted : Nat)
  | encoding (e : Text.Utf8Error)
  | data (e : Datum.ReadError)
  deriving Repr

def ReadError.message : ReadError → String
  | wrongMagic => "Invalid bytecode file: wrong magic number"
  | wrongVersion found => s!"Unsupported bytecode version: {found}"
  | cutShort wanted => s!"unpack requires a buffer of {wanted} bytes"
  | encoding e => e.message
  | data e => e.message

def takeNumber (count : Nat) (bytes : List UInt8) : Except ReadError (Nat × List UInt8) :=
  let front := bytes.take count
  if front.length < count then .error (.cutShort count)
  else .ok (ofLowFirst front, bytes.drop count)

def readHeader (bytes : List UInt8) : Except ReadError (List UInt8) := do
  if bytes.take 4 ≠ magic then throw .wrongMagic
  let (found, rest) ← takeNumber 2 (bytes.drop 4)
  if found ≠ version then throw (.wrongVersion found)
  return rest

def readSection (bytes : List UInt8) : Except ReadError (Datum × List UInt8) := do
  let (length, rest) ← takeNumber 4 bytes
  let text ← (Text.decodeUtf8 (rest.take length)).mapError .encoding
  let d ← (Datum.read text).mapError .data
  return (d, rest.drop length)

end CodeFile

end StackScript
