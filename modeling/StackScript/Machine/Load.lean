import StackScript.Code.File
import StackScript.Value.Items
import StackScript.Value.Plain

/-!
# Reading the data of code files

A code file holds JSON data that need not have the form of a program. Here are the readings of
such data, each with the fault it meets.
-/

namespace StackScript

/-- Why a code file cannot be loaded. -/
inductive LoadError where
  | file (e : CodeFile.ReadError)
  | fault (e : Fault)

def LoadError.message : LoadError → String
  | file e => e.message
  | fault e => e.message

namespace Datum

def shown (d : Datum) : String :=
  match (Value.ofDatum d >>= fun v => Op.ask (Value.quoted · v)).run {} with
  | .ok text _ => text
  | .error _ _ => ""

def length (d : Datum) : Except Fault Nat :=
  match Listing.ofDatum? d with
  | some listing => .ok listing.size
  | none => .error (.noLength d.kindName)

/-- The parts that a datum yields; `other` is the fault of a datum that yields none. -/
def parts (d : Datum) (other : String → Fault) : Except Fault (List Datum) :=
  match d with
  | list items | tuple items => .ok items
  | str t => .ok (t.toList.map fun c => .str c.toString)
  | dict entries => .ok (entries.map (·.1))
  | d => .error (other d.kindName)

def pair (d : Datum) : Except Fault (Datum × Datum) := do
  match ← d.parts .notUnpackable with
  | [a, b] => return (a, b)
  | [] => throw (.unpackFew 2 0)
  | [_] => throw (.unpackFew 2 1)
  | _ => throw (.unpackMany 2)

def entries (d : Datum) : Except Fault (List (Datum × Datum)) :=
  match d with
  | dict entries => .ok entries
  | d => .error (.noAttribute d.kindName "items")

def part (d : Datum) (name : String) : Except Fault Datum :=
  match d with
  | dict _ =>
    match d.field? name with
    | some found => .ok found
    | none => .error (.missingKey (Text.quoted name))
  | list _ => .error (.indexKind "list" "str")
  | tuple _ => .error (.indexKind "tuple" "str")
  | str _ => .error (.textIndexKind "str")
  | d => .error (.notSubscriptable d.kindName)

end Datum

def Opcode.ofDatum? (set : List (Nat × Opcode × String)) (d : Datum) : Option Opcode :=
  (set.find? fun row => d.same (.int row.1)).map (·.2.1)

def nextSection (bytes : List UInt8) : Except LoadError (Datum × List UInt8) :=
  (CodeFile.readSection bytes).mapError .file

end StackScript
