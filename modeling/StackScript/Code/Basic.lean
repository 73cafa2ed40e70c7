import StackScript.Code.Opcode
import StackScript.Datum.Basic

/-!
# Compiled programs

A compiled program has a pool of constants, a slot for every global name, a table of routines and
the instructions of the main program.
-/

namespace StackScript

/-- An instruction with its operand, which is null where it needs none. -/
structure Instruction where
  op : Opcode
  operand : Datum := .null
  deriving Inhabited

/-- Names with their slots, in the order in which they were entered. -/
abbrev Slots := List (String × Nat)

namespace Slots

def slot? (slots : Slots) (name : String) : Option Nat :=
  (slots.find? fun entry => entry.1 == name).map (·.2)

/-- Gives a name a slot; a name that is already there keeps its place. -/
def put (slots : Slots) (name : String) (slot : Nat) : Slots :=
  match slots with
  | [] => [(name, slot)]
  | entry :: rest => if entry.1 == name then (name, slot) :: rest else entry :: put rest name slot

/-- The slots of parameters: each stands at its own index, and the last of equal names wins. -/
def ofParameters (parameters : List String) : Slots :=
  parameters.zipIdx.foldl (fun slots entry => slots.put entry.1 entry.2) []

end Slots

/-- The code of a function. -/
structure Routine where
  name : String
  parameters : List String
  slots : Slots
  code : Array Instruction
  deriving Inhabited

/-- A compiled program. -/
structure CodeUnit where
  constants : List Datum
  globals : Slots
  routines : List Routine
  main : List Instruction
  deriving Inhabited

def CodeUnit.instructions (unit : CodeUnit) : List Instruction :=
  unit.main ++ unit.routines.flatMap (·.code.toList)

end StackScript
