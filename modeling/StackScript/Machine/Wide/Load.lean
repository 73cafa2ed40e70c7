import StackScript.Machine.Load
import StackScript.Machine.Wide.State

/-!
# Loading the wide machine

All instructions are checked when a file is loaded. What a machine has loaded before stays, as far
as the new file does not replace it: constants, globals and the main program are replaced, and
routines are added.
-/

namespace StackScript.Wide

def instructionOf (d : Datum) : Except Fault Instruction := do
  let (code, operand) ← d.pair
  match Opcode.ofDatum? Opcode.wideSet code with
  | some op => return { op, operand }
  | none => throw (.notOpcode code.shown)

def codeOf (d : Datum) : Except Fault (Array Instruction) := do
  return (← (← d.parts .notIterable).mapM instructionOf).toArray

def routineOf (name : String) (d : Datum) : Except Fault Routine := do
  let code ← codeOf (← d.part "instructions")
  let parameters ← d.part "parameters"
  let slots ← d.part "local_vars"
  return { name, parameters, slots, code }

def putRoutine (routines : List (String × Routine)) (routine : Routine) :
    List (String × Routine) :=
  match routines with
  | [] => [(routine.name, routine)]
  | entry :: rest =>
    if entry.1 == routine.name then (routine.name, routine) :: rest
    else entry :: putRoutine rest routine

def keyName : Datum → String
  | .str name => name
  | _ => ""

def putRoutines (routines : List (String × Routine)) :
    List (Datum × Datum) → Except Fault (List (String × Routine))
  | [] => .ok routines
  | (name, d) :: rest => do
    putRoutines (putRoutine routines (← routineOf (keyName name) d)) rest

def State.withConstants (s : State) (d : Datum) : State :=
  match (Value.ofDatum d).run s.store with
  | .ok constants store => { s with constants, store }
  | .error _ store => { s with store }

def State.load (s : State) (bytes : List UInt8) : Except LoadError State := do
  let rest ← (CodeFile.readHeader bytes).mapError .file
  let (constants, rest) ← nextSection rest
  let (slots, rest) ← nextSection rest
  let size ← (slots.length).mapError .fault
  let (table, rest) ← nextSection rest
  let routines ← (do putRoutines s.routines (← table.entries)).mapError .fault
  let (code, _) ← nextSection rest
  let main ← (codeOf code).mapError .fault
  return { s.withConstants constants with
    globalSlots := slots, globals := Array.replicate size .none, routines, main }

end StackScript.Wide
