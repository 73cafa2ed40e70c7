import StackScript.Code.Basic
import StackScript.Machine.Counter
import StackScript.Value.Attribute

/-!
# The state of the wide machine

The wide machine runs the whole instruction set, with handlers for exceptions. Its code has been
checked when it was loaded, so that every instruction is known; operands are still any data.
-/

namespace StackScript.Wide

/-- A loaded routine. -/
structure Routine where
  name : String
  parameters : Datum
  slots : Datum
  code : Array Instruction
  deriving Inhabited

/-- A handler that a program has set up: where exceptions are caught, or `-1`, where the block that
runs at last begins, and whether it was set up during a call. -/
structure Handler where
  catchAt : Int
  finallyAt : Option Counter := none
  inCall : Bool

/-- The functions that a machine knows: the plain ones, or more of them. -/
inductive Functions where
  | plain
  | extended
  deriving DecidableEq, Repr

/-- The state of a machine. The top of the stack comes first, and so do the innermost call and the
latest handler. -/
structure State where
  functions : Functions := .plain
  store : Store := { lists := #[#[]] }
  constants : Value := .list 0
  globalSlots : Datum := .dict []
  routines : List (String × Routine) := []
  main : Array Instruction := #[]
  stack : List Value := []
  frames : List (Frame Routine) := []
  pc : Counter := .at 0
  globals : Array Value := #[]
  handlers : List Handler := []
  current : Option Nat := none
  output : String := ""

/-- Why a machine fails. A thrown exception may be `unreadable`: it has no text to report. -/
inductive Failure where
  | value (cause : Fault)
  | outsideCall (label : String)
  | membership (item container : String) (cause : Fault)
  | getItem (kind : String) (cause : Fault)
  | setItem (kind : String) (cause : Fault)
  | notIterable (kind : String)
  | appendTo (kind : String)
  | appendUnderflow
  | noLength (kind : String) (cause : Fault)
  | swapUnderflow
  | rotateUnderflow
  | importUnderflow
  | importFromUnderflow
  | importing (name : String) (cause : Fault)
  | importingFrom (name : String) (cause : Fault)
  | noException
  | unknownRoutine (name : String)
  | routineArguments (name : String) (wanted given : Nat)
  | unknownOpcode (label : String)
  | thrown (message : String)
  | unreadable (cause : Fault)

def Failure.message : Failure → String
  | value cause => cause.message
  | outsideCall label => s!"{label} called outside function context"
  | membership item container cause => s!"Cannot check if {item} is in {container}: {cause.message}"
  | getItem kind cause => s!"Cannot get item from {kind}: {cause.message}"
  | setItem kind cause => s!"Cannot set item in {kind}: {cause.message}"
  | notIterable kind => s!"'{kind}' object is not iterable"
  | appendTo kind => s!"Cannot append to {kind}"
  | appendUnderflow => "Stack underflow in LIST_APPEND"
  | noLength kind cause => s!"Object of type {kind} has no len(): {cause.message}"
  | swapUnderflow => "ROT_TWO requires 2 operands"
  | rotateUnderflow => "Stack underflow: ROT_THREE requires at least 3 elements"
  | importUnderflow => "IMPORT_MODULE requires 1 operand"
  | importFromUnderflow => "IMPORT_FROM requires 2 operands"
  | importing name cause => s!"Cannot import module '{name}': {cause.message}"
  | importingFrom name cause => s!"Cannot import from module '{name}': {cause.message}"
  | noException => "No active exception to reraise"
  | unknownRoutine name => s!"Function '{name}' not found"
  | routineArguments name wanted given =>
    s!"Function '{name}' takes {wanted} arguments but {given} were given"
  | unknownOpcode label => s!"Unknown opcode: OpCode.{label}"
  | thrown message => message
  | unreadable cause => cause.message

/-- Why a machine stops before the end of its program. -/
inductive Stop where
  | halted
  | failed (cause : Failure)

abbrev Act (α : Type) := EStateM Stop State α

namespace Act

def fail {α : Type} (cause : Failure) : Act α := throw (.failed cause)

def fault {α : Type} (cause : Fault) : Act α := fail (.value cause)

def op {α : Type} (x : Op α) : Act α := fun s =>
  let store := s.store
  let s := { s with store := {} }
  match x store with
  | .ok a store => .ok a { s with store }
  | .error e store => .error (.failed (.value e)) { s with store }

def opOr {α : Type} (rename : Fault → Failure) (x : Op α) : Act α := fun s =>
  let store := s.store
  let s := { s with store := {} }
  match x store with
  | .ok a store => .ok a { s with store }
  | .error e store => .error (.failed (rename e)) { s with store }

def ask {α : Type} (f : Store → Except Fault α) : Act α := op (Op.ask f)

def ofExcept {α : Type} (x : Except Fault α) : Act α := op (Op.ofExcept x)

def push (v : Value) : Act Unit := modify fun s => { s with stack := v :: s.stack }

def pop : Act Value := do
  let s ← get
  match s.stack with
  | v :: rest =>
    set { s with stack := rest }
    return v
  | [] => fault .popEmpty

/-- Takes some values from the stack, the deepest first in the result. If there are too few, they
are all gone. -/
def popMany (count : Nat) : Act (List Value) := do
  let s ← get
  if s.stack.length < count then
    set { s with stack := [] }
    fault .popEmpty
  else
    set { s with stack := s.stack.drop count }
    return (s.stack.take count).reverse

def operandValue (operand : Datum) : Act Value := op (Value.ofDatum operand)

/-- An operand that counts something; a number below zero counts as none. -/
def operandCount (operand : Datum) : Act Nat :=
  match operand.integral? with
  | some i => return i.toNat
  | none => fault (.notWhole operand.kindName)

def constant (operand : Datum) : Act Value := do
  let index ← operandValue operand
  let s ← get
  op (Value.item s.constants index)

def code : Act (Array Instruction) := do
  let s ← get
  match s.frames with
  | frame :: _ => return frame.routine.code
  | [] => return s.main

def counter : Act Counter := do
  let s ← get
  match s.frames with
  | frame :: _ => return frame.pc
  | [] => return s.pc

def jump (target : Counter) : Act Unit := modify fun s =>
  match s.frames with
  | frame :: rest => { s with frames := { frame with pc := target } :: rest }
  | [] => { s with pc := target }

def print (line : String) : Act Unit :=
  modify fun s => { s with output := s.output ++ line ++ "\n" }

end Act

end StackScript.Wide
