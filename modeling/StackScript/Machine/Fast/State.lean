import StackScript.Code.Opcode
import StackScript.Machine.Counter
import StackScript.Value.Object

/-!
# The state of the fast machine

The fast machine has classes and objects, counts what it does, and can list its steps. It reads
its code as it goes, so that a row that is no instruction is found only when it is reached.
-/

namespace StackScript.Fast

/-- What a machine has counted. -/
structure Stats where
  instructions : Nat := 0
  calls : Nat := 0
  peakStack : Nat := 0
  peakDepth : Nat := 0
  deriving Repr

/-- The state of a machine. The top of the stack comes first, and so does the innermost call.
Routines are known by their places in the store. -/
structure State where
  debug : Bool := false
  counting : Bool := true
  store : Store := { lists := #[#[]] }
  constants : Value := .list 0
  globalSlots : Datum := .dict []
  routines : List (String × Nat) := []
  classes : Table := #[]
  main : Listing := .rows #[]
  stack : List Value := []
  frames : List (Frame Nat) := []
  pc : Counter := .at 0
  globals : Array Value := #[]
  stats : Stats := {}
  output : String := ""

/-- Why a machine fails. -/
inductive Failure where
  | value (cause : Fault)
  | needs (label : String) (count : Nat)
  | needsShown (label count : String)
  | emptyStore (target : String)
  | slotRange (target index : String)
  | outsideCall (action : String)
  | mismatch (report : String) (cause : Fault)
  | notAttribute (kind name : String) (cause : Fault)
  | importing (name : String) (cause : Fault)
  | importingFrom (name : String) (cause : Fault)
  | wrongType (expected found : String)
  | classUnderflow
  | classTable
  | objectUnderflow
  | objectClass
  | methodObject
  | methodRoutine (name : String)
  | noMethod (name owner : String)
  | notIterable (kind : String)
  | iteratorUnderflow
  | iteratorState
  | appendTo (kind : String)
  | appendUnderflow
  | routineArguments (name : String) (wanted given : Nat)
  | unknownRoutine (name : String)
  | notCallable (kind : String)
  | noConstructor (name : Option String)
  | unknownOpcode (text : String)
  | noArguments (function : String)
  | rangeArguments
  | inFunction (name : String) (cause : Failure)

def Failure.message : Failure → String
  | value cause => cause.message
  | needs label count => s!"{label} requires {count} operand" ++ Fault.plural count
  | needsShown label count => s!"{label} requires {count} operands"
  | emptyStore target => s!"Cannot store {target}: stack is empty"
  | slotRange target index => s!"{target} variable index {index} out of range"
  | outsideCall action => s!"Cannot {action} local variable: not in function context"
  | mismatch report cause => s!"{report}: {cause.message}"
  | notAttribute kind name cause => s!"'{kind}' object has no attribute '{name}': {cause.message}"
  | importing name cause => s!"Cannot import module '{name}': {cause.message}"
  | importingFrom name cause => s!"Cannot import from module '{name}': {cause.message}"
  | wrongType expected found => s!"Expected {expected}, got {found}"
  | classUnderflow => "CREATE_CLASS requires methods dict on stack"
  | classTable => "CREATE_CLASS requires methods dict"
  | objectUnderflow => "CREATE_OBJECT requires class on stack"
  | objectClass => "CREATE_OBJECT requires AquaClass object"
  | methodObject => "CALL_METHOD requires AquaObject"
  | methodRoutine name => s!"Method function '{name}' not found"
  | noMethod name owner => s!"Method '{name}' not found in class '{owner}'"
  | notIterable kind => s!"'{kind}' object is not iterable"
  | iteratorUnderflow => "FOR_ITER requires iterator on stack"
  | iteratorState => "Invalid iterator state"
  | appendTo kind => s!"Cannot append to {kind}"
  | appendUnderflow => "Stack underflow in LIST_APPEND"
  | routineArguments name wanted given =>
    s!"Function '{name}' takes {wanted} arguments but {given} were given"
  | unknownRoutine name => s!"Function '{name}' not found"
  | notCallable kind => s!"'{kind}' object is not callable"
  | noConstructor (some name) =>
    s!"Class '{name}' has no constructor but arguments were provided"
  | noConstructor none => "Class has no constructor but arguments were provided"
  | unknownOpcode text => s!"Unknown opcode: {text}"
  | noArguments function => s!"{function}() requires at least 1 argument"
  | rangeArguments => "range() takes 1 to 3 arguments"
  | inFunction name cause => s!"Error in builtin function '{name}': " ++ cause.message

/-- Why a machine stops before the end of its program. -/
inductive Stop where
  | halted
  | failed (cause : Failure)

abbrev Act (α : Type) := EStateM Stop State α

namespace Act

def fail {α : Type} (cause : Failure) : Act α := throw (.failed cause)

def fault {α : Type} (cause : Fault) : Act α := fail (.value cause)

/-- An operation whose faults are given another name; the store is handed over to it. -/
def opOr {α : Type} (rename : Fault → Failure) (x : Op α) : Act α := fun s =>
  let store := s.store
  let s := { s with store := {} }
  match x store with
  | .ok a store => .ok a { s with store }
  | .error e store => .error (.failed (rename e)) { s with store }

def op {α : Type} (x : Op α) : Act α := opOr .value x

def ask {α : Type} (f : Store → Except Fault α) : Act α := op (Op.ask f)

def ofExcept {α : Type} (x : Except Fault α) : Act α := op (Op.ofExcept x)

def push (v : Value) : Act Unit := modify fun s => { s with stack := v :: s.stack }

/-- Takes the top of the stack; an instruction has made sure before that there is one. -/
def pop : Act Value := do
  let s ← get
  match s.stack with
  | v :: rest =>
    set { s with stack := rest }
    return v
  | [] => fault .popEmpty

/-- Takes some values from the stack, the deepest first in the result. -/
def popMany (count : Nat) : Act (List Value) := do
  let s ← get
  if s.stack.length < count then
    set { s with stack := [] }
    fault .popEmpty
  else
    set { s with stack := s.stack.drop count }
    return (s.stack.take count).reverse

def demand (label : String) (count : Nat) : Act Unit := do
  if ((← get).stack.take count).length < count then fail (.needs label count)

def textOf (v : Value) : Act String := ask (Value.text · v)

def operandValue (operand : Datum) : Act Value := op (Value.ofDatum operand)

def constantAt (index : Value) : Act Value := do
  let s ← get
  op (Value.item s.constants index)

def constant (operand : Datum) : Act Value := do constantAt (← operandValue operand)

def compare (o : OrderOp) (a b : Value) : Act Bool := ask (Value.order · o a b)

def jump (target : Counter) : Act Unit := modify fun s =>
  match s.frames with
  | frame :: rest => { s with frames := { frame with pc := target } :: rest }
  | [] => { s with pc := target }

def print (line : String) : Act Unit :=
  modify fun s => { s with output := s.output ++ line ++ "\n" }

def routineAt (ref : Nat) : Act RoutineCell := do
  return (← get).store.routines.getD ref default

end Act

end StackScript.Fast
