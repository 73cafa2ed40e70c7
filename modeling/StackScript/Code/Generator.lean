import StackScript.Code.Basic
import StackScript.Token.Scanner
import StackScript.Tree.Reader

/-!
# The state of code generation

A generator appends instructions to the routine it is in, or to the main program. It pools
constants by equality, gives names their slots, and patches the targets of jumps once they are
known. What was emitted before an error stays.
-/

namespace StackScript

/-- Why a program cannot be compiled. -/
inductive CompileError where
  | scan (e : ScanError)
  | parse (e : ParseError)
  | unknownBinary (operator : String)
  | unknownUnary (operator : String)
  | localOutside
  | notIterable (kind : String)
  | notSubscriptable (kind : String)
  | listIndex
  | textIndex
  | noKey (key : String)
  | noLength (kind : String)
  | notText (kind : String)
  | badKey (kind : String)
  | longInteger
  | longSection
  deriving Repr

def CompileError.message : CompileError → String
  | scan e => e.message
  | parse e => e.message
  | unknownBinary operator => s!"Unknown binary operator: {operator}"
  | unknownUnary operator => s!"Unknown unary operator: {operator}"
  | localOutside => "Cannot create local variable outside function"
  | notIterable kind => s!"'{kind}' object is not iterable"
  | notSubscriptable kind => s!"'{kind}' object is not subscriptable"
  | listIndex => "list indices must be integers or slices, not str"
  | textIndex => "string indices must be integers, not 'str'"
  | noKey key => key
  | noLength kind => s!"object of type '{kind}' has no len()"
  | notText kind => s!"'in <string>' requires string as left operand, not {kind}"
  | badKey kind => s!"keys must be str, int, float, bool or None, not {kind}"
  | longInteger =>
    s!"Exceeds the limit ({Number.digitLimit} digits) for integer string conversion; use sys.set_int_max_str_digits() to increase the limit"
  | longSection => "'I' format requires 0 <= number <= 4294967295"

def CompileError.isEndless : CompileError → Bool
  | parse .endless => true
  | _ => false

/-- A generator. `current` is the routine under construction, none in the main program, and
`inWhile` tells whether a conditional loop encloses the place without a counted one between. -/
structure Generator where
  constants : Array Datum := #[]
  routines : List Routine := []
  globals : Slots := []
  main : Array Instruction := #[]
  current : Option Routine := none
  labels : Nat := 0
  inWhile : Bool := false
  deriving Inhabited

abbrev Gen (α : Type) := EStateM CompileError Generator α

namespace Generator

def code (g : Generator) : Array Instruction :=
  match g.current with
  | some routine => routine.code
  | none => g.main

def mapCode (f : Array Instruction → Array Instruction) (g : Generator) : Generator :=
  match g.current with
  | some routine => { g with current := some { routine with code := f routine.code } }
  | none => { g with main := f g.main }

def putRoutine (routine : Routine) : List Routine → List Routine
  | [] => [routine]
  | r :: rest => if r.name == routine.name then routine :: rest else r :: putRoutine routine rest

def unit (g : Generator) : CodeUnit :=
  ⟨g.constants.toList, g.globals, g.routines, g.main.toList⟩

end Generator

namespace Gen

def here : Gen Nat := return (← get).code.size

def emit (op : Opcode) (operand : Datum) : Gen Unit :=
  modify (Generator.mapCode (·.push ⟨op, operand⟩))

def emit' (op : Opcode) : Gen Unit := emit op .null

def emitAt (op : Opcode) (n : Nat) : Gen Unit := emit op (.int n)

def patch (index target : Nat) : Gen Unit :=
  modify (Generator.mapCode fun code =>
    code.modify index fun i => { i with operand := .int target })

/-- The index of a constant; a new one is appended to the pool. -/
def constant (d : Datum) : Gen Nat := do
  let g ← get
  match g.constants.findIdx? (fun c => c.same d) with
  | some i => return i
  | none =>
    set { g with constants := g.constants.push d }
    return g.constants.size

def loadConst (d : Datum) : Gen Unit := do
  emitAt .loadConst (← constant d)

def freshLabel : Gen String := do
  let g ← get
  set { g with labels := g.labels + 1 }
  return s!"L{g.labels}"

/-- The slot of a global name; a new name takes the next one. -/
def globalSlot (name : String) : Gen Nat := do
  let g ← get
  match g.globals.slot? name with
  | some slot => return slot
  | none =>
    set { g with globals := g.globals.put name g.globals.length }
    return g.globals.length

/-- The slot of a name of the current routine; a new name takes the next one. -/
def localSlot (name : String) : Gen Nat := do
  let g ← get
  match g.current with
  | none => throw .localOutside
  | some routine =>
    match routine.slots.slot? name with
    | some slot => return slot
    | none =>
      let slots := routine.slots.put name routine.slots.length
      set { g with current := some { routine with slots } }
      return routine.slots.length

def inRoutine : Gen Bool := return (← get).current.isSome

def slot (name : String) : Gen Nat := do
  if ← inRoutine then localSlot name else globalSlot name

def storeName (name : String) : Gen Unit := do
  if ← inRoutine then emitAt .storeLocal (← localSlot name)
  else emitAt .storeGlobal (← globalSlot name)

/-- The slot that a name already has in the current routine. -/
def knownLocal? (name : String) : Gen (Option Nat) := do
  return (← get).current.bind fun routine => routine.slots.slot? name

def knownGlobal? (name : String) : Gen (Option Nat) := do
  return (← get).globals.slot? name

/-- Loads a name: a local one if the routine knows it, else a global one. -/
def loadName (name : String) : Gen Unit := do
  match ← knownLocal? name with
  | some slot => emitAt .loadLocal slot
  | none => emitAt .loadGlobal (← globalSlot name)

/-- Loads what a call by name calls: a known variable, or else the name itself. -/
def loadCallee (name : String) : Gen Unit := do
  match ← knownLocal? name with
  | some slot => emitAt .loadLocal slot
  | none =>
    match ← knownGlobal? name with
    | some slot => emitAt .loadGlobal slot
    | none => loadConst (.str name)

/-- Assigns the top of the stack to a name. Inside a routine a known global name is meant before a
local one. -/
def assignName (name : String) : Gen Unit := do
  if ← inRoutine then
    match ← knownGlobal? name with
    | some slot => emitAt .storeGlobal slot
    | none => emitAt .storeLocal (← localSlot name)
  else emitAt .storeGlobal (← globalSlot name)

def enter (name : String) (parameters : List String) : Gen Unit :=
  modify fun g =>
    { g with current := some ⟨name, parameters, Slots.ofParameters parameters, #[]⟩ }

def ensureReturn : Gen Unit := do
  if ((← get).code.back?.map (·.op)) ≠ some .ret then
    loadConst .null
    emit' .ret

def routine (name : String) (parameters : List String) (body : Gen Unit) : Gen Unit := do
  let outer := (← get).current
  enter name parameters
  body
  ensureReturn
  modify fun g =>
    match g.current with
    | some r => { g with routines := Generator.putRoutine r g.routines, current := outer }
    | none => { g with current := outer }

/-- Runs a step with the mark for conditional loops set, and sets it back. -/
def withLoop (inWhile : Bool) (body : Gen Unit) : Gen Unit := do
  let outer := (← get).inWhile
  modify fun g => { g with inWhile }
  body
  modify fun g => { g with inWhile := outer }

end Gen

end StackScript
