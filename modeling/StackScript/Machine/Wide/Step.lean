import StackScript.Machine.Wide.Function
import StackScript.Machine.Wide.Handler
import StackScript.Value.Template

/-!
# One step of the wide machine

`perform` does what an instruction says; `step` fetches the next instruction, moves the counter on
and performs it. A call whose counter is past its last instruction stays where it is.
-/

namespace StackScript.Wide

namespace Act

/-- Replaces the two values on top of the stack by a result. -/
def binary (f : Value → Value → Act Value) : Act Unit := do
  let b ← pop
  let a ← pop
  push (← f a b)

def arith (o : ArithOp) (a b : Value) : Act Value := do
  if o = .div && Value.same (← get).store b (.int 0) then fault .divisionByZero
  op (Value.arith o a b)

def order (o : OrderOp) (a b : Value) : Act Value := do
  return .bool (← ask (Value.order · o a b))

def same (a b : Value) : Act Bool := do
  return Value.same (← get).store a b

def truth (v : Value) : Act Bool := do
  return v.truth (← get).store

def member (a b : Value) : Act Value := do
  let rename (e : Fault) : Failure :=
    if e.kind = .type then .membership a.kind b.kind e else .value e
  return .bool (← opOr rename (Value.contains b a))

/-- Faults of reading and writing items that a machine reports itself. -/
def itemFault (e : Fault) : Bool := e.kind = .index || e.kind = .key || e.kind = .type

def loadGlobal (operand : Datum) : Act Unit := do
  let index ← operandValue operand
  push (← ofExcept (Value.arrayItem (← get).globals index))

def storeGlobal (operand : Datum) (v : Value) : Act Unit := do
  let index ← operandValue operand
  let globals ← ofExcept (Value.arrayPut (← get).globals index v)
  modify fun s => { s with globals }

def loadLocal (frame : Frame Routine) (operand : Datum) : Act Unit := do
  let index ← operandValue operand
  push (← ofExcept (Value.arrayItem frame.locals index))

def storeLocal (frame : Frame Routine) (operand : Datum) (v : Value) : Act Unit := do
  let index ← operandValue operand
  let locals ← ofExcept (Value.arrayPut frame.locals index v)
  modify fun s => { s with frames := { frame with locals } :: s.frames.tail }

/-- Jumps if the top of the stack counts as the given truth value. -/
def jumpIf (wanted : Bool) (operand : Datum) : Act Unit := do
  let condition ← pop
  if (← truth condition) == wanted then jump (.ofOperand operand)

def lengthOf (d : Datum) : Act Nat :=
  match Listing.ofDatum? d with
  | some listing => return listing.size
  | none => fault (.noLength d.kindName)

/-- Calls a routine: its parameters are the first of its local slots. -/
def enter (routine : Routine) (arguments : List Value) : Act Unit := do
  let wanted ← lengthOf routine.parameters
  if arguments.length ≠ wanted then
    fail (.routineArguments routine.name wanted arguments.length)
  let size ← lengthOf routine.slots
  if size < arguments.length then fault .assignmentOutOfRange
  let locals := (arguments ++ List.replicate (size - arguments.length) Value.none).toArray
  modify fun s => { s with frames := { routine, returnTo := s.pc, locals } :: s.frames }

def call (operand : Datum) : Act Unit := do
  let arguments ← popMany (← operandCount operand)
  let callee ← pop
  let s ← get
  match callee with
  | .str name =>
    match function? s.functions name with
    | some f => push (← f arguments)
    | none =>
      match s.routines.lookup name with
      | some routine => enter routine arguments
      | none => fail (.unknownRoutine name)
  | other => fault (.notCallable other.kind)

def ret : Act Unit := do
  let v ← pop
  modify fun s => match s.frames with
    | frame :: rest => { s with frames := rest, pc := frame.returnTo }
    | [] => s
  push v

/-- Takes pairs of keys and values from the stack, the last pair first. -/
def popPairs : Nat → Table → Act Table
  | 0, t => return t
  | count + 1, t => do
    let v ← pop
    let k ← pop
    popPairs count (t.put (← ofExcept k.asKey) v)

def getItem : Act Unit := binary fun v index =>
  opOr (fun e => if itemFault e then .getItem v.kind e else .value e) (v.item index)

def setItem : Act Unit := do
  let value ← pop
  let index ← pop
  let v ← pop
  opOr (fun e => if itemFault e then .setItem v.kind e else .value e) (v.setItem index value)

def getIter : Act Unit := do
  let v ← pop
  push (← opOr (fun e => if e.kind = .type then .notIterable v.kind else .value e) v.iterate)

/-- Puts the next item of the iterator on top of the stack, or drops the iterator and jumps. -/
def forIter (operand : Datum) : Act Unit := do
  match (← get).stack with
  | [] => fault (.outOfRange "list")
  | it :: rest =>
    match ← op it.next with
    | some v => push v
    | none =>
      modify fun s => { s with stack := rest }
      jump (.ofOperand operand)

/-- Appends the top of the stack to the list below the iterator. -/
def listAppend : Act Unit := do
  let v ← pop
  match (← get).stack with
  | _ :: .list ref :: _ => op (Value.append ref v)
  | _ :: other :: _ => fail (.appendTo other.kind)
  | _ => fail .appendUnderflow

def len : Act Unit := do
  let v ← pop
  let n ← opOr (fun e => if e.kind = .type then .noLength v.kind e else .value e)
    (Op.ask (Value.length · v))
  push (.int n)

def importModule : Act Unit := do
  if (← get).stack.isEmpty then fail .importUnderflow
  let name ← pop
  match Library.find name with
  | .ok found => push found
  | .error e =>
    if e.kind = .missingLibrary then
      fail (.importing (← ask (Value.text · name)) e)
    else fault e

def reversed (v : Value) : Act (List Value) :=
  match v with
  | .list _ | .tuple _ | .str _ | .dict _ => do return (← op v.items).reverse
  | other => fault (.notReversible other.kind)

def pushMembers (libraries : Libraries) (library : Value) (libraryName : String) :
    List Value → Act Unit
  | [] => return ()
  | item :: rest => do
    if ← op (libraries.has library item) then push (← op (libraries.member library item))
    else fail (.importingFrom libraryName (.noMember libraryName (← ask (Value.text · item))))
    pushMembers libraries library libraryName rest

def importFrom (libraries : Libraries := .standard) : Act Unit := do
  match (← get).stack with
  | _ :: _ :: _ =>
    let items ← pop
    let name ← pop
    match libraries.find name with
    | .ok found => pushMembers libraries found (← ask (Value.text · name)) (← reversed items)
    | .error e =>
      if e.kind = .missingLibrary || e.kind = .attribute then
        fail (.importingFrom (← ask (Value.text · name)) e)
      else fault e
  | _ => fail .importFromUnderflow

def labelOf (o : Opcode) : String :=
  ((Opcode.wideSet.find? fun row => row.2.1 == o).map (·.2.2)).getD ""

def perform (instruction : Instruction) : Act Unit := do
  let operand := instruction.operand
  match instruction.op with
  | .loadConst | .loadFunc => push (← constant operand)
  | .loadVar =>
    match (← get).frames with
    | frame :: _ => loadLocal frame operand
    | [] => loadGlobal operand
  | .storeVar =>
    let v ← pop
    match (← get).frames with
    | frame :: _ => storeLocal frame operand v
    | [] => storeGlobal operand v
  | .loadGlobal => loadGlobal operand
  | .storeGlobal => storeGlobal operand (← pop)
  | .loadLocal =>
    match (← get).frames with
    | frame :: _ => loadLocal frame operand
    | [] => fail (.outsideCall "LOAD_LOCAL")
  | .storeLocal =>
    match (← get).frames with
    | frame :: _ => storeLocal frame operand (← pop)
    | [] => fail (.outsideCall "STORE_LOCAL")
  | .add => binary (arith .add)
  | .sub => binary (arith .sub)
  | .mul => binary (arith .mul)
  | .div => binary (arith .div)
  | .mod => binary (arith .mod)
  | .pow => binary (arith .pow)
  | .eq => binary fun a b => do return .bool (← same a b)
  | .ne => binary fun a b => do return .bool !(← same a b)
  | .lt => binary (order .lt)
  | .gt => binary (order .gt)
  | .le => binary (order .le)
  | .ge => binary (order .ge)
  | .isIn => binary member
  | .both => binary fun a b => do return if ← truth a then b else a
  | .either => binary fun a b => do return if ← truth a then a else b
  | .negate => push (.bool !(← truth (← pop)))
  | .jump => jump (.ofOperand operand)
  | .jumpIfFalse => jumpIf false operand
  | .jumpIfTrue => jumpIf true operand
  | .call => call operand
  | .ret => ret
  | .pop => let _ ← pop
  | .dup =>
    match (← get).stack with
    | v :: _ => push v
    | [] => fault (.outOfRange "list")
  | .halt => throw .halted
  | .tryBegin => tryBegin
  | .tryEnd => tryEnd
  | .catchBegin => catchBegin operand
  | .catchEnd => catchEnd
  | .finallyBegin => finallyBegin
  | .finallyEnd => finallyEnd
  | .throwTop => throwTop
  | .reraise => reraise
  | .buildList =>
    let items ← popMany (← operandCount operand)
    push (← op (Op.newList items.toArray))
  | .buildDict =>
    let entries ← popPairs (← operandCount operand) #[]
    push (← op (Op.newDict entries))
  | .buildTuple => push (.tuple (← popMany (← operandCount operand)))
  | .formatValue =>
    let v ← pop
    push (.str (← ask (Value.text · v)))
  | .getItem => getItem
  | .setItem => setItem
  | .getIter => getIter
  | .forIter => forIter operand
  | .listAppend => listAppend
  | .len => len
  | .rotTwo =>
    match (← get).stack with
    | a :: b :: rest => modify fun s => { s with stack := b :: a :: rest }
    | _ => fail .swapUnderflow
  | .rotThree =>
    match (← get).stack with
    | c :: b :: a :: rest => modify fun s => { s with stack := b :: a :: c :: rest }
    | _ => fail .rotateUnderflow
  | .importModule => importModule
  | .importFrom => importFrom
  | .typeConvert | .setAttr | .getAttr | .hasAttr | .createClass | .createObject | .callMethod
  | .print | .typeCheck => fail (.unknownOpcode (labelOf instruction.op))

/-- Fetches the next instruction and moves the counter on; none past the end. -/
def fetch : Act (Option Instruction) := do
  let code ← code
  let c ← counter
  if ← ofExcept (c.compare .ge code.size) then return none
  let instruction ← ofExcept (c.pick code)
  jump c.next
  return some instruction

def step : Act Unit := do
  match ← fetch with
  | some instruction => perform instruction
  | none => return ()

end Act

end StackScript.Wide
