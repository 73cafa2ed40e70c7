import StackScript.Machine.Fast.Function
import StackScript.Machine.Finish
import StackScript.Machine.Load
import StackScript.Value.Template

/-!
# One step of the fast machine

`next?` finds the next row of code, after it has returned from calls that are at their end.
`perform` does what an instruction says. Every instruction looks at the height of the stack before
it takes anything from it.
-/

namespace StackScript.Fast.Act

/-! ## Variables -/

def grown (values : Array Value) (index : Value) : Except Fault (Array Value) :=
  let upTo (last : Int) : Except Fault (Array Value) :=
    if last < values.size then .ok values
    else if (Value.memoryLimit : Int) < last then .error .noMemory
    else .ok (values ++ Array.replicate ((last + 1).toNat - values.size) Value.none)
  match index.num? with
  | some (.int i) => upTo i
  | some (.float x) =>
    match Number.Binary.ofFloat? x with
    | some b => upTo b.floor
    | none => if x.isInf && 0 < x then .error .noMemory else .ok values
  | _ => .error (.unordered OrderOp.le.sign "int" index.kind)

def loadSlot (values : Array Value) (operand : Datum) : Act Unit := do
  push (← ofExcept (Value.arrayItem values (← operandValue operand)))

def loadWithin (target : String) (values : Array Value) (operand : Datum) : Act Unit := do
  let index ← operandValue operand
  if ← compare .ge index (.int values.size) then
    fail (.slotRange target (← textOf index))
  push (← ofExcept (Value.arrayItem values index))

def loadGlobal (operand : Datum) : Act Unit := do
  loadWithin "Global" (← get).globals operand

def loadLocal (operand : Datum) : Act Unit := do
  match (← get).frames with
  | frame :: _ => loadWithin "Local" frame.locals operand
  | [] => fail (.outsideCall "load")

/-- Reads a slot of the innermost call or of the main program. -/
def loadVar (operand : Datum) : Act Unit := do
  let s ← get
  match s.frames with
  | frame :: _ => loadSlot frame.locals operand
  | [] => loadSlot s.globals operand

def setLocals (locals : Array Value) : Act Unit := modify fun s =>
  match s.frames with
  | frame :: rest => { s with frames := { frame with locals } :: rest }
  | [] => s

def storeGlobal (operand : Datum) : Act Unit := do
  if (← get).stack.isEmpty then fail (.emptyStore "global variable")
  let v ← pop
  let index ← operandValue operand
  let globals ← ofExcept (grown (← get).globals index)
  modify fun s => { s with globals }
  let globals ← ofExcept (Value.arrayPut globals index v)
  modify fun s => { s with globals }

def storeLocal (operand : Datum) : Act Unit := do
  match (← get).frames with
  | [] => fail (.outsideCall "store")
  | frame :: _ =>
    if (← get).stack.isEmpty then fail (.emptyStore "local variable")
    let v ← pop
    let index ← operandValue operand
    let locals ← ofExcept (grown frame.locals index)
    setLocals locals
    setLocals (← ofExcept (Value.arrayPut locals index v))

/-- Writes a slot of the innermost call or of the main program. -/
def storeVar (operand : Datum) : Act Unit := do
  if (← get).stack.isEmpty then fail (.emptyStore "variable")
  let v ← pop
  let index ← operandValue operand
  let s ← get
  match s.frames with
  | frame :: _ => setLocals (← ofExcept (Value.arrayPut frame.locals index v))
  | [] =>
    let globals ← ofExcept (Value.arrayPut s.globals index v)
    modify fun s => { s with globals }

/-! ## Operators -/

/-- Replaces the two values on top of the stack by a result. -/
def binary (label : String) (f : Value → Value → Act Value) : Act Unit := do
  demand label 2
  let b ← pop
  let a ← pop
  push (← f a b)

def arithReport (o : ArithOp) (a b : Value) : String :=
  match o with
  | .add => s!"Cannot add {a.kind} and {b.kind}"
  | .sub => s!"Cannot subtract {b.kind} from {a.kind}"
  | .mul => s!"Cannot multiply {a.kind} and {b.kind}"
  | .div => s!"Cannot divide {a.kind} by {b.kind}"
  | .mod => s!"Cannot compute {a.kind} % {b.kind}"
  | .pow => s!"Cannot compute {a.kind} ** {b.kind}"

def arith (o : ArithOp) (a b : Value) : Act Value := do
  if o = .div && Value.same (← get).store b (.int 0) then fault .divisionByZero
  opOr (reported [.type] (arithReport o a b)) (Value.arith o a b)

def order (o : OrderOp) (a b : Value) : Act Value := do
  return .bool (← opOr (reported [.type] s!"Cannot compare {a.kind} {o.sign} {b.kind}")
    (Op.ask (Value.order · o a b)))

def same (a b : Value) : Act Bool := do
  return Value.same (← get).store a b

def truth (v : Value) : Act Bool := do
  return v.truth (← get).store

def member (a b : Value) : Act Value := do
  return .bool (← opOr (reported [.type] s!"Cannot check if {a.kind} is in {b.kind}")
    (Value.contains b a))

/-- Jumps if the top of the stack counts as the given truth value. -/
def jumpIf (label : String) (wanted : Bool) (operand : Datum) : Act Unit := do
  demand label 1
  let condition ← pop
  if (← truth condition) == wanted then jump (.ofOperand operand)

/-! ## Calls -/

def lengthOf (d : Datum) : Act Nat := ofExcept d.length

/-- Calls a routine: its parameters are the first of its local slots. -/
def enter (routine : Value) (arguments : List Value) : Act Unit := do
  match routine with
  | .routine ref =>
    let cell ← routineAt ref
    let wanted ← lengthOf cell.parameters
    if arguments.length ≠ wanted then
      fail (.routineArguments cell.name wanted arguments.length)
    let size := wanted + (← lengthOf cell.slots)
    let locals := (arguments ++ List.replicate (size - arguments.length) Value.none).toArray
    modify fun s => { s with frames := { routine := ref, returnTo := s.pc, locals } :: s.frames }
  | other => fault (Value.missingAttribute other "parameters")

/-- Makes an object and calls its constructor, under which the object stays on the stack. -/
def construct (classOf : Nat) (name : Option String) (arguments : List Value) : Act Unit := do
  let made ← op (Value.newObject classOf)
  let constructor ← op (Value.findMethod (.classRef classOf) (.str "__init__"))
  match constructor with
  | .none =>
    if !arguments.isEmpty then fail (.noConstructor name)
    push made
  | constructor =>
    push made
    enter constructor (made :: arguments)

def callValue (callee : Value) (arguments : List Value) : Act Unit := do
  let s ← get
  match callee with
  | .str name =>
    match s.classes.get? callee with
    | some (.classRef ref) => construct ref (some name) arguments
    | _ =>
      match function? name with
      | some f => push (← callFunction name f arguments)
      | none =>
        match s.routines.lookup name with
        | some ref => enter (.routine ref) arguments
        | none => fail (.unknownRoutine name)
  | .classRef ref => construct ref none arguments
  | other => fail (.notCallable other.kind)

/-- An operand that counts something; a number below zero counts as none. -/
def countOf (operand : Value) : Act Nat := do
  return (← ofExcept operand.whole).toNat

def call (operand : Datum) : Act Unit := do
  let count ← operandValue operand
  let needed ← op (Value.add count (.int 1))
  if ← compare .lt (.int (← get).stack.length) needed then
    fail (.needsShown "CALL" (← textOf needed))
  let arguments ← popMany (← countOf count)
  let callee ← pop
  modify fun s =>
    if s.counting then { s with stats := { s.stats with calls := s.stats.calls + 1 } } else s
  callValue callee arguments

def isConstructor (name : String) : Bool := ".__init__".toList.isSuffixOf name.toList

/-- Returns the top of the stack from a call. A constructor that returns nothing leaves the object
on the stack. -/
def ret : Act Unit := do
  demand "RETURN" 1
  let v ← pop
  match (← get).frames with
  | [] => push v
  | frame :: rest =>
    modify fun s => { s with frames := rest, pc := frame.returnTo }
    let name := (← routineAt frame.routine).name
    match v, (← get).stack with
    | .none, .object _ :: _ => if !isConstructor name then push v
    | _, _ => push v

/-- Calls a method of an object. The low sixteen bits of the operand are the index of its name, the
others count the arguments. -/
def callMethod (operand : Datum) : Act Unit := do
  match operand.integral? with
  | none => fault (.unsupported "&" operand.kindName "int")
  | some i =>
    let name ← constantAt (.int (i % 0x10000))
    let count := i / 0x10000
    if ((← get).stack.length : Int) < count + 1 then
      fail (.needsShown "CALL_METHOD" (Number.intDigits (count + 1)))
    let arguments ← popMany count.toNat
    let target ← pop
    match target with
    | .object ref =>
      match ← op (Value.findMethod target name) with
      | .none =>
        let s ← get
        let cell := s.store.objects.getD ref default
        let owner := (s.store.classes.getD cell.classOf default).name
        let shown ← textOf name
        fail (.noMethod shown (← textOf owner))
      | method => enter method (target :: arguments)
    | _ => fail .methodObject

/-! ## Classes and attributes -/

/-- The routines that a table names for the methods of a class. -/
def methodsOf (routines : List (String × Nat)) : Table → List (Value × Value) → Act Table
  | methods, [] => return methods
  | methods, (name, routineName) :: rest => do
    let key ← ofExcept routineName.asKey
    let found := match key with
      | .str text => routines.lookup text
      | _ => none
    match found with
    | some ref => methodsOf routines (methods.put name (.routine ref)) rest
    | none => fail (.methodRoutine (← textOf routineName))

def createClass (operand : Datum) : Act Unit := do
  let name ← constant operand
  if (← get).stack.isEmpty then fail .classUnderflow
  match ← pop with
  | .dict ref =>
    let s ← get
    let methods ← op (Op.newDict (← methodsOf s.routines #[] (s.store.dict ref).toList))
    let made ← op (Value.newClass name methods .none .none)
    let key ← ofExcept name.asKey
    modify fun s => { s with classes := s.classes.put key made }
    push made
  | _ => fail .classTable

def createObject : Act Unit := do
  if (← get).stack.isEmpty then fail .objectUnderflow
  match ← pop with
  | .classRef ref => push (← op (Value.newObject ref))
  | _ => fail .objectClass

def getAttr (operand : Datum) : Act Unit := do
  demand "GET_ATTR" 1
  let v ← pop
  let name ← constant operand
  let shown ← match (Value.text (← get).store name) with
    | .ok shown => pure shown
    | .error _ => pure ""
  let rename (e : Fault) : Failure :=
    if e.kind = .attribute then .notAttribute v.kind shown e else .value e
  match v with
  | .object ref => push (← opOr rename (Value.getMember ref name))
  | v => push (← opOr rename (v.getAttribute name))

def setAttr : Act Unit := do
  demand "SET_ATTR" 3
  let name ← pop
  let value ← pop
  let v ← pop
  let shown ← match (Value.text (← get).store name) with
    | .ok shown => pure shown
    | .error _ => pure ""
  match v with
  | .object ref => op (Value.setMember ref name value)
  | v =>
    opOr (reported [.attribute] s!"Cannot set attribute '{shown}' on {v.kind}")
      (v.setAttribute name value)

/-! ## Items, containers and iterators -/

def getItem : Act Unit := binary "GET_ITEM" fun v index =>
  opOr (reported [.index, .key, .type] s!"Cannot get item from {v.kind}") (v.item index)

def setItem : Act Unit := do
  demand "SET_ITEM" 3
  let value ← pop
  let index ← pop
  let v ← pop
  opOr (reported [.index, .key, .type] s!"Cannot set item in {v.kind}") (v.setItem index value)

def len : Act Unit := do
  demand "LEN" 1
  let v ← pop
  push (.int (← opOr (reported [.type] s!"Object of type {v.kind} has no len()")
    (Op.ask (Value.length · v))))

/-- Takes as many values as an operand says, after a look at the height of the stack. -/
def takeCounted (label : String) (operand : Datum) : Act (List Value) := do
  let count ← operandValue operand
  if ← compare .lt (.int (← get).stack.length) count then
    fail (.needsShown label (← textOf count))
  popMany (← countOf count)

/-- Takes pairs of keys and values from the stack, the last pair first. -/
def popPairs : Nat → Table → Act Table
  | 0, t => return t
  | count + 1, t => do
    let v ← pop
    let k ← pop
    popPairs count (t.put (← ofExcept k.asKey) v)

def buildDict (operand : Datum) : Act Unit := do
  let count ← operandValue operand
  let needed ← op (Value.mul count (.int 2))
  if ← compare .lt (.int (← get).stack.length) needed then
    fail (.needsShown "BUILD_DICT" (← textOf needed))
  let entries ← popPairs (← countOf count) #[]
  push (← op (Op.newDict entries))

/-- Makes the state of an iteration: the container, the next index and the length. -/
def getIter : Act Unit := do
  demand "GET_ITER" 1
  let v ← pop
  if ← op (v.hasAttribute (.str "__iter__")) then
    let size ← ask (Value.length · v)
    push (← op (Op.newList #[v, .int 0, .int size]))
  else fail (.notIterable v.kind)

/-- Puts the next item of an iteration on the stack, or drops its state and jumps. -/
def forIter (operand : Datum) : Act Unit := do
  let s ← get
  match s.stack with
  | [] => fail .iteratorUnderflow
  | .list ref :: rest =>
    match (s.store.list ref).toList with
    | [container, index, size] =>
      if ← compare .ge index size then
        modify fun s => { s with stack := rest }
        jump (.ofOperand operand)
      else
        push (← op (container.item index))
        let next ← op (Value.add index (.int 1))
        op (Value.setItem (.list ref) (.int 1) next)
    | _ => fail .iteratorState
  | _ => fail .iteratorState

/-- Appends the top of the stack to the list below the iteration. -/
def listAppend : Act Unit := do
  demand "LIST_APPEND" 1
  let v ← pop
  match (← get).stack with
  | _ :: .list ref :: _ => op (Value.append ref v)
  | _ :: other :: _ => fail (.appendTo other.kind)
  | _ => fail .appendUnderflow

/-! ## Libraries and types -/

def importModule : Act Unit := do
  demand "IMPORT_MODULE" 1
  let name ← pop
  match Library.find name with
  | .ok found => push found
  | .error e =>
    if e.kind = .missingLibrary then fail (.importing (← textOf name) e) else fault e

def membersOf (libraries : Libraries) (library : Value) (libraryName : String) :
    Table → List Value → Act Table
  | t, [] => return t
  | t, item :: rest => do
    if ← op (libraries.has library item) then
      membersOf libraries library libraryName (t.put item (← op (libraries.member library item))) rest
    else fail (.importingFrom libraryName (.noMember libraryName (← textOf item)))

def importFrom (libraries : Libraries := .standard) : Act Unit := do
  demand "IMPORT_FROM" 2
  let items ← pop
  let name ← pop
  match libraries.find name with
  | .ok found =>
    let entries ← membersOf libraries found (← textOf name) #[] (← op items.items)
    push (← op (Op.newDict entries))
  | .error e =>
    if e.kind = .missingLibrary || e.kind = .attribute then
      fail (.importingFrom (← textOf name) e)
    else fault e

def isOfType (v : Value) (name : String) : Bool :=
  match TypeName.ofName? name with
  | some type => type.holds v
  | none => v.kind == name

def typeCheck (operand : Datum) : Act Unit := do
  match operand with
  | .null => return ()
  | operand =>
    demand "TYPE_CHECK" 1
    match (← get).stack with
    | [] => return ()
    | v :: _ =>
      let expected ← ofExcept (← constant operand).asKey
      let suits := match expected with
        | .str name => isOfType v name
        | _ => false
      if !suits then fail (.wrongType (← textOf expected) v.kind)

/-! ## Steps -/

def perform (o : Opcode) (operand : Datum) : Act Unit := do
  match o with
  | .loadConst | .loadFunc => push (← constant operand)
  | .loadVar => loadVar operand
  | .storeVar => storeVar operand
  | .loadGlobal => loadGlobal operand
  | .storeGlobal => storeGlobal operand
  | .loadLocal => loadLocal operand
  | .storeLocal => storeLocal operand
  | .add => binary "ADD" (arith .add)
  | .sub => binary "SUB" (arith .sub)
  | .mul => binary "MUL" (arith .mul)
  | .div => binary "DIV" (arith .div)
  | .mod => binary "MOD" (arith .mod)
  | .pow => binary "POW" (arith .pow)
  | .eq => binary "EQ" fun a b => do return .bool (← same a b)
  | .ne => binary "NE" fun a b => do return .bool !(← same a b)
  | .lt => binary "LT" (order .lt)
  | .gt => binary "GT" (order .gt)
  | .le => binary "LE" (order .le)
  | .ge => binary "GE" (order .ge)
  | .isIn => binary "IN" member
  | .both => binary "AND" fun a b => do return if ← truth a then b else a
  | .either => binary "OR" fun a b => do return if ← truth a then a else b
  | .negate => do
    demand "NOT" 1
    push (.bool !(← truth (← pop)))
  | .jump => jump (.ofOperand operand)
  | .jumpIfFalse => jumpIf "JUMP_IF_FALSE" false operand
  | .jumpIfTrue => jumpIf "JUMP_IF_TRUE" true operand
  | .call => call operand
  | .ret => ret
  | .pop => do
    demand "POP" 1
    let _ ← pop
  | .dup => do
    demand "DUP" 1
    let v ← pop
    push v
    push v
  | .rotTwo => do
    demand "ROT_TWO" 2
    let a ← pop
    let b ← pop
    push a
    push b
  | .rotThree => do
    demand "ROT_THREE" 3
    let c ← pop
    let b ← pop
    let a ← pop
    push c
    push a
    push b
  | .len => len
  | .getItem => getItem
  | .setItem => setItem
  | .buildList => do
    let items ← takeCounted "BUILD_LIST" operand
    push (← op (Op.newList items.toArray))
  | .buildDict => buildDict operand
  | .buildTuple => push (.tuple (← takeCounted "BUILD_TUPLE" operand))
  | .setAttr => setAttr
  | .getAttr => getAttr operand
  | .formatValue => do
    demand "FORMAT_VALUE" 1
    push (.str (← textOf (← pop)))
  | .importModule => importModule
  | .importFrom => importFrom
  | .typeCheck => typeCheck operand
  | .createClass => createClass operand
  | .createObject => createObject
  | .callMethod => callMethod operand
  | .getIter => getIter
  | .forIter => forIter operand
  | .listAppend => listAppend
  | .halt => throw .halted
  | _ => fail (.unknownOpcode "")

/-- The row of a listing at a counter, as a code and an operand. -/
def rowAt (listing : Listing) (c : Counter) : Except Fault (Datum × Datum) := do
  match listing with
  | .rows rows => (← c.pick rows).pair
  | .text t =>
    match c.index? with
    | none => throw (.textIndexKind c.datum.kindName)
    | some i =>
      if Value.beyondIndex i then throw .indexSize
      else match (Value.place? t.length i).bind (t.toList[·]?) with
        | some letter => (Datum.str letter.toString).pair
        | none => throw (.outOfRange "string")
  | .table _ => throw (.missingKey c.datum.shown)

def settle : Nat → Act Unit
  | 0 => return ()
  | fuel + 1 => do
    match (← get).frames with
    | [] => return ()
    | frame :: _ =>
      if ← ofExcept (frame.pc.compare .ge (← routineAt frame.routine).code.size) then
        push .none
        ret
        settle fuel

/-- Fetches the next row and moves the counter on; none at the end of the main program. -/
def fetch : Act (Option (Datum × Datum)) := do
  settle (← get).frames.length
  let s ← get
  match s.frames with
  | frame :: _ =>
    let row ← ofExcept (rowAt (← routineAt frame.routine).code frame.pc)
    jump frame.pc.next
    return some row
  | [] =>
    if ← ofExcept (s.pc.compare .ge s.main.size) then return none
    let row ← ofExcept (rowAt s.main s.pc)
    jump s.pc.next
    return some row

def countStep : Act Unit := modify fun s =>
  if s.counting then
    { s with stats := { s.stats with
        instructions := s.stats.instructions + 1
        peakStack := max s.stats.peakStack s.stack.length
        peakDepth := max s.stats.peakDepth s.frames.length } }
  else s

def padLeft (width : Nat) (s : String) : String :=
  String.ofList (List.replicate (width - s.length) ' ') ++ s

def padRight (width : Nat) (s : String) : String :=
  s ++ String.ofList (List.replicate (width - s.length) ' ')

def labelOf (code : Datum) : String :=
  match Opcode.fastSet.find? fun row => code.same (.int row.1) with
  | some row => row.2.2
  | none => s!"UNKNOWN({code.text})"

def list (code operand : Datum) : Act Unit := do
  let s ← get
  let top ← ask (Value.quotedList · (s.stack.take 3).reverse)
  let (place, c) ← match s.frames with
    | frame :: _ => do pure ((← routineAt frame.routine).name, frame.pc)
    | [] => pure ("main", s.pc)
  let index := padLeft 3 (Number.intDigits (c.indexD - 1))
  let label := padRight 12 (labelOf code)
  let shown := padLeft 3 operand.text
  print s!"[{place}:{index}] {label} {shown} | Stack: {top}"

/-- Finds the next row, counts it and lists it if the machine lists its steps. -/
def next? : Act (Option (Datum × Datum)) := do
  match ← fetch with
  | none => return none
  | some (code, operand) =>
    countStep
    if (← get).debug then list code operand
    return some (code, operand)

def performRow (code operand : Datum) : Act Unit := do
  match Opcode.ofDatum? Opcode.fastSet code with
  | some o => perform o operand
  | none =>
    match code with
    | .list _ | .dict _ => fault (.unhashable code.kindName)
    | code => fail (.unknownOpcode code.text)

end StackScript.Fast.Act
