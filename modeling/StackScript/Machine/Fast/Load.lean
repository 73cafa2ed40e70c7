import StackScript.Machine.Fast.Step

/-!
# Loading the fast machine

After a file has been read, the first rows of its main program are gone through once: as long as
they only load constants and store variables, they are performed. Then the stack is emptied.
-/

namespace StackScript.Fast

def routineOf (name : String) (d : Datum) : Except Fault RoutineCell := do
  let parameters ← d.part "parameters"
  let code ← d.part "instructions"
  let slots ← d.part "local_vars"
  let returnType := (d.field? "return_type").getD .null
  match Listing.ofDatum? code with
  | some code => return { name, parameters, code, slots, returnType }
  | none => throw (.noLength code.kindName)

def putRoutine (routines : List (String × Nat)) (name : String) (ref : Nat) :
    List (String × Nat) :=
  match routines with
  | [] => [(name, ref)]
  | entry :: rest =>
    if entry.1 == name then (name, ref) :: rest else entry :: putRoutine rest name ref

def keyName : Datum → String
  | .str name => name
  | _ => ""

def State.withRoutines (s : State) : List (Datum × Datum) → Except Fault State
  | [] => .ok s
  | (key, d) :: rest => do
    let name := keyName key
    let cell ← routineOf name d
    let ref := s.store.routines.size
    State.withRoutines { s with
      store := { s.store with routines := s.store.routines.push cell }
      routines := putRoutine s.routines name ref } rest

def State.withConstants (s : State) (d : Datum) : State :=
  match (Value.ofDatum d).run s.store with
  | .ok constants store => { s with constants, store }
  | .error _ store => { s with store }

namespace Act

def listStart (operand : Datum) : Act Unit := do
  if (← get).debug then
    let v ← ofExcept (Value.arrayItem (← get).globals (← operandValue operand))
    let index := operand.text
    let shown ← textOf v
    print s!"  Initialized global[{index}] = {shown}"

/-- Goes through the rows that give variables their first values, no more of them than the
fuel. -/
def prepare : Nat → Act Unit
  | 0 => return ()
  | fuel + 1 => do
    let s ← get
    if ← ofExcept (s.pc.compare .lt s.main.size) then
      let (code, operand) ← ofExcept (rowAt s.main s.pc)
      modify fun s => { s with pc := s.pc.next }
      match Opcode.ofDatum? Opcode.fastSet code with
      | some .loadConst | some .loadFunc =>
        push (← constant operand)
        prepare fuel
      | some .storeVar =>
        storeVar operand
        listStart operand
        prepare fuel
      | some .typeCheck => prepare fuel
      | _ => return ()

def listEmpty : Act Unit := do
  let s ← get
  if s.debug then
    let lines := s.globals.toList.zipIdx.filterMap fun (v, i) =>
      match v with
      | .none => some s!"  Set global[{i}] = None (default)\n"
      | _ => none
    set { s with output := s.output ++ String.join lines }

def start : Act Unit := do
  if (← get).debug then print "Initializing global variables..."
  modify fun s => { s with pc := .at 0 }
  prepare (← get).main.size
  modify fun s => { s with pc := .at 0, stack := [] }
  listEmpty

end Act

/-- Why a file cannot be loaded. A failure at the start comes with what was shown before it. -/
inductive LoadFailure where
  | reading (e : LoadError)
  | starting (e : Failure) (output : String)

def LoadFailure.message : LoadFailure → String
  | reading e => e.message
  | starting e _ => e.message

def State.read (s : State) (bytes : List UInt8) : Except LoadError State := do
  let rest ← (CodeFile.readHeader bytes).mapError .file
  let (constants, rest) ← nextSection rest
  let (slots, rest) ← nextSection rest
  let size ← (slots.length).mapError .fault
  let (table, rest) ← nextSection rest
  let s ← (do (s.withConstants constants).withRoutines (← table.entries)).mapError .fault
  let (code, _) ← nextSection rest
  match Listing.ofDatum? code with
  | none => throw (.fault (.noLength code.kindName))
  | some main =>
    return { s with globalSlots := slots, globals := Array.replicate size .none, main }

def State.load (s : State) (bytes : List UInt8) : Except LoadFailure State := do
  let s ← (s.read bytes).mapError .reading
  match Act.start s with
  | .ok _ s => return s
  | .error (.failed e) s => throw (.starting e s.output)
  | .error .halted s => return s

end StackScript.Fast
