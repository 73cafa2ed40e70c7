import StackScript.Machine.Wide.Step
import StackScript.Proofs.Machine.Control
import StackScript.Proofs.Machine.Custody

/-!
# What there is in a machine besides values

Most instructions are about the operands, the store and the output alone. The others move counters,
enter routines and leave them, write variables, and set up handlers or follow them.
-/

namespace StackScript.Wide

/-! ## Outlines -/

/-- What there is in a state besides values: its functions and code, the counter of the main program
and the calls, without their local slots. -/
structure Outline where
  functions : Functions
  routines : List (String × Routine)
  main : Array Instruction
  pc : Counter
  frames : List (Frame Routine)

/-- A call without its local slots. -/
def bareFrame (frame : Frame Routine) : Frame Routine := { frame with locals := #[] }

/-- The outline of a state. -/
def State.outline (w : State) : Outline :=
  ⟨w.functions, w.routines, w.main, w.pc, w.frames.map bareFrame⟩

namespace Outline

/-- The counter of the code that runs is moved. -/
def jump (o : Outline) (target : Counter) : Outline :=
  match o.frames with
  | frame :: rest => { o with frames := { frame with pc := target } :: rest }
  | [] => { o with pc := target }

/-- A routine is called. -/
def enter (o : Outline) (routine : Routine) : Outline :=
  { o with frames := ⟨routine, o.pc, .at 0, #[]⟩ :: o.frames }

/-- The innermost call returns. -/
def leave (o : Outline) : Outline :=
  match o.frames with
  | frame :: rest => { o with frames := rest, pc := frame.returnTo }
  | [] => o

/-- The code that runs. -/
def code (o : Outline) : Array Instruction :=
  match o.frames with
  | frame :: _ => frame.routine.code
  | [] => o.main

/-- The counter of the code that runs. -/
def counter (o : Outline) : Counter :=
  match o.frames with
  | frame :: _ => frame.pc
  | [] => o.pc

@[simp] theorem jump_jump (o : Outline) (c d : Counter) : (o.jump c).jump d = o.jump d := by
  unfold jump
  cases hframes : o.frames <;> simp

@[simp] theorem code_jump (o : Outline) (c : Counter) : (o.jump c).code = o.code := by
  unfold jump code
  cases hframes : o.frames <;> simp

@[simp] theorem counter_jump (o : Outline) (c : Counter) : (o.jump c).counter = c := by
  unfold jump counter
  cases hframes : o.frames <;> simp

end Outline

/-! ## States -/

/-- The functions that a machine knows, its routines and its main program. -/
def State.program (w : State) : Functions × List (String × Routine) × Array Instruction :=
  (w.functions, w.routines, w.main)

/-- The values of all variables: the global ones, and those of each call, the innermost first. -/
def State.bindings (w : State) : Array Value × List (Array Value) :=
  (w.globals, w.frames.map (·.locals))

/-- Where a machine is. -/
def State.control (w : State) : Control Routine := ⟨w.pc, w.frames⟩

/-- A state without its operands, its store and its output. -/
def State.rest (w : State) : State :=
  { w with stack := [], store := { lists := #[] }, output := "" }

namespace State

/-- The counter of the code that runs is moved. -/
def jump (w : State) (target : Counter) : State :=
  match w.frames with
  | frame :: rest => { w with frames := { frame with pc := target } :: rest }
  | [] => { w with pc := target }

/-- An instruction is fetched. -/
def fetched (w : State) : State := w.jump w.outline.counter.next

/-- A routine is entered. -/
def enter (w : State) (routine : Routine) (locals : Array Value) : State :=
  { w with frames := { routine, returnTo := w.pc, locals } :: w.frames }

/-- The innermost call returns. -/
def leave (w : State) : State :=
  match w.frames with
  | frame :: rest => { w with frames := rest, pc := frame.returnTo }
  | [] => w

/-- The handler that a try block sets up whose first instruction has just been fetched. -/
def newHandler (w : State) : Handler :=
  let start := w.outline.counter.indexD + 1
  { catchAt := Act.findCatch w.outline.code (w.outline.code.size - start).toNat start
    inCall := !w.frames.isEmpty }

/-- The place of a last block is noted in the latest handler. -/
def noted (w : State) : State :=
  match w.handlers with
  | handler :: rest =>
    { w with handlers := { handler with finallyAt := some w.outline.counter } :: rest }
  | [] => w

/-- The machine goes on behind the end of the catch block that is opened first. -/
def passed (w : State) : State :=
  w.jump (Act.skipCatches w.outline.code (Act.remaining w.outline.code w.outline.counter) 0
    w.outline.counter)

/-- The machine goes on behind the next end of a catch block. -/
def declined (w : State) : State :=
  w.jump (Act.skipCatch w.outline.code (Act.remaining w.outline.code w.outline.counter)
    w.outline.counter)

/-- A handler leads to its catch block, in the innermost call if it was set up during a call, else in
the main program. -/
def lead (w : State) (handler : Handler) : State :=
  match handler.inCall, w.frames with
  | true, frame :: rest => { w with frames := { frame with pc := .at handler.catchAt } :: rest }
  | _, _ => { w with pc := .at handler.catchAt }

/-- An exception is raised; none if there is no handler for it. -/
def raised (w : State) (ref : Nat) : Option State :=
  match Act.usable w.handlers with
  | handler :: rest =>
    some { w.lead handler with handlers := handler :: rest, current := some ref }
  | [] => none

theorem rest_jump (w : State) (target : Counter) : (w.jump target).rest = w.rest.jump target := by
  cases hframes : w.frames <;> simp [jump, rest, hframes]

theorem frames_of_rest {w w' : State} (h : w'.rest = w.rest) : w'.frames = w.frames := by
  have hframes : w'.rest.frames = w.rest.frames := by rw [h]
  exact hframes

theorem routines_of_rest {w w' : State} (h : w'.rest = w.rest) : w'.routines = w.routines := by
  have hroutines : w'.rest.routines = w.rest.routines := by rw [h]
  exact hroutines

theorem outline_of_rest {w v : State} (h : w.rest = v) : w.outline = v.outline := by
  rw [← h]
  rfl

theorem control_of_rest {w w' : State} (h : w'.rest = w.rest) : w'.control = w.control := by
  have hcontrol : w'.rest.control = w.rest.control := by rw [h]
  exact hcontrol

theorem outline_of_control {w v : State} (hprogram : w.program = v.program)
    (h : w.control = v.control) : w.outline = v.outline := by
  simp only [program, control, Prod.mk.injEq, Control.mk.injEq] at hprogram h
  simp only [outline, hprogram, h]

theorem control_jump (w : State) (target : Counter) :
    (w.jump target).control = w.control.jump target := by
  cases hframes : w.frames <;> simp [jump, control, Control.jump, hframes]

theorem control_fetched (w : State) : w.rest.fetched.control = w.fetched.control := by
  rw [fetched, fetched, control_jump, control_jump]
  rfl

theorem control_leave (w : State) : w.leave.control = w.control.leave := by
  cases hframes : w.frames <;> simp [leave, control, Control.leave, hframes]

theorem outline_jump (w : State) (target : Counter) :
    (w.jump target).outline = w.outline.jump target := by
  unfold jump outline Outline.jump
  cases w.frames <;> rfl

theorem code_jump (w : State) (target : Counter) :
    (w.jump target).outline.code = w.outline.code := by
  rw [w.outline_jump, Outline.code_jump]

theorem code_fetched (w : State) : w.fetched.outline.code = w.outline.code := w.code_jump _

theorem outline_leave (w : State) : w.leave.outline = w.outline.leave := by
  cases hframes : w.frames <;> simp [leave, outline, Outline.leave, bareFrame, hframes]

@[simp] theorem handlers_jump (w : State) (target : Counter) :
    (w.jump target).handlers = w.handlers := by
  unfold jump
  split <;> rfl

@[simp] theorem current_jump (w : State) (target : Counter) :
    (w.jump target).current = w.current := by
  unfold jump
  split <;> rfl

@[simp] theorem length_jump (w : State) (target : Counter) :
    (w.jump target).frames.length = w.frames.length := by
  unfold jump
  split
  · rename_i hframes
    rw [hframes, List.length_cons, List.length_cons]
  · rfl

@[simp] theorem constants_jump (w : State) (target : Counter) :
    (w.jump target).constants = w.constants := by
  unfold jump
  split <;> rfl

@[simp] theorem program_jump (w : State) (target : Counter) :
    (w.jump target).program = w.program := by
  unfold jump
  split <;> rfl

end State

/-! ## Effects -/

/-- The instructions that write variables. -/
def Act.storing : List Opcode := [.storeGlobal, .storeVar, .storeLocal]

/-- The instructions that can raise an exception. -/
def Act.raising : List Opcode := [.finallyEnd, .throwTop, .reraise]

/-- What an instruction that has been fetched can do to the rest of a state. -/
def Effect (i : Instruction) (w w' : State) : Prop :=
  match i.op with
  | .jump => w' = w.jump (.ofOperand i.operand)
  | .jumpIfFalse | .jumpIfTrue | .forIter => w' = w ∨ w' = w.jump (.ofOperand i.operand)
  | .storeGlobal | .storeVar | .storeLocal =>
    (∃ globals, w' = { w with globals }) ∨ ∃ frame rest locals, w.frames = frame :: rest ∧
      w' = { w with frames := { frame with locals } :: rest }
  -- The functions of the machine answer at once, the routines are entered.
  | .call => w' = w ∨ ∃ name routine locals, w.routines.lookup name = some routine ∧
      w' = w.enter routine locals
  | .ret => w' = w.leave
  | .halt => False
  | .tryBegin => w' = { w with handlers := w.newHandler :: w.handlers }
  | .tryEnd => w.current = none ∧ w' = w.passed ∨ w.current ≠ none ∧ w' = w
  | .catchBegin => w.current ≠ none ∧ w' = w ∨ w' = w.declined
  | .catchEnd => w' = { w with handlers := w.handlers.tail, current := none }
  | .finallyBegin => w' = w.noted
  | .finallyEnd => w.current = none ∧ w' = w ∨ ∃ ref, w.raised ref = some w'
  | .throwTop | .reraise => ∃ ref, w.raised ref = some w'
  | _ => w' = w

namespace Act

theorem run_code (w : State) : code w = .ok w.outline.code w := by
  show (match w.frames with
    | frame :: _ => pure frame.routine.code
    | [] => pure w.main : Act _) w = _
  cases hframes : w.frames <;> simp [State.outline, Outline.code, bareFrame, hframes] <;> rfl

theorem run_counter (w : State) : counter w = .ok w.outline.counter w := by
  show (match w.frames with
    | frame :: _ => pure frame.pc
    | [] => pure w.pc : Act _) w = _
  cases hframes : w.frames <;> simp [State.outline, Outline.counter, bareFrame, hframes] <;> rfl

end Act

end StackScript.Wide
