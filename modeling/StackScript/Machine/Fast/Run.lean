import StackScript.Machine.Fast.Step

/-!
# Runs of the fast machine

A run performs rows until the main program is at its end or a limit is reached. The return from a
call that is at its end is not counted. A failure ends the run; it is reported on the output with
the calls in progress, the stack and the globals.
-/

namespace StackScript.Fast

/-- The lines that tell the calls in progress, the innermost first. -/
def callLines (s : State) : String :=
  String.join (s.frames.zipIdx.map fun (frame, i) =>
    let name := (s.store.routines.getD frame.routine default).name
    s!"  {i}: {name} at instruction {frame.pc.text}\n")

def State.reportText (s : State) (cause : Failure) : Except Fault String := do
  let head := s!"Runtime error: {cause.message}\n\nCall stack:\n"
  if s.frames.isEmpty then return head ++ "  (empty)\n"
  let stack ← Value.quotedList s.store s.stack.reverse
  let globals ← Value.quotedList s.store s.globals.toList
  return head ++ callLines s ++ s!"\nStack contents: {stack}\nGlobal variables: {globals}\n"

/-- How a run went: its end, the steps of the limit that are left, and the state. -/
structure Outcome where
  finish : Finish
  left : Nat
  state : State

def Outcome.ofFailure (left : Nat) (s : State) (cause : Failure) : Outcome :=
  match s.reportText cause with
  | .ok report => ⟨.done, left, { s with output := s.output ++ report }⟩
  | .error e => ⟨.broken e, left, s⟩

def Outcome.ofStop (left : Nat) (s : State) : Stop → Outcome
  | .halted => ⟨.done, left, s⟩
  | .failed cause => .ofFailure left s cause

/-- Performs rows until the end of the main program, or until the limit is used up. -/
def loop (fuel : Nat) (s : State) : Outcome :=
  match Act.next? s with
  | .error stop s => .ofStop fuel s stop
  | .ok none s => ⟨.done, fuel, s⟩
  | .ok (some (code, operand)) s =>
    match fuel with
    | 0 => ⟨.limit, 0, s⟩
    | fuel + 1 =>
      match Act.performRow code operand s with
      | .ok _ s => loop fuel s
      | .error stop s => .ofStop fuel s stop

def run (limit : Nat) (s : State) : Outcome := loop limit { s with pc := .at 0 }

def Outcome.steps (o : Outcome) (limit : Nat) : Nat := limit - o.left

/-- What is seen before a step: the routine, the index of the instruction, and the stack. -/
structure Sight where
  routine : Option String
  index : Int
  stack : List Value
  store : Store

/-- What is seen of a state whose next row has been fetched. -/
def State.sight (s : State) : Sight :=
  match s.frames with
  | frame :: _ =>
    let name := (s.store.routines.getD frame.routine default).name
    ⟨some name, frame.pc.indexD - 1, s.stack, s.store⟩
  | [] => ⟨none, s.pc.indexD - 1, s.stack, s.store⟩

def loopSights : Nat → State → List Sight
  | 0, _ => []
  | count + 1, s =>
    match Act.next? s with
    | .ok (some (code, operand)) s =>
      s.sight :: match Act.performRow code operand s with
        | .ok _ s => loopSights count s
        | .error _ _ => []
    | _ => []

def sights (count : Nat) (s : State) : List Sight := loopSights count { s with pc := .at 0 }

end StackScript.Fast
