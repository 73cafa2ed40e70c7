import StackScript.Machine.Finish
import StackScript.Machine.Wide.Step

/-!
# Runs of the wide machine

A run performs steps while the counter of the main program is before its end, but no more than a
limit. A failure ends the run; it is reported on the output with the calls in progress.
-/

namespace StackScript

namespace Wide

/-- The lines that tell the calls in progress, the innermost first. -/
def callLines (frames : List (Frame Routine)) : String :=
  String.join (frames.zipIdx.map fun (frame, i) =>
    s!"  {i}: {frame.routine.name} at instruction {frame.pc.text}\n")

def State.report (s : State) (cause : Failure) : State :=
  { s with output := s.output ++ s!"Runtime error: {cause.message}\nCall stack:\n" ++
      callLines s.frames }

/-- How a run went: its end, the steps of the limit that are left, and the state. -/
structure Outcome where
  finish : Finish
  left : Nat
  state : State

/-- Steps until the main program is at its end or the limit is used up. -/
def loop (fuel : Nat) (s : State) : Outcome :=
  match s.pc.compare .lt s.main.size with
  | .error e => ⟨.done, fuel, s.report (.value e)⟩
  | .ok false => ⟨.done, fuel, s⟩
  | .ok true =>
    match fuel with
    | 0 => ⟨.limit, 0, s⟩
    | fuel + 1 =>
      match Act.step s with
      | .ok _ s => loop fuel s
      | .error .halted s => ⟨.done, fuel, s⟩
      | .error (.failed (.unreadable e)) s => ⟨.broken e, fuel, s⟩
      | .error (.failed cause) s => ⟨.done, fuel, s.report cause⟩

def run (limit : Nat) (s : State) : Outcome := loop limit { s with pc := .at 0 }

def Outcome.steps (o : Outcome) (limit : Nat) : Nat := limit - o.left

/-- More steps after a run, also past the end of the main program. -/
def extraSteps : Nat → State → EStateM.Result Stop State Unit
  | 0, s => .ok () s
  | count + 1, s =>
    match Act.step s with
    | .ok _ s => extraSteps count s
    | .error e s => .error e s

/-- What is seen before a step: the routine, the index of the instruction, and the stack. -/
structure Sight where
  routine : Option String
  index : Datum
  stack : List Value
  store : Store

def State.sight (s : State) : Sight :=
  match s.frames with
  | frame :: _ => ⟨some frame.routine.name, frame.pc.datum, s.stack, s.store⟩
  | [] => ⟨none, s.pc.datum, s.stack, s.store⟩

def loopSights : Nat → State → List Sight
  | 0, _ => []
  | count + 1, s =>
    match s.pc.compare .lt s.main.size with
    | .ok true =>
      s.sight :: match Act.step s with
        | .ok _ s => loopSights count s
        | .error _ _ => []
    | _ => []

def sights (count : Nat) (s : State) : List Sight := loopSights count { s with pc := .at 0 }

def extraSights : Nat → State → List Sight
  | 0, _ => []
  | count + 1, s =>
    s.sight :: match Act.step s with
      | .ok _ s => extraSights count s
      | .error _ _ => []

end Wide

end StackScript
