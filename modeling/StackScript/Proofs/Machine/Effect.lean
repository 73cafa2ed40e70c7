import StackScript.Proofs.Machine.Deal
import StackScript.Proofs.Machine.Lockstep

/-!
# Steps

A step fetches an instruction and performs it. What the instruction does to the machine is said once
for all instructions; what steps keep follows from it.
-/

namespace StackScript.Wide

namespace Act

/-! ## Fetching -/

variable {i : Instruction} {w₁ w : State}

theorem eq_fetched (h : fetch w = .ok (some i) w₁) : w₁ = w.fetched := (fetch_some h).2.2

/-- The counter moves on when an instruction is fetched, and nothing else changes. -/
theorem outline_fetch (h : fetch w = .ok (some i) w₁) :
    w₁.outline = w.outline.jump w.outline.counter.next ∧ w₁.stack = w.stack := by
  rw [eq_fetched h]
  exact ⟨w.outline_jump _, w.stack_jump _⟩

theorem program_of_fetch (h : fetch w = .ok (some i) w₁) :
    w₁.functions = w.functions ∧ w₁.routines = w.routines ∧ w₁.frames.length = w.frames.length := by
  rw [eq_fetched h]
  have hprogram := w.program_jump w.outline.counter.next
  exact ⟨congrArg (·.1) hprogram, congrArg (·.2.1) hprogram, w.length_jump _⟩

theorem pick_of_fetch (h : fetch w = .ok (some i) w₁) :
    w.outline.counter.pick w.outline.code = .ok i := (fetch_some h).2.1

theorem fetch_other {found : Option Instruction} (h : fetch w = .ok found w₁)
    (stack : List Value) : fetch { w with stack } = .ok found { w₁ with stack } := by
  have hstack : w.stack = [] ++ w.stack := rfl
  obtain ⟨k, segment, ⟨rfl, -⟩, -, hlength, hother⟩ := deals_fetch.slides hstack (Nat.zero_le _) h
  cases List.length_eq_zero_iff.1 hlength
  exact hother stack

end Act

/-! ## Steps -/

/-- The instruction that the machine performs next. -/
def State.next? (w : State) : Option Instruction :=
  match Act.fetch w with
  | .ok found _ => found
  | .error _ _ => none

variable {i : Instruction} {w w' : State}

theorem State.fetch_of_next? (h : w.next? = some i) : ∃ w₁, Act.fetch w = .ok (some i) w₁ := by
  unfold State.next? at h
  split at h
  · rename_i found w₁ hfetch
    exact ⟨w₁, h ▸ hfetch⟩
  · cases h

theorem State.next?_of_fetch {w₁ : State}
    (h : Act.fetch w = .ok (some i) w₁) : w.next? = some i := by
  rw [State.next?, h]

namespace Act

variable {i : Instruction}

/-- Whatever an instruction does to the rest of a state is one of its effects. -/
theorem effect_perform (h : perform i w = .ok () w') : Effect i w.rest w'.rest := by
  obtain ⟨-, -, -, -, heffect, -⟩ := (deals_perform i w (Custody.guards_free w)).done () w' h
  exact heffect

/-- A step fetches an instruction and performs it, or stays past the end of a call. -/
theorem step_eq_ok (h : step w = .ok () w') :
    w' = w ∨ ∃ i w₁, fetch w = .ok (some i) w₁ ∧ perform i w₁ = .ok () w' := by
  obtain ⟨found, w₁, hfetch, hrun⟩ := bind_eq_ok h
  cases found with
  | some i => exact .inr ⟨i, w₁, hfetch, hrun⟩
  | none =>
    cases hrun
    rw [fetch, bind_of_ok (run_code w), bind_of_ok (run_counter w)] at hfetch
    obtain ⟨past, w₂, hpast, hfetch⟩ := bind_eq_ok hfetch
    obtain ⟨-, rfl⟩ := ofExcept_eq_ok hpast
    cases past with
    | true =>
      cases hfetch
      exact .inl rfl
    | false =>
      obtain ⟨_, _, -, hfetch⟩ := bind_eq_ok hfetch
      obtain ⟨_, _, -, hfetch⟩ := bind_eq_ok hfetch
      cases hfetch

theorem effect_of_next (hnext : w.next? = some i)
    (h : step w = .ok () w') : Effect i w.rest.fetched w'.rest := by
  obtain ⟨w₁, hfetch⟩ := State.fetch_of_next? hnext
  rw [step, bind_of_ok hfetch] at h
  have heffect := effect_perform h
  rwa [eq_fetched hfetch, State.fetched, State.rest_jump] at heffect

/-- A step has an effect of its instruction, unless the call is past its end. -/
theorem effect_step (h : step w = .ok () w') :
    w' = w ∨ ∃ i, w.next? = some i ∧ Effect i w.rest.fetched w'.rest := by
  rcases step_eq_ok h with rfl | ⟨i, w₁, hfetch, -⟩
  · exact .inl rfl
  · have hnext := State.next?_of_fetch hfetch
    exact .inr ⟨i, hnext, effect_of_next hnext h⟩

/-- A step whose instruction finds its operands is the same above any others. -/
theorem step_slides {w w₁ w' : State} (hfetch : fetch w = .ok (some i) w₁)
    (hrun : perform i w₁ = .ok () w') {segment below : List Value}
    (hstack : w.stack = segment ++ below) (hneeds : needs i ≤ segment.length) :
    ∃ k segment', (Effect i w₁.rest w'.rest ∧ Leaves i w₁.rest k w'.rest) ∧
      w'.stack = segment' ++ below ∧ segment'.length = segment.length - needs i + k ∧
      ∀ other, step { w with stack := segment ++ other } =
        .ok () { w' with stack := segment' ++ other } := by
  have hstack₁ := (outline_fetch hfetch).2.trans hstack
  obtain ⟨k, segment', hR, hstack', hlength, hother⟩ := (deals_perform i).slides hstack₁ hneeds hrun
  refine ⟨k, segment', hR, hstack', hlength, fun other => ?_⟩
  rw [step, bind_of_ok (fetch_other hfetch (segment ++ other))]
  exact hother other

end Act

/-! ## Calls and variables -/

/-- What an instruction can do to the calls and the variables. Only a call enters a routine, only a
store writes a variable, and only an exception moves the counter of the main program during a call. -/
inductive Moves (i : Instruction) (w : State) : State → Prop
  | stays (handlers : List Handler) (current : Option Nat) : Moves i w { w with handlers, current }
  | jumps (target : Counter) (handlers : List Handler) (current : Option Nat) :
      Moves i w { w.jump target with handlers, current }
  | main (hraises : i.op ∈ Act.raising) (target : Counter) (handlers : List Handler)
      (current : Option Nat) : Moves i w { w with pc := target, handlers, current }
  | writesGlobal (hstores : i.op ∈ Act.storing) (globals : Array Value) : Moves i w { w with globals }
  | writesLocal (hstores : i.op ∈ Act.storing) {frame : Frame Routine} {rest : List (Frame Routine)}
      (hframes : w.frames = frame :: rest) (locals : Array Value) :
      Moves i w { w with frames := { frame with locals } :: rest }
  | enters (hcalls : i.op = .call) {name : String} {routine : Routine}
      (hroutine : w.routines.lookup name = some routine) (locals : Array Value) :
      Moves i w (w.enter routine locals)
  | leaves : Moves i w w.leave

theorem State.raised_moves {ref : Nat} (hop : i.op ∈ Act.raising)
    (h : w.raised ref = some w') : Moves i w w' := by
  unfold raised at h
  split at h <;> cases h
  rename_i handler rest _
  unfold lead
  split
  · rename_i frame frames _ hframes
    have hjump := @Moves.jumps i w (.at handler.catchAt) (handler :: rest) (some ref)
    rwa [jump, hframes] at hjump
  · exact .main hop _ _ _

theorem Effect.moves (h : Effect i w w') : Moves i w w' := by
  have same : Moves i w w := .stays w.handlers w.current
  have jumping (target : Counter) : Moves i w (w.jump target) := by
    have hjump := @Moves.jumps i w target w.handlers w.current
    rwa [← w.handlers_jump target, ← w.current_jump target] at hjump
  have storing (hop : i.op ∈ Act.storing) (h : (∃ globals, w' = { w with globals }) ∨
      ∃ frame rest locals, w.frames = frame :: rest ∧
        w' = { w with frames := { frame with locals } :: rest }) : Moves i w w' := by
    rcases h with ⟨globals, rfl⟩ | ⟨frame, rest, locals, hframes, rfl⟩
    · exact .writesGlobal hop globals
    · exact .writesLocal hop hframes locals
  unfold Effect at h
  split at h
  case h_1 => exact h ▸ jumping _
  case h_2 | h_3 | h_4 =>
    rcases h with rfl | rfl
    · exact same
    · exact jumping _
  case h_5 hop | h_6 hop | h_7 hop => exact storing (by rw [hop]; decide) h
  case h_8 hop =>
    rcases h with rfl | ⟨name, routine, locals, hroutine, rfl⟩
    · exact same
    · exact .enters hop hroutine locals
  case h_9 => exact h ▸ .leaves
  case h_10 => exact h.elim
  case h_11 => exact h ▸ .stays _ w.current
  case h_12 =>
    rcases h with ⟨-, rfl⟩ | ⟨-, rfl⟩
    · exact jumping _
    · exact same
  case h_13 =>
    rcases h with ⟨-, rfl⟩ | rfl
    · exact same
    · exact jumping _
  case h_14 => exact h ▸ .stays _ none
  case h_15 =>
    subst h
    unfold State.noted
    split
    · exact .stays _ w.current
    · exact same
  case h_16 hop =>
    rcases h with ⟨-, rfl⟩ | ⟨ref, hraised⟩
    · exact same
    · exact State.raised_moves (by rw [hop]; decide) hraised
  case h_17 hop | h_18 hop =>
    obtain ⟨ref, hraised⟩ := h
    exact State.raised_moves (by rw [hop]; decide) hraised
  case h_19 => exact h ▸ same

namespace Moves

variable {i : Instruction} {w w' : State}

theorem program (h : Moves i w w') : w'.program = w.program := by
  cases h with
  | stays | main | writesGlobal | writesLocal | enters => rfl
  | jumps => exact w.program_jump _
  | leaves =>
    unfold State.leave
    split <;> rfl

theorem constants (h : Moves i w w') : w'.constants = w.constants := by
  cases h with
  | stays | main | writesGlobal | writesLocal | enters => rfl
  | jumps => exact w.constants_jump _
  | leaves =>
    unfold State.leave
    split <;> rfl

theorem goes (h : Moves i w w') : Control.Goes (i.op ∈ Act.raising) w.control w'.control := by
  cases h with
  | stays | writesGlobal => exact .stays
  | jumps target =>
    have hjump := @Control.Goes.jumps _ (i.op ∈ Act.raising) w.control target
    rwa [← w.control_jump] at hjump
  | main hraises target => exact .main hraises target
  | writesLocal _ hframes locals => exact .writes hframes locals
  | enters _ _ locals => exact .enters _ locals
  | leaves =>
    rw [State.control_leave]
    exact .leaves

end Moves

theorem Act.program_step (h : Act.step w = .ok () w') : w'.program = w.program := by
  rcases Act.effect_step h with rfl | ⟨i, -, heffect⟩
  · rfl
  · exact heffect.moves.program.trans (w.rest.program_jump _)

end StackScript.Wide
