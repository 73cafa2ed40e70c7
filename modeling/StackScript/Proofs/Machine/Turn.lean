import StackScript.Proofs.Machine.Balance

/-!
# Calls that are over

A call of a routine that has come to its return has put the calls and the counters back, whatever
was thrown in it: a handler moves the counter of the innermost call or of the main program, and the
call that is over takes both of them away. So for the code that calls it, a call up to its return is
one turn, as an instruction is.
-/

namespace StackScript.Wide

namespace Moves

variable {i : Instruction} {w w' : State}

theorem entered (h : Moves i w w') (hdeep : w.frames.length < w'.frames.length) :
    i.op = .call := by
  cases h with
  | stays | main | writesGlobal => exact absurd hdeep (Nat.lt_irrefl _)
  | jumps => exact absurd hdeep (by simp)
  | writesLocal _ hframes => exact absurd hdeep (by simp [hframes])
  | enters hcalls => exact hcalls
  | leaves =>
    unfold State.leave at hdeep
    split at hdeep
    · rename_i hframes
      simp only [hframes, List.length_cons] at hdeep
      omega
    · exact absurd hdeep (Nat.lt_irrefl _)

/-- As long as no call begins or ends, the same code runs. -/
theorem code (h : Moves i w w') (hlength : w'.frames.length = w.frames.length) :
    w'.outline.code = w.outline.code := by
  cases h with
  | stays | main | writesGlobal => rfl
  | jumps target => exact (congrArg Outline.code (w.outline_jump target)).trans (Outline.code_jump _ _)
  | writesLocal _ hframes => simp [State.outline, Outline.code, hframes, bareFrame]
  | enters => simp [State.enter] at hlength
  | leaves =>
    unfold State.leave at hlength ⊢
    split
    · rename_i hframes
      simp [hframes] at hlength
    · rfl

end Moves

open Control (Over)

variable {base : Control Routine} {i : Instruction} {depth : Nat}

/-- The calls below are left alone by a step, unless the lowest call above them returns. -/
theorem Act.step_over {s t : State} (h : Over base s.control)
    (hstep : Act.step s = .ok () t) : Over base t.control ∨ t.control = base := by
  rcases Act.effect_step hstep with rfl | ⟨i, -, heffect⟩
  · exact .inl h
  · have hfetched := h.jump s.outline.counter.next
    rw [← State.control_jump, ← State.fetched, ← State.control_fetched] at hfetched
    exact hfetched.goes heffect.moves.goes

theorem Within.over {s t : State} (h : Within depth s t)
    (hs : Over base s.control) (hdepth : base.frames.length < depth) : Over base t.control := by
  induction h with
  | refl => exact hs
  | @step t u ht hstep hdeep ih =>
    refine (Act.step_over ih hstep).resolve_right fun heq => ?_
    have hlength : u.frames.length = base.frames.length := congrArg (·.frames.length) heq
    omega

theorem Within.program {s t : State} (h : Within depth s t) : t.program = s.program := by
  induction h with
  | refl => rfl
  | step _ hstep _ ih => exact (Act.program_step hstep).trans ih

/-- A call up to its return leaves the calls and the counters as they were after it was fetched. -/
theorem control_of_return {s s₁ u t : State} (hnext : s.next? = some i)
    (henter : Act.step s = .ok () s₁) (hdeep : s.frames.length < s₁.frames.length)
    (hwithin : Within s₁.frames.length s₁ u) (hreturn : Act.step u = .ok () t)
    (hlength : t.frames.length ≤ s.frames.length) :
    i.op = .call ∧ t.control = s.fetched.control := by
  have hlevel : s.fetched.frames.length = s.frames.length := s.length_jump _
  have hdeep₁ : s.rest.fetched.frames.length < s₁.rest.frames.length :=
    (s.rest.length_jump _).trans_lt hdeep
  have hmoves := (Act.effect_of_next hnext henter).moves
  have hover : Over s.fetched.control s₁.control := by
    rw [← s.control_fetched]
    exact .of_goes hmoves.goes hdeep₁
  refine ⟨hmoves.entered hdeep₁, (Act.step_over (hwithin.over hover ?_) hreturn).resolve_left fun hlast => ?_⟩
  · exact hlevel.trans_lt hdeep
  · have hlt : s.fetched.frames.length < t.frames.length := hlast.length_lt
    omega

/-- Where a call has returned, the code goes on behind it. -/
theorem outline_of_return {s s₁ u t : State} (henter : Act.step s = .ok () s₁)
    (hdeep : s.frames.length < s₁.frames.length) (hwithin : Within s₁.frames.length s₁ u)
    (hreturn : Act.step u = .ok () t) (hlength : t.frames.length ≤ s.frames.length) :
    t.outline = s.fetched.outline := by
  rcases Act.effect_step henter with rfl | ⟨i, hnext, -⟩
  · exact absurd hdeep (Nat.lt_irrefl _)
  · obtain ⟨-, hcontrol⟩ := control_of_return hnext henter hdeep hwithin hreturn hlength
    refine State.outline_of_control ?_ hcontrol
    rw [Act.program_step hreturn, hwithin.program, Act.program_step henter]
    exact (s.program_jump _).symm

/-! ## Turns -/

/-- What the code of a call does in one turn: one instruction, or a call of a routine up to its
return, if that leaves the handlers as they were. -/
inductive Turn (s t : State) : Prop
  | step (hstep : Act.step s = .ok () t) (hlength : t.frames.length = s.frames.length)
  | call {s₁ u : State} (henter : Act.step s = .ok () s₁)
      (hdeep : s.frames.length < s₁.frames.length) (hwithin : Within s₁.frames.length s₁ u)
      (hreturn : Act.step u = .ok () t) (hlength : t.frames.length ≤ s.frames.length)
      (hhandlers : t.handlers = s.handlers)

/-- What a turn can do. A call may leave an exception that was thrown in it. -/
def TurnEffect (i : Instruction) (w w' : State) : Prop :=
  Effect i w w' ∨ i.op = .call ∧ w'.outline = w.outline ∧ w'.handlers = w.handlers

theorem TurnEffect.effect {w w' : State} (h : TurnEffect i w w')
    (hop : i.op ≠ .call) : Effect i w w' := h.resolve_right fun hcall => hop hcall.1

namespace Turn

variable {s t : State} {i : Instruction}

/-- A call that is over has put the calls and their counters back. -/
theorem effect (h : Turn s t) (hnext : s.next? = some i) :
    TurnEffect i s.rest.fetched t.rest ∧ t.frames.length = s.frames.length := by
  cases h with
  | step hstep hlength => exact ⟨.inl (Act.effect_of_next hnext hstep), hlength⟩
  | @call s₁ u henter hdeep hwithin hreturn hlength hhandlers =>
    obtain ⟨hcall, -⟩ := control_of_return hnext henter hdeep hwithin hreturn hlength
    have ht : t.outline = s.rest.fetched.outline := by
      rw [outline_of_return henter hdeep hwithin hreturn hlength, State.fetched, State.fetched,
        State.outline_jump, State.outline_jump]
      rfl
    refine ⟨.inr ⟨hcall, ht, hhandlers.trans (s.rest.handlers_jump _).symm⟩, ?_⟩
    rw [← length_frames, ht, length_frames]
    exact s.rest.length_jump _

theorem code (h : Turn s t) (hnext : s.next? = some i) : t.outline.code = s.outline.code := by
  obtain ⟨heffect, hlength⟩ := h.effect hnext
  have hlevel : t.rest.frames.length = s.rest.fetched.frames.length :=
    hlength.trans (s.rest.length_jump _).symm
  have hcode : s.rest.fetched.outline.code = s.outline.code := s.rest.code_fetched
  rcases heffect with heffect | ⟨-, houtline, -⟩
  · exact (heffect.moves.code hlevel).trans hcode
  · exact (congrArg Outline.code houtline).trans hcode

end Turn

end StackScript.Wide
