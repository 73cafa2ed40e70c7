import Mathlib.Logic.Function.Iterate
import StackScript.Machine.Counter

/-!
# Calls and returns

A call notes the counter of the main program in its frame, and its return puts the counter back; the
counters of the calls below are left alone meanwhile. This holds of any machine whose steps change the
calls as `Control.Goes` says.
-/

namespace StackScript

/-- Where a machine is: the counter of its main program, and the calls in progress. -/
structure Control (ρ : Type) where
  pc : Counter
  frames : List (Frame ρ)

namespace Control

variable {ρ : Type} {c c' base : Control ρ} {raises : Prop}

/-- The counter of the code that runs is moved. -/
def jump (c : Control ρ) (target : Counter) : Control ρ :=
  match c.frames with
  | frame :: rest => { c with frames := { frame with pc := target } :: rest }
  | [] => { c with pc := target }

/-- The innermost call returns. -/
def leave (c : Control ρ) : Control ρ :=
  match c.frames with
  | frame :: rest => ⟨frame.returnTo, rest⟩
  | [] => c

/-- What an instruction can do to the calls. Only when something is thrown, the counter of the main
program is moved during a call. -/
inductive Goes (raises : Prop) (c : Control ρ) : Control ρ → Prop
  | stays : Goes raises c c
  | jumps (target : Counter) : Goes raises c (c.jump target)
  | main (hraises : raises) (target : Counter) : Goes raises c { c with pc := target }
  | writes {frame : Frame ρ} {rest : List (Frame ρ)} (hframes : c.frames = frame :: rest)
      (locals : Array Value) : Goes raises c { c with frames := { frame with locals } :: rest }
  | enters (routine : ρ) (locals : Array Value) :
      Goes raises c { c with frames := { routine, returnTo := c.pc, locals } :: c.frames }
  | leaves : Goes raises c c.leave

theorem length_jump (c : Control ρ) (target : Counter) :
    (c.jump target).frames.length = c.frames.length := by
  unfold jump
  split
  · rename_i hframes
    rw [hframes, List.length_cons, List.length_cons]
  · rfl

theorem length_leave (c : Control ρ) : c.leave.frames.length = c.frames.length - 1 := by
  unfold leave
  split
  · rename_i hframes
    rw [hframes, List.length_cons, Nat.add_sub_cancel]
  · rename_i hframes
    rw [hframes]
    rfl

theorem leave_of_nil (h : c.frames = []) : c.leave = c := by
  rw [leave, h]

/-! ## Where calls return to -/

/-- All calls return to the counter that the main program has. -/
def Home (c : Control ρ) : Prop := ∀ frame ∈ c.frames, frame.returnTo = c.pc

theorem home_of_nil (h : c.frames = []) : c.Home := by
  intro frame hframe
  rw [h] at hframe
  cases hframe

/-- As long as nothing is thrown, the counter of the main program waits for the calls. -/
theorem Home.goes (h : c.Home) (hgoes : Goes False c c') : c'.Home := by
  cases hframes : c.frames with
  | nil =>
    cases hgoes with
    | stays => exact h
    | jumps => exact home_of_nil (by rw [jump, hframes])
    | main hraises => exact hraises.elim
    | writes hcons => exact nomatch hframes.symm.trans hcons
    | enters => exact List.forall_mem_cons.2 ⟨rfl, h⟩
    | leaves => rwa [leave_of_nil hframes]
  | cons first rest =>
    have hall := h
    rw [Home, hframes] at hall
    obtain ⟨hfirst, hrest⟩ := List.forall_mem_cons.1 hall
    cases hgoes with
    | stays => exact h
    | jumps =>
      rw [jump, hframes]
      exact List.forall_mem_cons.2 ⟨hfirst, hrest⟩
    | main hraises => exact hraises.elim
    | writes hcons =>
      obtain ⟨rfl, rfl⟩ := List.cons.inj (hframes.symm.trans hcons)
      exact List.forall_mem_cons.2 ⟨hfirst, hrest⟩
    | enters => exact List.forall_mem_cons.2 ⟨rfl, h⟩
    | leaves =>
      rw [leave, hframes]
      exact fun frame hframe => (hrest frame hframe).trans hfirst.symm

theorem Home.falls (h : c.Home) (count : Nat) : (leave^[count] c).Home := by
  induction count with
  | zero => exact h
  | succ count ih =>
    rw [Function.iterate_succ_apply']
    exact ih.goes .leaves

/-! ## Calls above others -/

/-- Calls run above those of another state, and the lowest of them returns to its counter. -/
def Over (base c : Control ρ) : Prop :=
  ∃ above frame, c.frames = above ++ frame :: base.frames ∧ frame.returnTo = base.pc

namespace Over

theorem of_goes (h : Goes raises c c') (hdeep : c.frames.length < c'.frames.length) : Over c c' := by
  cases h with
  | stays | main => exact absurd hdeep (Nat.lt_irrefl _)
  | jumps => exact absurd hdeep (by simp [length_jump])
  | writes hframes => exact absurd hdeep (by simp [hframes])
  | enters => exact ⟨[], _, rfl, rfl⟩
  | leaves => exact absurd hdeep (by simp [length_leave])

theorem length_lt (h : Over base c) : base.frames.length < c.frames.length := by
  obtain ⟨above, frame, hframes, -⟩ := h
  rw [hframes, List.length_append, List.length_cons]
  omega

/-- The innermost call may change, but not where it returns to. -/
theorem changed (h : Over base c) {top top' : Frame ρ} {rest : List (Frame ρ)}
    (hframes : c.frames = top :: rest) (hreturn : top'.returnTo = top.returnTo) (pc : Counter) :
    Over base ⟨pc, top' :: rest⟩ := by
  obtain ⟨above, frame, hcalls, hback⟩ := h
  cases above with
  | nil =>
    obtain ⟨rfl, rfl⟩ := List.cons.inj (hframes.symm.trans hcalls)
    exact ⟨[], top', rfl, hreturn.trans hback⟩
  | cons first above =>
    obtain ⟨rfl, rfl⟩ := List.cons.inj (hframes.symm.trans hcalls)
    exact ⟨top' :: above, frame, rfl, hback⟩

theorem jump (h : Over base c) (target : Counter) : Over base (c.jump target) := by
  unfold Control.jump
  split
  · rename_i hframes
    exact h.changed hframes (by rfl) c.pc
  · exact h

theorem leave (h : Over base c) : Over base c.leave ∨ c.leave = base := by
  obtain ⟨above, frame, hframes, hreturn⟩ := h
  unfold Control.leave
  rw [hframes]
  cases above with
  | nil => exact .inr (congrArg (Control.mk · base.frames) hreturn)
  | cons first above => exact .inl ⟨above, frame, rfl, hreturn⟩

/-- The calls below are left alone, and the return of the lowest call above them restores all. -/
theorem goes (h : Over base c) (hgoes : Goes raises c c') : Over base c' ∨ c' = base := by
  cases hgoes with
  | stays | main => exact .inl h
  | jumps target => exact .inl (h.jump target)
  | writes hframes => exact .inl (h.changed hframes (by rfl) c.pc)
  | enters routine locals =>
    obtain ⟨above, frame, hframes, hreturn⟩ := h
    exact .inl ⟨⟨routine, c.pc, .at 0, locals⟩ :: above, frame, by rw [hframes]; rfl, hreturn⟩
  | leaves => exact h.leave

/-- Also several returns at once restore all, or go on to the calls below. -/
theorem falls (h : Over base c) (count : Nat) : Over base (Control.leave^[count] c) ∨
    Control.leave^[count] c = base ∨
      (Control.leave^[count] c).frames.length < base.frames.length := by
  induction count with
  | zero => exact .inl h
  | succ count ih =>
    rw [Function.iterate_succ_apply']
    rcases ih with hover | heq | hlt
    · exact hover.leave.imp_right .inl
    · rw [heq]
      cases hframes : base.frames with
      | nil => exact .inr (.inl (leave_of_nil hframes))
      | cons => exact .inr (.inr (by rw [length_leave, hframes]; simp))
    · exact .inr (.inr (by rw [length_leave]; omega))

end Over

end Control

end StackScript
