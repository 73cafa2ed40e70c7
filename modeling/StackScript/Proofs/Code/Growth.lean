import StackScript.Proofs.Code.Block
import StackScript.Proofs.Code.Layout
import StackScript.Proofs.Code.Plain
import StackScript.Proofs.Code.Slots

/-!
# Growing tables

While a program is planned its tables only grow, and names keep their slots.
-/

namespace StackScript

/-- The limits leave room for what is in the tables. -/
structure Limits.Covers (limits : Limits) (sc : Scope) : Prop where
  constants : sc.constants.toList <+: limits.constants
  globals : sc.globals.length ≤ limits.globals
  locals : ∀ slots, sc.locals = some slots → ∃ n, limits.locals = some n ∧ slots.length ≤ n

/-- Tables after a plan: nothing was taken out. -/
structure Scope.Grows (sc sc' : Scope) : Prop where
  constants : sc.constants.toList <+: sc'.constants.toList
  globals : sc.globals <+: sc'.globals
  locals : sc.locals = none ∧ sc'.locals = none ∨
    ∃ slots slots', sc.locals = some slots ∧ sc'.locals = some slots' ∧ slots <+: slots'
  inWhile : sc'.inWhile = sc.inWhile

namespace Scope.Grows

variable {sc sc₁ sc₂ : Scope}

theorem refl (sc : Scope) : sc.Grows sc := by
  refine ⟨List.prefix_refl _, List.prefix_refl _, ?_, rfl⟩
  cases h : sc.locals with
  | none => exact .inl ⟨rfl, rfl⟩
  | some slots => exact .inr ⟨slots, slots, rfl, rfl, List.prefix_refl _⟩

/-- Slots that stay the same or grow do so over several steps. -/
theorem locals_trans {a b c : Option Slots}
    (h₁ : a = none ∧ b = none ∨ ∃ s s', a = some s ∧ b = some s' ∧ s <+: s')
    (h₂ : b = none ∧ c = none ∨ ∃ s s', b = some s ∧ c = some s' ∧ s <+: s') :
    a = none ∧ c = none ∨ ∃ s s', a = some s ∧ c = some s' ∧ s <+: s' := by
  rcases h₁ with ⟨ha, rfl⟩ | ⟨s, s₁, ha, rfl, hs⟩
  · rcases h₂ with ⟨-, hc⟩ | ⟨_, _, h, -⟩
    · exact .inl ⟨ha, hc⟩
    · cases h
  · rcases h₂ with ⟨h, -⟩ | ⟨_, s₂, h, hc, hs₂⟩
    · cases h
    · cases h
      exact .inr ⟨s, s₂, ha, hc, hs.trans hs₂⟩

theorem trans (h₁ : sc.Grows sc₁) (h₂ : sc₁.Grows sc₂) : sc.Grows sc₂ :=
  ⟨h₁.constants.trans h₂.constants, h₁.globals.trans h₂.globals, locals_trans h₁.locals h₂.locals,
    h₂.inWhile.trans h₁.inWhile⟩

theorem pushConstant (sc : Scope) (d : Datum) :
    sc.Grows { sc with constants := sc.constants.push d } :=
  ⟨by simp, List.prefix_refl _, (refl sc).locals, rfl⟩

theorem putGlobal {name : String} (hnew : sc.globals.slot? name = none) :
    sc.Grows { sc with globals := sc.globals.put name sc.globals.length } :=
  ⟨List.prefix_refl _, Slots.prefix_put hnew _, (refl sc).locals, rfl⟩

theorem putLocal {name : String} {slots : Slots} (hslots : sc.locals = some slots)
    (hnew : slots.slot? name = none) :
    sc.Grows { sc with locals := some (slots.put name slots.length) } :=
  ⟨List.prefix_refl _, List.prefix_refl _, .inr ⟨slots, _, hslots, rfl, Slots.prefix_put hnew _⟩, rfl⟩

theorem covers {limits : Limits} (h : sc.Grows sc₁) (hc : limits.Covers sc₁) : limits.Covers sc := by
  refine ⟨h.constants.trans hc.constants, Nat.le_trans h.globals.length_le hc.globals, ?_⟩
  intro slots hslots
  rcases h.locals with ⟨hn, -⟩ | ⟨a, b, ha, hb, hab⟩
  · rw [hn] at hslots
    cases hslots
  · rw [ha] at hslots
    cases hslots
    obtain ⟨n, hn, hle⟩ := hc.locals b hb
    exact ⟨n, hn, Nat.le_trans hab.length_le hle⟩

end Scope.Grows

theorem joins_of_binaryOpcode? {operator : String} {op : Opcode}
    (h : binaryOpcode? operator = some op) : op ∈ Opcode.joins := by
  obtain ⟨row, hfind, rfl⟩ := Option.map_eq_some_iff.1 h
  have hmem := List.mem_of_find?_eq_some hfind
  clear h hfind
  revert row
  decide

theorem mem_putRoutine {r r' : Routine} {routines : List Routine}
    (h : r' ∈ Generator.putRoutine r routines) : r' = r ∨ r' ∈ routines := by
  induction routines with
  | nil => exact .inl (by simpa [Generator.putRoutine] using h)
  | cons s rest ih =>
    unfold Generator.putRoutine at h
    split at h
    · rcases List.mem_cons.1 h with h | h
      · exact .inl h
      · exact .inr (by simp [h])
    · rcases List.mem_cons.1 h with h | h
      · exact .inr (by simp [h])
      · rcases ih h with h | h
        · exact .inl h
        · exact .inr (by simp [h])

theorem Datum.sameItems_length : ∀ {xs ys : List Datum}, Datum.sameItems xs ys = true →
    xs.length = ys.length
  | [], [], _ => rfl
  | _ :: _, _ :: _, h => by
    have h := (Bool.and_eq_true_iff.1 h).2
    simp [sameItems_length h]

theorem Datum.same_list {c : Datum} {xs : List Datum} (h : c.same (.list xs) = true) :
    ∃ ys, c = .list ys ∧ ys.length = xs.length := by
  cases c with
  | list ys => exact ⟨ys, rfl, Datum.sameItems_length h⟩
  | _ => cases h

end StackScript
