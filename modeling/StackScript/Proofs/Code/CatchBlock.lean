import StackScript.Proofs.Machine.Steps

/-!
# Catch blocks in code

A machine passes catch blocks by a search for their ends, which counts the blocks that begin on the way.
-/

namespace StackScript

/-- An instruction that neither begins nor ends a catch block. -/
def Instruction.Quiet (i : Instruction) : Prop := i.op ≠ .catchBegin ∧ i.op ≠ .catchEnd

section Catches

open Wide.Act (skipCatches skipCatch remaining)

variable {code : Array Instruction} {n : Nat} {block : List Instruction} {first last : Instruction}

/-- What goes on at the next index after each quiet instruction goes on behind a quiet block. -/
theorem passes_quiet {α : Type} {f : Nat → Nat → α}
    (hstep : ∀ {n i}, code[n]? = some i → i.Quiet → ∀ fuel, f (fuel + 1) n = f fuel (n + 1))
    (fuel : Nat) (hblock : Stretch code n block) (hquiet : ∀ i ∈ block, i.Quiet) :
    f (fuel + block.length) n = f fuel (n + block.length) := by
  induction block generalizing n with
  | nil => rfl
  | cons i rest ih =>
    have hrest := ih hblock.tail fun j hj => hquiet j (by simp [hj])
    rw [List.length_cons, ← Nat.add_assoc, hstep hblock.head (hquiet i (by simp)), hrest,
      Nat.add_assoc, Nat.add_comm 1]

theorem skipCatches_quiet (hsize : code.size ≤ Value.sizeLimit) (fuel : Nat) (depth : Int)
    (hblock : Stretch code n block) (hquiet : ∀ i ∈ block, i.Quiet) :
    skipCatches code (fuel + block.length) depth (.at n) =
      skipCatches code fuel depth (.at (n + block.length : Nat)) := by
  refine passes_quiet (f := fun fuel n => skipCatches code fuel depth (.at n)) ?_ fuel hblock hquiet
  intro n i hi ⟨hbegin, hend⟩ fuel
  simp only [skipCatches, Wide.pick_at hi hsize]
  rfl

theorem skipCatch_quiet (hsize : code.size ≤ Value.sizeLimit) (fuel : Nat)
    (hblock : Stretch code n block) (hquiet : ∀ i ∈ block, i.Quiet) :
    skipCatch code (fuel + block.length) (.at n) =
      skipCatch code fuel (.at (n + block.length : Nat)) := by
  refine passes_quiet (f := fun fuel n => skipCatch code fuel (.at n)) ?_ fuel hblock hquiet
  rintro n i hi ⟨-, hend⟩ fuel
  simp only [skipCatch, Wide.pick_at hi hsize, if_neg hend]
  rfl

/-- A catch block in the code, with nothing of another one in it. -/
structure CatchBlock (code : Array Instruction) (n : Nat) (block : List Instruction) : Prop where
  first : ∃ i, code[n]? = some i ∧ i.op = .catchBegin
  within : Stretch code (n + 1) block
  quiet : ∀ i ∈ block, i.Quiet
  last : ∃ i, code[n + 1 + block.length]? = some i ∧ i.op = .catchEnd

theorem CatchBlock.size_gt (h : CatchBlock code n block) : n + 1 + block.length < code.size := by
  obtain ⟨i, hi, -⟩ := h.last
  exact (Array.getElem?_eq_some_iff.1 hi).1

theorem remaining_at (code : Array Instruction) (n : Nat) :
    remaining code (.at n) = code.size - n := by
  simp [remaining, Counter.indexD, Counter.index?]

/-- A machine that passes a catch block goes on behind it. -/
theorem CatchBlock.skipCatch_eq (h : CatchBlock code n block) (hsize : code.size ≤ Value.sizeLimit) :
    skipCatch code (remaining code (.at (n + 1 : Nat))) (.at (n + 1 : Nat)) =
      .at (n + block.length + 2 : Nat) := by
  obtain ⟨last, hlast, hend⟩ := h.last
  have hgt := h.size_gt
  have hfuel : code.size - (n + 1) = code.size - (n + 1 + block.length + 1) + 1 + block.length := by
    omega
  rw [remaining_at, hfuel, skipCatch_quiet hsize _ h.within h.quiet]
  simp only [skipCatch, Wide.pick_at hlast hsize, hend, if_true, Counter.next_at]
  congr 1
  omega

/-- A machine that leaves a try block goes on behind the catch block after it. -/
theorem CatchBlock.skipCatches_eq (h : CatchBlock code n block)
    (hsize : code.size ≤ Value.sizeLimit) :
    skipCatches code (remaining code (.at n)) 0 (.at n) = .at (n + block.length + 2 : Nat) := by
  obtain ⟨first, hfirst, hbegin⟩ := h.first
  obtain ⟨last, hlast, hend⟩ := h.last
  have hgt := h.size_gt
  have hfuel : code.size - n =
      code.size - (n + 1 + block.length + 1) + 1 + block.length + 1 := by
    omega
  rw [remaining_at, hfuel]
  simp only [skipCatches, Wide.pick_at hfirst hsize, hbegin, Counter.next_at]
  have hquiet := skipCatches_quiet hsize (code.size - (n + 1 + block.length + 1) + 1) (0 + 1)
    h.within h.quiet
  rw [show (n : Int) + 1 = ((n + 1 : Nat) : Int) by omega, hquiet]
  simp only [skipCatches, Wide.pick_at hlast hsize, hend, Counter.next_at]
  rw [if_pos (by decide)]
  congr 1
  omega

end Catches

end StackScript
