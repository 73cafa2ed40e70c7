import StackScript.Proofs.Code.Definitions
import StackScript.Proofs.Machine.Return
import StackScript.Proofs.Machine.Thrown

/-!
# Outside of the code

A call that has run past its last instruction stays there: no step of the machine changes anything any
more. The words that leave a conditional loop jump to the index below the first one, from which a
machine fetches the last instruction.
-/

namespace StackScript

namespace Wide

variable {s t : State}

theorem Reached.program (h : Reached s t) : t.program = s.program := Within.program h

/-- A call whose counter is past its last instruction stays where it is. -/
theorem Act.step_past_end {frame : Frame Routine} {rest : List (Frame Routine)}
    (hframes : s.frames = frame :: rest) (hpc : frame.pc = .at frame.routine.code.size) :
    Act.step s = .ok () s := by
  have hcompare : frame.pc.compare .ge frame.routine.code.size = .ok true := by
    rw [hpc, compare_at, Nat.compare_eq_eq.2 rfl]
    rfl
  have hcode : Act.code s = .ok frame.routine.code s := by
    simp only [Act.run_code, State.outline, Outline.code, hframes]
    rfl
  have hcounter : Act.counter s = .ok frame.pc s := by
    simp only [Act.run_counter, State.outline, Outline.counter, hframes]
    rfl
  simp only [Act.step, Act.fetch, bind, EStateM.bind, hcode, hcounter, hcompare]
  rfl

end Wide

open Wide

/-! ## Programs that end -/

/-- A program comes to its last instruction, and a part of the state is then what it says. -/
def Program.EndsWith {α : Type} (p : Program) (f : State → α) (a : α) : Prop :=
  ∃ c s₀ s, p.compile = .ok c ∧ State.load {} c.bytes = .ok s₀ ∧ Reached s₀ s ∧
    s.next?.map (·.op) = some .halt ∧ f s = a

/-- A conditional loop that is left at once, and a statement behind it. -/
def Program.hasty : Program :=
  [.whileLoop (.literal (.bool true)) [.breakLoop],
   .expression (.call (.name "print") [.literal (.str "after")])]

/-- A counted loop that is to be left at once. -/
def Program.steadfast : Program :=
  [.forLoop "x" (.list [.literal (.int 1), .literal (.int 2)])
    [.breakLoop, .expression (.call (.name "print") [.name "x"])]]

/-- The program ends inside its conditional loop, and the counted loop goes through all its items. -/
theorem statement_behind_loop_left_out :
    Program.hasty.EndsWith State.output "" ∧ Program.steadfast.EndsWith State.output "1\n2\n" :=
  ⟨exists_of_runOf 3 (by decide +kernel) (by decide +kernel),
    exists_of_runOf 19 (by decide +kernel) (by decide +kernel)⟩

end StackScript
