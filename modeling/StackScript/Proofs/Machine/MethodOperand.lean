import StackScript.Code.Compile
import StackScript.Machine.Fast.Step

/-!
# The operand of a method call

A method call has one operand for two numbers: the index of the name of the method is joined by bits
with the number of arguments, sixteen places higher. `method_operand` tells what the machine takes from
it. That is what was put in if and only if the index fits into sixteen bits, which nothing sees to.
-/

namespace StackScript

/-- A call of the method of a name with some arguments on the stack. -/
def Fast.Act.callNamed (name : Value) (count : Int) : Act Unit := do
  if ((← get).stack.length : Int) < count + 1 then
    fail (.needsShown "CALL_METHOD" (Number.intDigits (count + 1)))
  let arguments ← popMany count.toNat
  let target ← pop
  match target with
  | .object ref =>
    match ← op (Value.findMethod target name) with
    | .none =>
      let s ← get
      let cell := s.store.objects.getD ref default
      let owner := (s.store.classes.getD cell.classOf default).name
      let shown ← textOf name
      fail (.noMethod shown (← textOf owner))
    | method => enter method (target :: arguments)
  | _ => fail .methodObject

theorem Fast.Act.callMethod_int (i : Int) : callMethod (.int i) =
    constantAt (.int (i % 0x10000)) >>= (callNamed · (i / 0x10000)) := rfl

variable {n index : Nat}

theorem shiftLeft_or_mod (n index : Nat) : (n <<< 16 ||| index) % 65536 = index % 65536 := by
  rw [show 65536 = 2 ^ 16 from rfl, Nat.or_mod_two_pow, Nat.shiftLeft_eq, Nat.mul_mod_left, Nat.zero_or]

theorem shiftLeft_or_div (n index : Nat) : (n <<< 16 ||| index) / 65536 = n ||| index / 65536 := by
  rw [show 65536 = 2 ^ 16 from rfl, Nat.or_div_two_pow, Nat.shiftLeft_eq, Nat.mul_div_cancel _ (by decide)]

/-- Both numbers come back exactly if the index fits. -/
theorem decoded_iff : index % 65536 = index ∧ n ||| index / 65536 = n ↔ index < 65536 := by
  constructor
  · rintro ⟨hmod, -⟩
    omega
  · intro hfits
    rw [Nat.div_eq_of_lt hfits, Nat.mod_eq_of_lt hfits, Nat.or_zero]
    exact ⟨rfl, rfl⟩

/-- The code of a method call ends with an instruction whose operand joins the number of arguments with
the index that the name has in the pool. The machine takes the remainder of the index for the index, and
the rest of it gets among the bits of the number; both are right if and only if the index fits. -/
theorem method_operand (object : Expr) (word : String) (arguments : List Expr) :
    Gen.expression (.call (.member object word) arguments) = (do
      Gen.expression object
      Gen.exprs Gen.embedded arguments
      let index ← Gen.constant (.str word)
      Gen.emitAt .callMethod (arguments.length <<< 16 ||| index)) ∧
    ∀ n index : Nat, Fast.Act.callMethod (.int (n <<< 16 ||| index : Nat)) =
        Fast.Act.constantAt (.int (index % 65536 : Nat)) >>=
          (Fast.Act.callNamed · (n ||| index / 65536 : Nat)) ∧
      (index % 65536 = index ∧ n ||| index / 65536 = n ↔ index < 65536) := by
  refine ⟨rfl, fun n index => ⟨?_, decoded_iff⟩⟩
  have hmod : ((n <<< 16 ||| index : Nat) : Int) % 0x10000 = (index % 65536 : Nat) := by
    rw [← shiftLeft_or_mod n index]
    rfl
  have hdiv : ((n <<< 16 ||| index : Nat) : Int) / 0x10000 = (n ||| index / 65536 : Nat) := by
    rw [← shiftLeft_or_div n index]
    rfl
  rw [Fast.Act.callMethod_int, hmod, hdiv]

end StackScript
