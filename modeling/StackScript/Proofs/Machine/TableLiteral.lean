import StackScript.Code.Compile
import StackScript.Proofs.Machine.Deal
import StackScript.Proofs.Machine.Shared

/-!
# Tables from literals

The code of a table literal leaves its keys and values on the stack, in the order of the text, and
one instruction makes a table of them. It takes the pairs from the top, so that the last one is
entered first (`buildDict_last_first`), and of equal keys the first value written stays.
-/

namespace StackScript

/-- Pairs entered into a table, one after the other. -/
def Table.enterAll (t : Table) (pairs : List (Value × Value)) : Table :=
  pairs.foldl (fun t pair => t.put pair.1 pair.2) t

/-- Keys and values on the stack, each value above its key and the first pair on top. -/
def stackOf (pairs : List (Value × Value)) : List Value := pairs.flatMap fun pair => [pair.2, pair.1]

variable {pairs : List (Value × Value)} {rest : List Value}

theorem Wide.Act.popPairs_stackOf (hkeys : ∀ pair ∈ pairs, pair.1.asKey = .ok pair.1) (t : Table)
    {w : State} (h : w.stack = stackOf pairs ++ rest) :
    popPairs pairs.length t w = .ok (t.enterAll pairs) { w with stack := rest } := by
  induction pairs generalizing t w with
  | nil =>
    cases w
    cases h
    rfl
  | cons pair pairs ih =>
    obtain ⟨hkey, hkeys⟩ := List.forall_mem_cons.1 hkeys
    rw [List.length_cons, popPairs, bind_of_ok (pop_cons h), bind_of_ok (pop_cons rfl), hkey]
    exact ih hkeys _ rfl

theorem Fast.Act.popPairs_stackOf (hkeys : ∀ pair ∈ pairs, pair.1.asKey = .ok pair.1) (t : Table)
    {f : State} (h : f.stack = stackOf pairs ++ rest) :
    popPairs pairs.length t f = .ok (t.enterAll pairs) { f with stack := rest } := by
  induction pairs generalizing t f with
  | nil =>
    cases f
    cases h
    rfl
  | cons pair pairs ih =>
    obtain ⟨hkey, hkeys⟩ := List.forall_mem_cons.1 hkeys
    rw [List.length_cons, popPairs, bind_of_ok (pop_cons h), bind_of_ok (pop_cons rfl), hkey]
    exact ih hkeys _ rfl

/-- The code of a literal is that of its keys and values and one instruction more. On both machines this
one enters the pairs from the last to the first. -/
theorem buildDict_last_first (hkeys : ∀ pair ∈ pairs, pair.1.unhashable? = none) :
    (∀ literal, Gen.expression (.dict literal) = (do
      Gen.exprPairs Gen.embedded literal
      Gen.emitAt .buildDict literal.length)) ∧
    (∀ w : Wide.State, w.stack = stackOf pairs.reverse ++ rest →
      Wide.Act.perform ⟨.buildDict, .int pairs.length⟩ w = .ok () { w with
        stack := .dict w.store.dicts.size :: rest
        store := { w.store with dicts := w.store.dicts.push (Table.enterAll #[] pairs.reverse) } }) ∧
    (∀ f : Fast.State, f.stack = stackOf pairs.reverse ++ rest →
      Fast.Act.perform .buildDict (.int pairs.length) f = .ok () { f with
        stack := .dict f.store.dicts.size :: rest
        store := { f.store with
          dicts := f.store.dicts.push (Table.enterAll #[] pairs.reverse) } }) := by
  have hkeys : ∀ pair ∈ pairs.reverse, pair.1.asKey = .ok pair.1 := by
    intro pair hpair
    simp only [Value.asKey, hkeys pair (List.mem_reverse.1 hpair)]
  rw [← List.length_reverse]
  refine ⟨fun _ => rfl, fun w h => ?_, fun f h => ?_⟩
  · show (Wide.Act.popPairs pairs.reverse.length #[] >>= _) w = _
    rw [bind_of_ok (Wide.Act.popPairs_stackOf hkeys #[] h)]
    rfl
  · have hsize : 2 * pairs.reverse.length ≤ f.stack.length := by
      simp [h, stackOf, Nat.mul_comm]
    show Fast.Act.buildDict _ f = _
    rw [Fast.Act.buildDict_of_le hsize, bind_of_ok (Fast.Act.popPairs_stackOf hkeys #[] h)]
    rfl

/-- Three pairs, two of them with the same key. -/
def twice : List (Value × Value) := [(.str "a", .int 1), (.str "b", .int 2), (.str "b", .int 3)]

theorem first_value_stays : (∀ pair ∈ twice, pair.1.unhashable? = none) ∧
    (∃ w, Wide.Act.perform ⟨.buildDict, .int 3⟩ { stack := stackOf twice.reverse } = .ok () w ∧
      w.store.dicts = #[#[(.str "b", .int 2), (.str "a", .int 1)]]) ∧
    ∃ f, Fast.Act.perform .buildDict (.int 3) { stack := stackOf twice.reverse } = .ok () f ∧
      f.store.dicts = #[#[(.str "b", .int 2), (.str "a", .int 1)]] := by
  have hkeys : ∀ pair ∈ twice, pair.1.unhashable? = none := by
    simp [twice, Value.unhashable?]
  have htable : Table.enterAll #[] twice.reverse = #[(.str "b", .int 2), (.str "a", .int 1)] := by
    simp [twice, Table.enterAll, Table.put, Value.sameKey, Value.identical, Value.sameLeaf]
  obtain ⟨-, hwide, hfast⟩ := @buildDict_last_first _ [] hkeys
  exact ⟨hkeys, ⟨_, hwide _ rfl, congrArg (#[·]) htable⟩, _, hfast _ rfl, congrArg (#[·]) htable⟩

end StackScript
