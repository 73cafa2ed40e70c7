import StackScript.Proofs.Code.Reload
import StackScript.Proofs.Meaning.Program

/-!
# Programs of the core language are storable

All numbers in the code of a program of the core language are indices of its code, slots, indices of
constants, or counts of parts that have code of their own. None of them is larger than the longest
table, so the numbers of a program that fits into a file can be read back.
-/

namespace StackScript

/-- An instruction of the wide set whose operand, if any, is a number up to a bound. -/
structure Instruction.Within (bound : Nat) (i : Instruction) : Prop where
  op : i.op ≠ .typeCheck
  operand : i.operand = .null ∨ ∃ n : Nat, n ≤ bound ∧ i.operand = .int n

theorem Instruction.Within.storable {bound : Nat} {i : Instruction} (h : i.Within bound)
    (hbound : bound ≤ 2 ^ 33) : i.Storable := by
  refine ⟨h.op, ?_⟩
  rcases h.operand with hnull | ⟨n, hn, hint⟩
  · rw [hnull]
    exact .null
  · rw [hint]
    exact .int (two_pow_lt_digitLimit (by simpa using by omega))

theorem Instruction.Within.mono {n m : Nat} {i : Instruction} (h : i.Within n) (hle : n ≤ m) :
    i.Within m :=
  ⟨h.op, h.operand.imp_right fun ⟨k, hk, hint⟩ => ⟨k, Nat.le_trans hk hle, hint⟩⟩

/-- Code whose operands are up to a bound, or indices of the code itself. -/
def Shape.Fair (bound : Nat) (s : Shape) : Prop :=
  ∀ start, ∀ i ∈ s.layout start, i.Within (bound + (start + s.size))

namespace Shape.Fair

variable {op : Opcode} {bound n : Nat} {a b : Shape}

theorem nothing : Fair bound .nothing := nofun

theorem jump (hop : op ≠ .typeCheck) (h : n ≤ bound) : Instruction.Within bound (.to op n) :=
  ⟨hop, .inr ⟨n, h, rfl⟩⟩

theorem indexed (hop : op ≠ .typeCheck) (h : n ≤ bound) : Fair bound (.one (.to op n)) := by
  intro _ i hi
  cases List.mem_singleton.1 hi
  exact jump hop (by omega)

theorem plain (hop : op ≠ .typeCheck) : Fair bound (.one ⟨op, .null⟩) := by
  intro _ i hi
  cases List.mem_singleton.1 hi
  exact ⟨hop, .inl rfl⟩

theorem part {start : Nat} (ha : Fair bound a) (h : bound + (start + a.size) ≤ n) :
    ∀ i ∈ a.layout start, i.Within n :=
  fun i hi => (ha _ i hi).mono h

theorem seq (ha : Fair bound a) (hb : Fair bound b) : Fair bound (a.seq b) := by
  intro start
  simp only [layout, size, List.forall_mem_append]
  exact ⟨ha.part (by omega), hb.part (by omega)⟩

theorem counted (ha : Fair bound a) (hop : op ≠ .typeCheck) (h : n ≤ a.size) :
    Fair bound (a.seq (.one (.to op n))) := by
  intro start
  simp only [layout, size, List.forall_mem_append, List.forall_mem_singleton]
  exact ⟨ha.part (by omega), jump hop (by omega)⟩

theorem guarded (ha : Fair bound a) : Fair bound (.guarded a) := by
  intro start
  simp only [layout, size, List.forall_mem_cons]
  exact ⟨jump (by decide) (by omega), ha.part (by omega)⟩

theorem choice (ha : Fair bound a) (hb : Fair bound b) : Fair bound (.choice a b) := by
  intro start
  simp only [layout, size, List.cons_append, List.forall_mem_cons, List.forall_mem_append]
  exact ⟨jump (by decide) (by omega), ha.part (by omega),
    jump (by decide) (by omega), hb.part (by omega)⟩

theorem whileLoop (ha : Fair bound a) (hb : Fair bound b) : Fair bound (.whileLoop a b) := by
  intro start
  simp only [layout, size, List.cons_append, List.append_assoc, List.forall_mem_append,
    List.forall_mem_cons]
  exact ⟨ha.part (by omega), jump (by decide) (by omega),
    hb.part (by omega), jump (by decide) (by omega), List.forall_mem_nil _⟩

theorem repeatLoop (ha : Fair bound a) : Fair bound (.repeatLoop a) := by
  intro start
  simp only [layout, size, List.forall_mem_append, List.forall_mem_singleton]
  exact ⟨ha.part (by omega), jump (by decide) (by omega)⟩

theorem forLoop (ha : Fair bound a) : Fair bound (.forLoop a) := by
  intro start
  simp only [layout, size, List.cons_append, List.forall_mem_append, List.forall_mem_cons]
  exact ⟨jump (by decide) (by omega), ha.part (by omega),
    jump (by decide) (by omega), List.forall_mem_nil _⟩

theorem chain {codes : List (Shape × Shape)}
    (h : ∀ code ∈ codes, Fair bound code.1 ∧ Fair bound code.2) (hlast : Fair bound a) :
    Fair bound (Shape.chain codes a) := by
  induction codes with
  | nil => exact hlast
  | cons code codes ih =>
    obtain ⟨⟨hc, hb⟩, hcodes⟩ := List.forall_mem_cons.1 h
    exact hc.seq (hb.choice (ih hcodes))

end Shape.Fair

namespace Meaning.Tables

/-- Tables that are no longer than a bound. -/
structure Within (bound : Nat) (t : Tables) : Prop where
  constants : t.constants.length ≤ bound
  globals : t.globals.Proper ∧ t.globals.length ≤ bound
  locals : ∀ slots ∈ t.locals, slots.Proper ∧ slots.length ≤ bound

variable {bound : Nat} {t : Tables}

theorem Within.constant (ht : t.Within bound) {i : Nat} {d : Datum}
    (hi : t.constants[i]? = some d) : i ≤ bound := by
  have hlt := (List.getElem?_eq_some_iff.1 hi).1
  exact Nat.le_trans (Nat.le_of_lt hlt) ht.constants

variable {name : String} {a : Shape} {k : Nat}

theorem Within.global (ht : t.Within bound) (hk : t.globals.slot? name = some k) : k ≤ bound :=
  Nat.le_trans (Nat.le_of_lt (ht.globals.1.lt_length hk)) ht.globals.2

theorem Within.local (ht : t.Within bound) {slots : Slots} (hs : t.locals = some slots)
    (hk : slots.slot? name = some k) : k ≤ bound := by
  obtain ⟨hproper, hlength⟩ := ht.locals slots hs
  exact Nat.le_trans (Nat.le_of_lt (hproper.lt_length hk)) hlength

theorem Loads.fair (ht : t.Within bound) : t.Loads name a → a.Fair bound
  | .ofLocal hs hk => .indexed (by decide) (ht.local hs hk)
  | .ofGlobal _ hk => .indexed (by decide) (ht.global hk)

theorem Stores.fair (ht : t.Within bound) : t.Stores name a → a.Fair bound
  | .ofLocal hs hk => .indexed (by decide) (ht.local hs hk)
  | .ofGlobal _ _ hk => .indexed (by decide) (ht.global hk)

theorem Calls.fair (ht : t.Within bound) : t.Calls name a → a.Fair bound
  | .ofConstant hi => .indexed (by decide) (ht.constant hi)
  | .ofGlobal _ hk => .indexed (by decide) (ht.global hk)

theorem binaryOpcode?_ne {operator : String} {op : Opcode} (h : binaryOpcode? operator = some op) :
    op ≠ .typeCheck := by
  have hjoins := joins_of_binaryOpcode? h
  clear h
  revert op
  decide

theorem CodesAll.length_le {es : List Expr} {a : Shape} (h : t.CodesAll es a) :
    es.length ≤ a.size := by
  -- every expression has code, so that the list has at least as much as expressions
  apply @CodesAll.rec t (fun _ a _ => 1 ≤ a.size) (fun es a _ => es.length ≤ a.size) <;>
    try assumption
  case name =>
    intro name a ha
    cases ha <;> exact Nat.le_refl 1
  case plus => exact fun _ h => h
  all_goals
    intros
    simp only [Shape.size, List.length_nil, List.length_cons] at *
    omega

mutual

theorem Codes.fair (ht : t.Within bound) {e : Expr} {a : Shape} : t.Codes e a → a.Fair bound
  | .literal hi => .indexed (by decide) (ht.constant hi)
  | .name ha => ha.fair ht
  | .binary ha hb hop => (ha.fair ht).seq ((hb.fair ht).seq (.plain (binaryOpcode?_ne hop)))
  | .not ha => (ha.fair ht).seq (.plain (by decide))
  | .minus hi ha =>
    .seq (.indexed (by decide) (ht.constant hi)) ((ha.fair ht).seq (.plain (by decide)))
  | .plus ha => ha.fair ht
  | .index ha hb => (ha.fair ht).seq ((hb.fair ht).seq (.plain (by decide)))
  | .list ha | .tuple ha => (ha.fair ht).counted (by decide) ha.length_le
  | .comprehension ha hb hc =>
    .seq (.indexed (by decide) (Nat.zero_le _)) ((ha.fair ht).seq (.seq (.plain (by decide))
      (.forLoop ((hb.fair ht).seq ((hc.fair ht).seq (.plain (by decide)))))))
  | .filtered ha hb hd hc =>
    .seq (.indexed (by decide) (Nat.zero_le _)) ((ha.fair ht).seq (.seq (.plain (by decide))
      (.forLoop ((hb.fair ht).seq ((hd.fair ht).seq
        (.guarded ((hc.fair ht).seq (.plain (by decide)))))))))
  | .call _ ha hb => (ha.fair ht).seq ((hb.fair ht).counted (by decide) hb.length_le)

theorem CodesAll.fair (ht : t.Within bound) {es : List Expr} {a : Shape} :
    t.CodesAll es a → a.Fair bound
  | .nil => .nothing
  | .cons ha hb => (ha.fair ht).seq (hb.fair ht)

end

mutual

theorem CodesStmt.fair (ht : t.Within bound) {returns : Bool} {s : Stmt} {a : Shape} :
    t.CodesStmt returns s a → a.Fair bound
  | .expression ha | .returnValue ha => (ha.fair ht).seq (.plain (by decide))
  | .declare ha hb | .assign ha hb => (ha.fair ht).seq (hb.fair ht)
  | .branch ha => ha.fair ht
  | .whileLoop ha hb => (ha.fair ht).whileLoop (hb.fair ht)
  | .repeatLoop ha hb => ((ha.fair ht).seq (hb.fair ht)).repeatLoop
  | .forLoop ha hb hc =>
    (ha.fair ht).seq (.seq (.plain (by decide)) ((hb.fair ht).seq (hc.fair ht)).forLoop)
  | .returnNothing hi => .seq (.indexed (by decide) (ht.constant hi)) (.plain (by decide))

theorem CodesBody.fair (ht : t.Within bound) {returns : Bool} {body : List Stmt} {a : Shape} :
    t.CodesBody returns body a → a.Fair bound
  | .nil => .nothing
  | .cons ha hb => (ha.fair ht).seq (hb.fair ht)

theorem CodesChoice.fair (ht : t.Within bound) {returns : Bool}
    {clauses : List (Expr × List Stmt)} {last : Option (List Stmt)} {a : Shape} :
    t.CodesChoice returns clauses last a → a.Fair bound
  | .guarded ha hb _ => (ha.fair ht).seq (hb.fair ht).guarded
  | .chain hclauses ha => .chain (hclauses.fair ht) (ha.fair ht)

theorem CodesClauses.fair (ht : t.Within bound) {returns : Bool}
    {clauses : List (Expr × List Stmt)} {codes : List (Shape × Shape)} :
    t.CodesClauses returns clauses codes → ∀ code ∈ codes, code.1.Fair bound ∧ code.2.Fair bound
  | .nil => nofun
  | .cons ha hb hrest => List.forall_mem_cons.2 ⟨⟨ha.fair ht, hb.fair ht⟩, hrest.fair ht⟩

end

theorem CodesProgram.fair (ht : t.Within bound) {body : List Stmt} {defs : List Procedure}
    {a : Shape} (h : t.CodesProgram body defs a) : a.Fair bound := by
  induction h with
  | statements ha => exact ha.fair ht
  | definition hi hk _ ih =>
    exact .seq (.seq (.indexed (by decide) (ht.constant hi)) (.indexed (by decide) (ht.global hk))) ih

end Meaning.Tables

end StackScript
