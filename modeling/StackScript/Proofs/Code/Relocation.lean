import StackScript.Proofs.Code.Reference

/-!
# Code that can stand anywhere

Code generation asks the code of the place for one thing, the index of the next instruction, and
that index gets into the code as a target of jumps and in no other way. So a statement appends one
and the same block wherever it is compiled, but for the targets of its jumps, which move along. The
code of a break or of a continue is a jump to no index, which would not.

* `Gen.statement_relocates`: the block of a statement, from any two places with the same tables.
-/

namespace StackScript

/-! ## Moved instructions -/

/-- An instruction in code that stands so much further on: a target moves along. -/
def Instruction.moved (distance : Int) (i : Instruction) : Instruction :=
  match i.operand with
  | .int target => if i.op ∈ Shape.jumps then ⟨i.op, .int (target + distance)⟩ else i
  | _ => i

section Moved

variable {distance : Int}

theorem Instruction.moved_of_not_mem {i : Instruction} (h : i.op ∉ Shape.jumps) :
    i.moved distance = i := by
  unfold moved
  split
  · exact if_neg h
  · rfl

theorem Instruction.moved_to {op : Opcode} (h : op ∈ Shape.jumps) {n n' : Nat}
    (hn : (n' : Int) = n + distance) : (Instruction.to op n).moved distance = .to op n' := by
  show (if op ∈ Shape.jumps then _ else _) = _
  rw [if_pos h, ← hn]
  rfl

theorem map_moved_cons {op : Opcode} (h : op ∈ Shape.jumps) {n n' : Nat}
    {code code' : List Instruction} (hn : (n' : Int) = n + distance)
    (hcode : code.map (·.moved distance) = code') :
    (Instruction.to op n :: code).map (·.moved distance) = .to op n' :: code' := by
  rw [List.map_cons, Instruction.moved_to h hn, hcode]

theorem map_moved_append {a a' b b' : List Instruction} (ha : a.map (·.moved distance) = a')
    (hb : b.map (·.moved distance) = b') : (a ++ b).map (·.moved distance) = a' ++ b' := by
  rw [List.map_append, ha, hb]

/-- A shape whose only jumps are those of its form is laid out at two indices alike, up to the
distance. -/
theorem Shape.layout_moved {s : Shape} (h : s.All (·.op ∉ Shape.jumps)) {start start' : Nat}
    (hstart : (start' : Int) = start + distance) :
    (s.layout start).map (·.moved distance) = s.layout start' := by
  induction s generalizing start start' with
  | nothing => rfl
  | one i => exact congrArg (· :: []) (Instruction.moved_of_not_mem h)
  | seq a b iha ihb => exact map_moved_append (iha h.1 hstart) (ihb h.2 (by omega))
  | guarded a ih => exact map_moved_cons (by decide) (by omega) (ih h (by omega))
  | choice a b iha ihb =>
    exact map_moved_append (map_moved_cons (by decide) (by omega) (iha h.1 (by omega)))
      (map_moved_cons (by decide) (by omega) (ihb h.2 (by omega)))
  | whileLoop a b iha ihb =>
    refine map_moved_append (map_moved_append (iha h.1 hstart) ?_)
      (map_moved_cons (by decide) hstart rfl)
    exact map_moved_cons (by decide) (by omega) (ihb h.2 (by omega))
  | repeatLoop a ih => exact map_moved_append (ih h hstart) (map_moved_cons (by decide) hstart rfl)
  | forLoop a ih =>
    exact map_moved_append (map_moved_cons (by decide) (by omega) (ih h (by omega)))
      (map_moved_cons (by decide) hstart rfl)

end Moved

/-! ## Statements that stay in their loops -/

/-- No break or continue becomes part of the code of the statement; the functions in it have code of
their own. -/
inductive Stmt.Staying : Stmt → Prop
  | of {s : Stmt} : s ≠ .breakLoop → s ≠ .continueLoop → (∀ part ∈ s.inner, Staying part) →
      Staying s

namespace Stmt.Staying

variable {s : Stmt}

theorem inner (h : s.Staying) : ∀ part ∈ s.inner, part.Staying := by
  cases h with
  | of _ _ hinner => exact hinner

theorem not_out (h : s.Staying) : ¬ (s = .breakLoop ∨ s = .continueLoop) := by
  cases h with
  | of hbreak hcontinue _ => exact not_or.2 ⟨hbreak, hcontinue⟩

end Stmt.Staying

theorem Shape.composed_jumpless : Shape.Composed True (Shape.All (·.op ∉ Shape.jumps)) := by
  refine Shape.composed_all (fun i h _ => ?_) fun _ i h _ => ?_ <;>
  · generalize i.op = op at h
    revert op
    decide

/-- The tables are led on, and the code of a statement that stays in its loops has no jumps but those
of its form. -/
theorem carried_staying : Stmt.Carried (fun _ => True) (Scope.Leads fun _ => True) True
    (fun _ => True) (fun _ s => s.Staying) (Shape.All (·.op ∉ Shape.jumps)) where
  rule := Scope.Leads.rule _
  basic := Datum.basic_all
  shape := Shape.composed_jumpless.toCarried
  asked := Expr.asked_any
  composed := Shape.composed_jumpless
  statement.exprs _ _ _ := trivial
  statement.inner h := h.inner
  statement.out h hout := absurd hout h.not_out
  statement.attempt _ := .inl trivial
  statement.function := by
    intro w name parameters body _ full
    -- breaks in the body go to the code of the routine, so that nothing is asked of the body
    have K := carried_literals Datum.basic_all fun _ _ _ _ _ => trivial
    have hany : ∀ d ∈ (Stmt.function name parameters body).literals, True := fun _ _ => trivial
    exact .inr (K.routine hany full (K.stmts body))
  statement.method _ _ _ _ _ := .of (by simp) (by simp) (List.forall_mem_nil _)

/-! ## Appended blocks -/

/-- A statement that compiles, and stays in its loops, only appends to the code and to the tables.
From any other place with the same tables it compiles as well, to the same tables, and appends the
same block, moved by the distance of the two places. -/
theorem Gen.statement_relocates {s : Stmt} (hs : s.Staying) {g g' : Generator}
    (h : Gen.statement s g = .ok () g') :
    g.scope.Grows g'.scope ∧ ∃ block, Emits g block g'.scope g' ∧
      ∀ other : Generator, other.scope = g.scope → ∃ other', Gen.statement s other = .ok () other' ∧
        Emits other (block.map (·.moved (other.code.size - g.code.size))) g'.scope other' := by
  obtain ⟨shape, sc, hplan, hemits⟩ := (follows_statement s).of_ok h
  obtain ⟨hleads, hjumpless⟩ := carried_staying.stmt s hs _ _ _ rfl hplan
  obtain rfl := hemits.scope
  refine ⟨hleads.grows, _, hemits, fun other hscope => ?_⟩
  rw [← hscope] at hplan
  obtain ⟨other', hrun, hemits'⟩ := (follows_statement s).ok hplan
  refine ⟨other', hrun, ?_⟩
  rwa [Shape.layout_moved hjumpless (show (other.code.size : Int) = _ by omega)]

/-- A loop without a body at the start of a program, and behind one instruction. -/
theorem Gen.statement_relocates_loop : ∃ g' other', Gen.statement (.whileLoop (.name "x") []) {} =
      .ok () g' ∧ g'.code.toList = [.to .loadGlobal 0, .to .jumpIfFalse 3, .to .jump 0] ∧
    Gen.statement (.whileLoop (.name "x") []) { main := #[⟨.pop, .null⟩] } = .ok () other' ∧
      other'.code.toList =
        [⟨.pop, .null⟩, .to .loadGlobal 0, .to .jumpIfFalse 4, .to .jump 1] := by
  have hrun : Gen.statement (.whileLoop (.name "x") []) {} = .ok () ⟨#[], [], [("x", 0)],
      #[.to .loadGlobal 0, .to .jumpIfFalse 3, .to .jump 0], none, 0, false⟩ := by
    with_unfolding_all rfl
  obtain ⟨-, block, hemits, hother⟩ :=
    Gen.statement_relocates (.of (by simp) (by simp) (List.forall_mem_nil _)) hrun
  obtain ⟨other', hrun', hemits'⟩ := hother { main := #[⟨.pop, .null⟩] } rfl
  obtain rfl := hemits.code
  exact ⟨_, other', hrun, rfl, hrun', hemits'.code⟩

end StackScript
