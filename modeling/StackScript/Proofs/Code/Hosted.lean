import StackScript.Proofs.Code.Drafts
import StackScript.Proofs.Code.Tidy

/-!
# Programs whose functions are tidy

Nothing is asked of the statements of a program but that the functions among them are tidy.
-/

namespace StackScript

mutual

/-- A statement in which the functions are tidy. -/
def Stmt.Hosts (inner : Rules) (inWhile : Bool) : Stmt → Prop
  | .function _ _ body => Stmt.AllTidy inner inner inWhile true body
  | .classDef _ body => Stmt.MethodsTidy inner inWhile body
  | .branch _ thenBody elifs elseBody =>
    Stmt.AllHost inner inWhile thenBody ∧ Stmt.ElifsHost inner inWhile elifs ∧
      (match elseBody with
      | some body => Stmt.AllHost inner inWhile body
      | none => True)
  | .forLoop _ _ body => Stmt.AllHost inner false body
  | .whileLoop _ body => Stmt.AllHost inner true body
  | .repeatLoop _ body => Stmt.AllHost inner inWhile body
  | .switch _ cases _ => Stmt.CasesHost inner inWhile cases
  | .tryBlock body catches finallyBody =>
    Stmt.AllHost inner inWhile body ∧ Stmt.CatchesHost inner inWhile catches ∧
      (match finallyBody with
      | some body => Stmt.AllHost inner inWhile body
      | none => True)
  | .expression _ | .declare _ _ _ | .assign _ _ | .assignMember _ _ _ | .assignIndex _ _ _
  | .asyncFunction _ _ _ | .decorated _ _ _ _ | .withBlock _ _ _ | .importModule _ _
  | .returnValue _ | .breakLoop | .continueLoop | .globals _ | .nonlocals _ | .assertion _ _
  | .deletion _ | .pass | .throwValue _ | .inert => True

/-- The functions in all statements are tidy. -/
def Stmt.AllHost (inner : Rules) (inWhile : Bool) : List Stmt → Prop
  | [] => True
  | s :: rest => s.Hosts inner inWhile ∧ Stmt.AllHost inner inWhile rest

/-- The functions in further alternatives are tidy. -/
def Stmt.ElifsHost (inner : Rules) (inWhile : Bool) : List (Expr × List Stmt) → Prop
  | [] => True
  | (_, body) :: rest => Stmt.AllHost inner inWhile body ∧ Stmt.ElifsHost inner inWhile rest

/-- The functions in the cases of a switch are tidy. -/
def Stmt.CasesHost (inner : Rules) (inWhile : Bool) : List (Option Expr × List Stmt) → Prop
  | [] => True
  | (_, body) :: rest => Stmt.AllHost inner inWhile body ∧ Stmt.CasesHost inner inWhile rest

/-- The functions in catch clauses are tidy. -/
def Stmt.CatchesHost (inner : Rules) (inWhile : Bool) :
    List (Option String × Option String × List Stmt) → Prop
  | [] => True
  | (_, _, body) :: rest => Stmt.AllHost inner inWhile body ∧ Stmt.CatchesHost inner inWhile rest

end

theorem Stmt.AllHost.mem {inner : Rules} {w : Bool} : ∀ {body : List Stmt},
    Stmt.AllHost inner w body → ∀ s ∈ body, s.Hosts inner w
  | [], _ => nofun
  | _ :: _, h => List.forall_mem_cons.2 ⟨h.1, h.2.mem⟩

theorem Stmt.ElifsHost.mem {inner : Rules} {w : Bool} : ∀ {elifs : List (Expr × List Stmt)},
    Stmt.ElifsHost inner w elifs → ∀ clause ∈ elifs, Stmt.AllHost inner w clause.2
  | [], _ => nofun
  | _ :: _, h => List.forall_mem_cons.2 ⟨h.1, h.2.mem⟩

theorem Stmt.CasesHost.mem {inner : Rules} {w : Bool} : ∀ {cases : List (Option Expr × List Stmt)},
    Stmt.CasesHost inner w cases → ∀ clause ∈ cases, Stmt.AllHost inner w clause.2
  | [], _ => nofun
  | _ :: _, h => List.forall_mem_cons.2 ⟨h.1, h.2.mem⟩

theorem Stmt.CatchesHost.mem {inner : Rules} {w : Bool} :
    ∀ {catches : List (Option String × Option String × List Stmt)},
    Stmt.CatchesHost inner w catches → ∀ clause ∈ catches, Stmt.AllHost inner w clause.2.2
  | [], _ => nofun
  | _ :: _, h => List.forall_mem_cons.2 ⟨h.1, h.2.mem⟩

theorem Stmt.Hosts.inner {rules : Rules} {w : Bool} {s part : Stmt} (h : s.Hosts rules w)
    (hpart : part ∈ s.inner) : part.Hosts rules (s.mark w) := by
  cases s with
  | branch condition thenBody elifs elseBody =>
    obtain ⟨hthen, helifs, helse⟩ : AllHost rules w thenBody ∧ ElifsHost rules w elifs ∧
        AllHost rules w (elseBody.getD []) := by
      cases elseBody with
      | none => exact h
      | some body => exact h
    simp only [Stmt.inner, List.mem_append, List.mem_flatMap] at hpart
    rcases hpart with (hpart | ⟨clause, hclause, hpart⟩) | hpart
    · exact hthen.mem _ hpart
    · exact (helifs.mem _ hclause).mem _ hpart
    · exact helse.mem _ hpart
  | tryBlock body catches last =>
    obtain ⟨hbody, hcatches, hlast⟩ : AllHost rules w body ∧ CatchesHost rules w catches ∧
        AllHost rules w (last.getD []) := by
      cases last with
      | none => exact h
      | some last => exact h
    simp only [Stmt.inner, List.mem_append, List.mem_flatMap] at hpart
    rcases hpart with (hpart | ⟨clause, hclause, hpart⟩) | hpart
    · exact hbody.mem _ hpart
    · exact (hcatches.mem _ hclause).mem _ hpart
    · exact hlast.mem _ hpart
  | switch subject cases fallback =>
    obtain ⟨clause, hclause, hpart⟩ := List.mem_flatMap.1 hpart
    exact (CasesHost.mem h _ hclause).mem _ hpart
  | forLoop _ _ _ | whileLoop _ _ | repeatLoop _ _ => exact AllHost.mem h _ hpart
  | _ => cases hpart

theorem Shape.composed_any : Shape.Composed True (Shape.All fun _ => True) :=
  Shape.composed_all (fun _ _ _ => trivial) (fun _ _ _ _ => trivial)

/-- Where the functions are tidy, the routines are paced. -/
theorem carried_hosts {inner : Rules} (hret : (inner.of .ret).Allows true) :
    Stmt.Carried (fun _ => True) (Scope.Drafts (Paced inner none ·.code.toList)) True
      (fun _ => True) (fun w s => s.Hosts inner w) (Shape.All fun _ => True) where
  toCarried := carried_any Shape.composed_any.toCarried
  composed := Shape.composed_any
  statement.exprs _ _ _ := trivial
  statement.inner h _ hpart := h.inner hpart
  statement.out _ _ := trivial
  statement.attempt _ := .inl trivial
  statement.function := by
    intro w name parameters body h full
    have hbody : Rises false inner inner w true (Plan.statements body) 0 0 :=
      (Stmt.level_tidy inner inner).rises_all hret (f := true) body (Stmt.AllTidy.mem h)
    refine .inr fun sc a sc' hw hrun => ⟨?_, trivial⟩
    have hnames : false = true → parameters.Nodup := nofun
    obtain ⟨hg, hrest⟩ := Yields.routine hret hnames hbody sc hw a sc' hrun
    exact ⟨hg.inWhile, fun hr => (hrest ⟨nofun, nofun, by rintro _ ⟨⟩; exact hr⟩).1.routines _ rfl⟩
  statement.method h _ _ _ hmem := Stmt.MethodsTidy.function h hmem

end StackScript
