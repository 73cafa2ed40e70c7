import StackScript.Proofs.Code.Carried

/-!
# What plans draft

A plan enters routines into the tables and sets the mark for conditional loops back when it is
through with a loop.
-/

namespace StackScript

/-- The mark for conditional loops is as before, and the routines still satisfy `F`. -/
structure Scope.Drafts (F : Routine → Prop) (sc sc' : Scope) : Prop where
  inWhile : sc'.inWhile = sc.inWhile
  routines : (∀ r ∈ sc.routines, F r) → ∀ r ∈ sc'.routines, F r

theorem Scope.Rule.drafts (F : Routine → Prop) : Scope.Rule (fun _ => True) (Scope.Drafts F) where
  refl _ := ⟨rfl, id⟩
  trans h₁ h₂ := ⟨h₂.inWhile.trans h₁.inWhile, fun h => h₂.routines (h₁.routines h)⟩
  inWhile h := h.inWhile
  pushConstant _ _ := ⟨rfl, id⟩
  putGlobal _ := ⟨rfl, id⟩
  putLocal _ _ := ⟨rfl, id⟩
  loop h := ⟨rfl, h.routines⟩

/-- A property of code that passes from parts to the whole, for any expressions. -/
theorem carried_any {F : Routine → Prop} {P : Shape → Prop} (hP : Shape.Carried P) :
    Expr.Carried (fun _ => True) (Scope.Drafts F) (fun _ => True) P :=
  ⟨.drafts F, Datum.basic_all, hP, Expr.asked_any⟩

end StackScript
