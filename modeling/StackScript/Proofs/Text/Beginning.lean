import Mathlib.Data.List.Find

/-!
# Beginnings of texts

Whether a text starts with a word does not depend on what follows a character that the word lacks.
-/

namespace StackScript.Text

theorem isPrefixOf_append {word a b : List Char} (h : ∀ c ∈ b.head?, c ∉ word) :
    word.isPrefixOf (a ++ b) = word.isPrefixOf a := by
  induction word generalizing a with
  | nil => rfl
  | cons d word ih =>
    have hword : ∀ c ∈ b.head?, c ∉ word := fun c hc hmem => h c hc (List.mem_cons_of_mem _ hmem)
    cases a with
    | cons c a => rw [List.cons_append, List.isPrefixOf, List.isPrefixOf, ih hword]
    | nil =>
      cases b with
      | nil => rfl
      | cons c b =>
        have hne : d ≠ c := fun heq => h c rfl (heq ▸ List.mem_cons_self)
        simp [List.isPrefixOf, hne]

end StackScript.Text
