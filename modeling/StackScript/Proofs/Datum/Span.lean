import StackScript.Datum.Reader
import StackScript.Proofs.Text.Beginning

/-!
# How far words and numbers reach

A word or a number in a list or a table ends where a comma or a bracket follows. So what makes up a
whole text is read in the same way wherever it stands.
-/

namespace StackScript.Datum

/-- Characters after a written value: none of them carries a number on. -/
def Closes (rest : List Char) : Prop :=
  ∀ c ∈ rest.head?, c = ',' ∨ c = ']' ∨ c = '}'

theorem closes_nil : Closes [] := by simp [Closes]

theorem closes_cons {c : Char} (h : c = ',' ∨ c = ']' ∨ c = '}') (rest : List Char) :
    Closes (c :: rest) := by simpa [Closes] using h

variable {rest : List Char} {d : Datum}

theorem Closes.takeWhile_isDigit (h : Closes rest) : rest.takeWhile Char.isDigit = [] := by
  cases rest with
  | nil => rfl
  | cons c rest => rcases h c rfl with rfl | rfl | rfl <;> rfl

/-! ## Numbers -/

/-- The length of the fraction at the start of the characters. -/
def fractionSpan : List Char → Nat
  | '.' :: more => match (more.takeWhile Char.isDigit).length with
    | 0 => 0
    | n + 1 => n + 2
  | _ => 0

/-- The length of the exponent at the start of the characters. -/
def exponentSpan : List Char → Nat
  | e :: more =>
    if e == 'e' || e == 'E' then
      let signed := match more with
        | s :: _ => if s == '+' || s == '-' then 1 else 0
        | [] => 0
      match ((more.drop signed).takeWhile Char.isDigit).length with
      | 0 => 0
      | n + 1 => 1 + signed + n + 1
    else 0
  | [] => 0

/-- The length of the sign at the start of the characters. -/
def signSpan (cs : List Char) : Nat := if cs.head? == some '-' then 1 else 0

/-- The length of the whole part of a number, whose digits are given. -/
def wholeSpan : List Char → Nat
  | [] => 0
  | first :: more => if first == '0' then 1 else (first :: more).length

theorem numberSpan_eq (cs : List Char) : numberSpan cs =
    if ((cs.drop (signSpan cs)).takeWhile Char.isDigit).isEmpty then none
    else
      let whole := signSpan cs + wholeSpan ((cs.drop (signSpan cs)).takeWhile Char.isDigit)
      let fraction := fractionSpan (cs.drop whole)
      let exponent := exponentSpan (cs.drop (whole + fraction))
      some (whole + fraction + exponent, decide (0 < fraction + exponent)) := by
  have hsign : (if cs.head? == some '-' then 1 else 0) = signSpan cs := rfl
  unfold numberSpan
  simp only [hsign]
  cases (cs.drop (signSpan cs)).takeWhile Char.isDigit with
  | nil => rfl
  | cons first more => rfl

section Span

variable {rest : List Char} (hr : Closes rest)
include hr

theorem Closes.takeWhile_append (cs : List Char) :
    (cs ++ rest).takeWhile Char.isDigit = cs.takeWhile Char.isDigit := by
  induction cs with
  | nil => exact hr.takeWhile_isDigit
  | cons c cs ih => simp only [List.cons_append, List.takeWhile_cons, ih]

theorem Closes.fractionSpan_append (cs : List Char) :
    fractionSpan (cs ++ rest) = fractionSpan cs := by
  cases cs with
  | nil =>
    cases rest with
    | nil => rfl
    | cons c rest => rcases hr c rfl with rfl | rfl | rfl <;> rfl
  | cons c cs =>
    rw [List.cons_append]
    by_cases hc : c = '.'
    · subst hc
      show (match ((cs ++ rest).takeWhile Char.isDigit).length with
        | 0 => 0
        | n + 1 => n + 2) = _
      rw [hr.takeWhile_append]
      rfl
    · rw [fractionSpan.eq_def, fractionSpan.eq_def]
      simp [hc]

theorem Closes.exponentSpan_append (cs : List Char) :
    exponentSpan (cs ++ rest) = exponentSpan cs := by
  cases cs with
  | nil =>
    cases rest with
    | nil => rfl
    | cons c rest => rcases hr c rfl with rfl | rfl | rfl <;> rfl
  | cons c cs =>
    cases cs with
    | nil =>
      cases rest with
      | nil => rfl
      | cons d rest => rcases hr d rfl with rfl | rfl | rfl <;> rfl
    | cons d cs =>
      have hdrop (n : Nat) (hn : n ≤ 1) : (d :: cs ++ rest).drop n = (d :: cs).drop n ++ rest :=
        List.drop_append_of_le_length (by simp; omega)
      simp only [List.cons_append, exponentSpan]
      rw [← List.cons_append, hdrop _ (by split <;> omega), hr.takeWhile_append]

end Span

theorem fractionSpan_le (cs : List Char) : fractionSpan cs ≤ cs.length := by
  unfold fractionSpan
  split
  · rename_i more
    have := (List.takeWhile_prefix Char.isDigit (l := more)).length_le
    split <;> simp only [List.length_cons] <;> omega
  · omega

theorem exponentSpan_le (cs : List Char) : exponentSpan cs ≤ cs.length := by
  unfold exponentSpan
  split
  · rename_i e more
    split
    · dsimp only
      generalize (match more with
        | s :: _ => if s == '+' || s == '-' then 1 else 0
        | [] => 0) = signed
      have h := (List.takeWhile_prefix Char.isDigit (l := more.drop signed)).length_le
      rw [List.length_drop] at h
      split <;> simp only [List.length_cons] <;> omega
    · omega
  · omega

theorem Closes.numberSpan_append (hr : Closes rest) (cs : List Char) :
    numberSpan (cs ++ rest) = numberSpan cs ∧
      ∀ count isDecimal, numberSpan cs = some (count, isDecimal) → count ≤ cs.length := by
  have hsign : signSpan (cs ++ rest) = signSpan cs ∧ signSpan cs ≤ cs.length := by
    cases cs with
    | nil =>
      cases rest with
      | nil => exact ⟨rfl, Nat.le_refl _⟩
      | cons c rest => rcases hr c rfl with rfl | rfl | rfl <;> exact ⟨rfl, Nat.le_refl _⟩
    | cons c cs =>
      refine ⟨rfl, ?_⟩
      unfold signSpan
      split <;> simp
  have hdrop {n : Nat} (hn : n ≤ cs.length) : (cs ++ rest).drop n = cs.drop n ++ rest :=
    List.drop_append_of_le_length hn
  have hdigits : ((cs ++ rest).drop (signSpan cs)).takeWhile Char.isDigit =
      (cs.drop (signSpan cs)).takeWhile Char.isDigit := by
    rw [hdrop hsign.2, hr.takeWhile_append]
  rw [numberSpan_eq, numberSpan_eq, hsign.1, hdigits]
  have hprefix := (List.takeWhile_prefix Char.isDigit (l := cs.drop (signSpan cs))).length_le
  rw [List.length_drop] at hprefix
  generalize (cs.drop (signSpan cs)).takeWhile Char.isDigit = digits at *
  cases digits with
  | nil => exact ⟨rfl, nofun⟩
  | cons first more =>
    simp only [List.isEmpty_cons, Bool.false_eq_true, if_false]
    have hwhole : signSpan cs + wholeSpan (first :: more) ≤ cs.length := by
      simp only [wholeSpan, List.length_cons] at hprefix ⊢
      split <;> omega
    generalize signSpan cs + wholeSpan (first :: more) = whole at *
    have hfraction := fractionSpan_le (cs.drop whole)
    rw [hdrop hwhole, hr.fractionSpan_append]
    rw [List.length_drop] at hfraction
    generalize fractionSpan (cs.drop whole) = fraction at *
    have hexponent := exponentSpan_le (cs.drop (whole + fraction))
    rw [hdrop (by omega), hr.exponentSpan_append]
    rw [List.length_drop] at hexponent
    refine ⟨rfl, fun count isDecimal h => ?_⟩
    cases h
    omega

theorem Closes.find?_words (hr : Closes rest) (cs : List Char) :
    words.find? (fun word => word.1.toList.isPrefixOf (cs ++ rest)) =
      words.find? (fun word => word.1.toList.isPrefixOf cs) := by
  have hwords : words.all (fun entry => entry.1.toList.all
      fun c => decide (c ≠ ',' ∧ c ≠ ']' ∧ c ≠ '}')) = true := by decide
  refine List.find?_congr fun entry hentry => Text.isPrefixOf_append fun c hc hmem => ?_
  have hc' := of_decide_eq_true (List.all_eq_true.1 (List.all_eq_true.1 hwords entry hentry) c hmem)
  exact (hr c hc).elim hc'.1 fun hc => hc.elim hc'.2.1 hc'.2.2

/-- An atom that makes up all characters is read where closing characters follow. -/
theorem Closes.readAtom_append {cs : List Char} (hr : Closes rest) {offset offset' : Nat}
    (h : readAtom ⟨offset, cs⟩ = .ok (d, ⟨offset', []⟩)) (start : Nat) :
    ∃ end', readAtom ⟨start, cs ++ rest⟩ = .ok (d, ⟨end', rest⟩) := by
  -- the span is no longer than the characters, and leaves none of them
  have hafter {n : Nat} (hle : n ≤ cs.length) (hall : cs.drop n = []) :
      (cs ++ rest).drop n = rest := by
    rw [List.drop_append_of_le_length hle, hall, List.nil_append]
  rw [readAtom, hr.find?_words]
  rw [readAtom] at h
  cases hword : words.find? (fun word => word.1.toList.isPrefixOf cs) with
  | some entry =>
    simp only [hword, Except.ok.injEq, Prod.mk.injEq, Input.mk.injEq] at h
    obtain ⟨rfl, rfl, hrest⟩ := h
    have hle : entry.1.length ≤ cs.length := by
      have hprefix := List.find?_some hword
      rw [← String.length_toList]
      exact (List.isPrefixOf_iff_prefix.1 hprefix).length_le
    exact ⟨start + entry.1.length, by simp only [hafter hle hrest]⟩
  | none =>
    simp only [hword, readNumber] at h
    simp only [readNumber, (hr.numberSpan_append cs).1]
    cases hnumber : numberSpan cs with
    | none =>
      rw [hnumber] at h
      cases h
    | some span =>
      obtain ⟨count, isDecimal⟩ := span
      have hle := (hr.numberSpan_append cs).2 count isDecimal hnumber
      simp only [hnumber] at h
      simp only [List.take_append_of_le_length hle]
      generalize Number.takeSign (cs.take count) = signed at h ⊢
      split at h
      · rename_i hdecimal
        split at h
        · rename_i x hx
          simp only [Except.ok.injEq, Prod.mk.injEq, Input.mk.injEq] at h
          obtain ⟨rfl, rfl, hrest⟩ := h
          exact ⟨start + count, by simp only [hdecimal, if_true, hafter hle hrest]⟩
        · cases h
      · rename_i hdecimal
        split at h
        · cases h
        · rename_i hlong
          simp only [Except.ok.injEq, Prod.mk.injEq, Input.mk.injEq] at h
          obtain ⟨rfl, rfl, hrest⟩ := h
          exact ⟨start + count, by simp only [if_neg hdecimal, if_neg hlong, hafter hle hrest]⟩

theorem rest_readAtom {input after : Input} (h : readAtom input = .ok (d, after)) :
    ∃ n, after.rest = input.rest.drop n := by
  unfold readAtom readNumber at h
  split at h
  · cases h
    exact ⟨_, rfl⟩
  · split at h
    · cases h
    · dsimp only at h
      split at h
      · split at h <;> cases h
        exact ⟨_, rfl⟩
      · split at h <;> cases h
        exact ⟨_, rfl⟩

end StackScript.Datum
