import StackScript.Proofs.Text.Beginning
import StackScript.Proofs.Token.Spelling

/-!
# Lines that are scanned whatever follows

A scan looks ahead no further than to the end of a line, unless it is inside a literal. So what it
finds before the start of a line does not depend on what stands behind that start.
-/

namespace StackScript.Scanner

variable {u r w : List Char} {c : Char}

/-! ## Words that end before a line end -/

theorem dropWhile_append_left {p : Char → Bool} (h : (u ++ r).dropWhile p = w ++ r) (hw : w ≠ [])
    (r' : List Char) :
    (u ++ r').dropWhile p = w ++ r' ∧ (u ++ r').takeWhile p = (u ++ r).takeWhile p := by
  induction u with
  | nil =>
    have hlength := congrArg List.length h
    have hle : (r.dropWhile p).length ≤ r.length := (List.dropWhile_suffix p).length_le
    have hpos : 0 < w.length := List.length_pos_iff.2 hw
    simp only [List.nil_append, List.length_append] at hlength
    omega
  | cons c u ih =>
    by_cases hc : p c = true
    · rw [List.cons_append, List.dropWhile_cons_of_pos hc] at h
      obtain ⟨hdrop, htake⟩ := ih h
      simp only [List.cons_append, List.dropWhile_cons_of_pos hc, List.takeWhile_cons_of_pos hc]
      exact ⟨hdrop, by rw [htake]⟩
    · rw [List.cons_append, List.dropWhile_cons_of_neg hc] at h
      obtain rfl : c :: u = w := List.append_cancel_right h
      simp [hc]

/-- A word that is made of a stretch of characters does not depend on what follows behind the rest. -/
theorem stretch_append {p : Char → Bool} {word : Lexeme} (make : List Char → Lexeme)
    (h : some (make ((u ++ r).takeWhile p), (u ++ r).dropWhile p) = some (word, w ++ r)) (hw : w ≠ [])
    (r' : List Char) :
    some (make ((u ++ r').takeWhile p), (u ++ r').dropWhile p) = some (word, w ++ r') := by
  obtain ⟨hword, hrest⟩ := Prod.mk.inj (Option.some.inj h)
  obtain ⟨hdrop, htake⟩ := dropWhile_append_left hrest hw r'
  rw [hdrop, htake, hword]

theorem length_behindQuote_le (quote : Option Char) (text : List Char) :
    (behindQuote quote text).length ≤ text.length := by
  unfold behindQuote
  split
  · simp
  · exact Nat.le_refl _

theorem behindQuote_append {quote : Option Char} {n : Nat}
    (h : behindQuote quote ((u ++ r).drop n) = w ++ r) (hw : w ≠ []) (r' : List Char) :
    n < u.length ∧ behindQuote quote ((u ++ r').drop n) = w ++ r' := by
  have hn : n < u.length := by
    have hle := length_behindQuote_le quote ((u ++ r).drop n)
    have hpos : 0 < w.length := List.length_pos_iff.2 hw
    rw [h, List.length_drop, List.length_append, List.length_append] at hle
    omega
  refine ⟨hn, ?_⟩
  obtain ⟨d, more, hdrop⟩ : ∃ d more, u.drop n = d :: more :=
    List.exists_cons_of_length_pos (by rw [List.length_drop]; omega)
  rw [List.drop_append_of_le_length (Nat.le_of_lt hn), hdrop, List.cons_append] at h ⊢
  unfold behindQuote at h ⊢
  rw [List.head?_cons, List.tail_cons] at h ⊢
  by_cases hquote : some d = quote
  · rw [if_pos hquote] at h ⊢
    rw [List.append_cancel_right h]
  · rw [if_neg hquote] at h ⊢
    rw [← List.cons_append] at h ⊢
    rw [List.append_cancel_right h]

section Literals

variable {quote : Option Char} {rest : List Char} {e : Char}

theorem literalBody_close (h : some c = quote) : literalBody quote (c :: rest) = ([], 0) := by
  rw [literalBody.eq_def]
  simp only [h, if_true]

theorem literalBody_escape (h : some '\\' ≠ quote) : literalBody quote ('\\' :: e :: rest) =
    (unescape e :: (literalBody quote rest).1, (literalBody quote rest).2 + 2) := by
  rw [literalBody.eq_def]
  simp only [h, if_true, if_false]

theorem literalBody_plain (h : some c ≠ quote) (hc : c ≠ '\\') : literalBody quote (c :: rest) =
    (c :: (literalBody quote rest).1, (literalBody quote rest).2 + 1) := by
  rw [literalBody.eq_def]
  simp only [h, hc, if_false]

variable {text : List Char}

theorem formattedBody_close (h : some c = quote) :
    formattedBody quote text (c :: rest) = (withText text [], 0) := by
  rw [formattedBody.eq_def]
  simp only [h, if_true]

theorem formattedBody_escape (h : some '\\' ≠ quote) :
    formattedBody quote text ('\\' :: e :: rest) =
      ((formattedBody quote (unescape e :: text) rest).1,
        (formattedBody quote (unescape e :: text) rest).2 + 2) := by
  rw [formattedBody.eq_def]
  simp only [h, if_true, if_false]

theorem formattedBody_hole (h : some '{' ≠ quote) : formattedBody quote text ('{' :: rest) =
      (withText text (holeBody quote 0 [] rest).1, (holeBody quote 0 [] rest).2 + 1) := by
  rw [formattedBody.eq_def]
  simp [h]

theorem formattedBody_plain (h : some c ≠ quote) (hc : c ≠ '\\') (hb : c ≠ '{') :
    formattedBody quote text (c :: rest) = ((formattedBody quote (c :: text) rest).1,
      (formattedBody quote (c :: text) rest).2 + 1) := by
  rw [formattedBody.eq_def]
  simp only [h, hc, hb, if_false]

/-- The characters of a literal that ends before some text do not depend on that text. -/
theorem literalBody_append (quote : Option Char) : ∀ u r r' : List Char,
    (literalBody quote (u ++ r)).2 < u.length →
      literalBody quote (u ++ r') = literalBody quote (u ++ r)
  | [], _, _, h => absurd h (Nat.not_lt_zero _)
  | c :: u, r, r', h => by
    rw [List.cons_append, List.cons_append]
    by_cases hquote : some c = quote
    · rw [literalBody_close hquote, literalBody_close hquote]
    by_cases hescape : c = '\\'
    · subst hescape
      cases u with
      | nil =>
        cases r with
        | nil => simp [literalBody, hquote] at h
        | cons e r => simp [literalBody_escape hquote] at h
      | cons e u =>
        rw [List.cons_append, List.cons_append] at h ⊢
        rw [literalBody_escape hquote] at h ⊢
        have hless : (literalBody quote (u ++ r)).2 < u.length := by
          simpa using h
        rw [literalBody_escape hquote, literalBody_append quote u r r' hless]
    · rw [List.cons_append] at h
      rw [literalBody_plain hquote hescape] at h ⊢
      have hless : (literalBody quote (u ++ r)).2 < u.length := by
        simpa using h
      rw [literalBody_plain hquote hescape, literalBody_append quote u r r' hless]

mutual

theorem formattedBody_append (quote : Option Char) : ∀ text u r r' : List Char,
    (formattedBody quote text (u ++ r)).2 < u.length →
      formattedBody quote text (u ++ r') = formattedBody quote text (u ++ r)
  | _, [], _, _, h => absurd h (Nat.not_lt_zero _)
  | text, c :: u, r, r', h => by
    rw [List.cons_append, List.cons_append]
    by_cases hquote : some c = quote
    · rw [formattedBody_close hquote, formattedBody_close hquote]
    by_cases hescape : c = '\\'
    · subst hescape
      cases u with
      | nil =>
        cases r with
        | nil => simp [formattedBody, hquote] at h
        | cons e r => simp [formattedBody_escape hquote] at h
      | cons e u =>
        rw [List.cons_append, List.cons_append] at h ⊢
        rw [formattedBody_escape hquote] at h ⊢
        have hless : (formattedBody quote (unescape e :: text) (u ++ r)).2 < u.length := by
          simpa using h
        rw [formattedBody_escape hquote, formattedBody_append quote _ u r r' hless]
    by_cases hbrace : c = '{'
    · subst hbrace
      rw [List.cons_append] at h
      rw [formattedBody_hole hquote] at h ⊢
      have hless : (holeBody quote 0 [] (u ++ r)).2 < u.length := by
        simpa using h
      rw [formattedBody_hole hquote, holeBody_append quote 0 [] u r r' hless]
    · rw [List.cons_append] at h
      rw [formattedBody_plain hquote hescape hbrace] at h ⊢
      have hless : (formattedBody quote (c :: text) (u ++ r)).2 < u.length := by
        simpa using h
      rw [formattedBody_plain hquote hescape hbrace, formattedBody_append quote _ u r r' hless]

theorem holeBody_append (quote : Option Char) : ∀ (depth : Nat) (source u r r' : List Char),
    (holeBody quote depth source (u ++ r)).2 < u.length →
      holeBody quote depth source (u ++ r') = holeBody quote depth source (u ++ r)
  | _, _, [], _, _, h => absurd h (Nat.not_lt_zero _)
  | depth, source, c :: u, r, r', h => by
    rw [List.cons_append] at h ⊢
    rw [List.cons_append, holeBody, holeBody]
    rw [holeBody] at h
    by_cases hclose : (c = '}' && depth = 0) = true
    · rw [if_pos hclose] at h ⊢
      have hless : (formattedBody quote [] (u ++ r)).2 < u.length := by
        simpa using h
      rw [if_pos hclose, formattedBody_append quote [] u r r' hless]
    · rw [if_neg hclose] at h ⊢
      rw [if_neg hclose]
      dsimp only at h ⊢
      rw [holeBody_append quote _ _ u r r' (by simpa using h)]

end

end Literals

theorem isPrefixOf_append {m x : List Char} (hm : '\n' ∉ m) (hx : '\n' ∈ x) (r : List Char) :
    m.isPrefixOf (x ++ r) = m.isPrefixOf x := by
  obtain ⟨before, behind, rfl⟩ := List.append_of_mem hx
  rw [List.append_assoc, Text.isPrefixOf_append (by simpa using hm),
    Text.isPrefixOf_append (by simpa using hm)]

theorem newline_not_mem_marks : ∀ mark ∈ TokenKind.marks, '\n' ∉ mark.1.toList := by decide

theorem behindQuote_suffix (quote : Option Char) (text : List Char) :
    behindQuote quote text <:+ text := by
  unfold behindQuote
  split
  · exact List.tail_suffix text
  · exact List.suffix_rfl

/-- A word takes the first character of a text, and leaves an end of it. -/
theorem wordAt?_suffix {text rest : List Char} {word : Lexeme}
    (h : wordAt? c (c :: text) = some (word, rest)) : rest <:+ text := by
  unfold wordAt? at h
  split at h
  · cases h
    exact List.dropWhile_suffix _
  split at h
  · rename_i hdigit
    cases h
    rw [List.dropWhile_cons_of_pos (by simp [numberText, hdigit])]
    exact List.dropWhile_suffix _
  split at h
  · cases h
    exact (behindQuote_suffix _ _).trans (List.drop_suffix _ _)
  split at h
  · cases h
    exact (behindQuote_suffix _ _).trans ((List.drop_suffix _ _).trans (List.tail_suffix _))
  split at h
  · rename_i hletter
    cases h
    have hname : nameText c = true := by
      simp only [Bool.or_eq_true, decide_eq_true_eq] at hletter
      simp only [nameText, Bool.or_eq_true, beq_iff_eq]
      exact hletter.imp_left isNameChar_of_isLetter
    rw [List.dropWhile_cons_of_pos hname]
    exact List.dropWhile_suffix _
  · obtain ⟨mark, hfind, heq⟩ := Option.map_eq_some_iff.1 h
    cases heq
    have hmarks : ∀ mark ∈ TokenKind.marks, 0 < mark.1.length := by decide
    obtain ⟨n, hn⟩ : ∃ n, mark.1.length = n + 1 :=
      Nat.exists_eq_succ_of_ne_zero (Nat.ne_of_gt (hmarks mark (List.mem_of_find?_eq_some hfind)))
    rw [hn, List.drop_succ_cons]
    exact List.drop_suffix _ _

theorem find?_isPrefixOf_append (hu : '\n' ∈ u) (r : List Char) {marks : List (String × TokenKind)}
    (hmarks : ∀ mark ∈ marks, '\n' ∉ mark.1.toList) :
    (marks.find? fun mark => mark.1.toList.isPrefixOf (u ++ r)) =
      marks.find? fun mark => mark.1.toList.isPrefixOf u :=
  List.find?_congr fun mark hmark => isPrefixOf_append (hmarks mark hmark) hu r

theorem markAt?_append {word : Lexeme} (h : markAt? (u ++ r) = some (word, w ++ r)) (hu : '\n' ∈ u)
    (r' : List Char) : markAt? (u ++ r') = some (word, w ++ r') := by
  unfold markAt? at h ⊢
  rw [find?_isPrefixOf_append hu _ newline_not_mem_marks] at h ⊢
  obtain ⟨mark, hfind, heq⟩ := Option.map_eq_some_iff.1 h
  have hfound := List.find?_some hfind
  have hprefix : mark.1.toList <+: u := List.isPrefixOf_iff_prefix.1 hfound
  have hlength : mark.1.length ≤ u.length := by
    rw [← String.length_toList]
    exact hprefix.length_le
  rw [List.drop_append_of_le_length hlength] at heq
  obtain ⟨rfl, hrest⟩ := Prod.mk.inj heq
  rw [hfind, Option.map_some, List.drop_append_of_le_length hlength, List.append_cancel_right hrest]

/-- A word that ends before a line end is the same whatever follows that line end. -/
theorem wordAt?_append {word : Lexeme}
    (h : wordAt? c (c :: u ++ r) = some (word, w ++ r)) (hw : '\n' ∈ w) (r' : List Char) :
    wordAt? c (c :: u ++ r') = some (word, w ++ r') := by
  have hne : w ≠ [] := List.ne_nil_of_mem hw
  obtain ⟨before, hbefore⟩ := wordAt?_suffix h
  have hu : u = before ++ w := by
    rw [← List.append_assoc] at hbefore
    exact (List.append_cancel_right hbefore).symm
  have hmem : '\n' ∈ c :: u := by
    rw [hu]
    exact List.mem_cons_of_mem _ (List.mem_append_right _ hw)
  obtain ⟨d, more, rfl⟩ : ∃ d more, u = d :: more := by
    cases u with
    | nil => exact absurd (List.append_eq_nil_iff.1 hu.symm).2 hne
    | cons d more => exact ⟨d, more, rfl⟩
  unfold wordAt? at h ⊢
  split at h
  · rename_i hhash
    rw [if_pos hhash]
    exact stretch_append (u := d :: more)
      (fun run => (TokenKind.comment, String.ofList (Text.trim run))) h hne r'
  rename_i hhash
  rw [if_neg hhash]
  split at h
  · rename_i hdigit
    rw [if_pos hdigit]
    exact stretch_append (fun run => (TokenKind.number, String.ofList run)) h hne r'
  rename_i hdigit
  rw [if_neg hdigit]
  split at h
  · rename_i hquote
    rw [if_pos hquote]
    obtain ⟨hword, hrest⟩ := Prod.mk.inj (Option.some.inj h)
    obtain ⟨hless, hbehind⟩ := behindQuote_append (u := d :: more) hrest hne r'
    have hbody := literalBody_append (some c) (d :: more) r r' hless
    have hat : literalAt (c :: d :: more ++ r') = ((.string, String.ofList
        (literalBody (some c) (d :: more ++ r')).1), behindQuote (some c)
          ((d :: more ++ r').drop (literalBody (some c) (d :: more ++ r')).2)) := rfl
    rw [hat, hbody, ← hword]
    exact congrArg some (Prod.ext_iff.2 ⟨rfl, hbehind⟩)
  rename_i hquote
  rw [if_neg hquote]
  split at h
  · rename_i hletter
    have hletter' : (c = 'f' && ((c :: d :: more ++ r').tail.head? = some '"' ||
        (c :: d :: more ++ r').tail.head? = some '\'')) = true := hletter
    rw [if_pos hletter']
    obtain ⟨hword, hrest⟩ := Prod.mk.inj (Option.some.inj h)
    obtain ⟨hless, hbehind⟩ := behindQuote_append (u := more) hrest hne r'
    have hbody := formattedBody_append (some d) [] more r r' hless
    have hat : formattedAt (c :: d :: more ++ r') = ((.formatted, (Datum.list
        ((formattedBody (some d) [] (more ++ r')).1.map Piece.datum)).write),
          behindQuote (some d) ((more ++ r').drop (formattedBody (some d) [] (more ++ r')).2)) := rfl
    rw [hat, hbody, ← hword]
    exact congrArg some (Prod.ext_iff.2 ⟨rfl, hbehind⟩)
  rename_i hformatted
  have hformatted' : ¬ (c = 'f' && ((c :: d :: more ++ r').tail.head? = some '"' ||
      (c :: d :: more ++ r').tail.head? = some '\'')) = true := hformatted
  rw [if_neg hformatted']
  split at h
  · rename_i hletter
    rw [if_pos hletter]
    exact stretch_append (fun run => (TokenKind.ofWord (String.ofList run), String.ofList run)) h hne r'
  · rename_i hletter
    rw [if_neg hletter]
    exact markAt?_append h hmem r'

/-! ## Rounds that end before a line end -/

namespace View

variable {v v₁ : View} {words : List Lexeme} {lineStart : Bool} {indents : List Nat}

theorem turn?_suffix (h : v.turn? = some (words, v₁)) : v₁.rest <:+ v.rest := by
  obtain ⟨lineStart, indents, rest⟩ := v
  unfold turn? at h
  cases rest with
  | nil => cases h
  | cons c rest =>
    dsimp only at h ⊢
    split at h
    · cases h
      exact List.suffix_cons c rest
    split at h
    · cases h
      exact List.dropWhile_suffix _
    split at h
    · cases h
      exact List.dropWhile_suffix _
    · obtain ⟨⟨word, left⟩, hword, heq⟩ := Option.map_eq_some_iff.1 h
      cases heq
      exact (wordAt?_suffix hword).trans (List.suffix_cons c rest)

theorem eq_of_turn?_lineStart (h : v.turn? = some (words, v₁)) (hstart : v₁.lineStart = true) :
    v.rest = '\n' :: v₁.rest ∧ words = [(.newline, "\n")] ∧ v₁.indents = v.indents := by
  obtain ⟨lineStart, indents, rest⟩ := v
  unfold turn? at h
  cases rest with
  | nil => cases h
  | cons c rest =>
    dsimp only at h
    split at h
    · rename_i hc
      cases h
      exact ⟨by rw [hc], rfl, rfl⟩
    split at h
    · cases h
      cases hstart
    split at h
    · cases h
      cases hstart
    · obtain ⟨found, -, heq⟩ := Option.map_eq_some_iff.1 h
      cases heq
      cases hstart

theorem opening_append (h : (u ++ r).dropWhile isSpace = w ++ r) (hw : w ≠ []) (r' : List Char) :
    opening indents (u ++ r') = opening indents (u ++ r) := by
  obtain ⟨hdrop, htake⟩ := dropWhile_append_left h hw r'
  obtain ⟨d, more, rfl⟩ : ∃ d more, w = d :: more := List.exists_cons_of_ne_nil hw
  unfold opening lineWidth?
  rw [h, hdrop, htake]
  rfl

/-- A round that ends before a line end finds the same whatever follows that line end. -/
theorem turn?_append (h : (⟨lineStart, indents, u ++ r⟩ : View).turn? = some (words, v₁))
    (hrest : v₁.rest = w ++ r) (hw : '\n' ∈ w) (r' : List Char) :
    (⟨lineStart, indents, u ++ r'⟩ : View).turn? =
      some (words, ⟨v₁.lineStart, v₁.indents, w ++ r'⟩) := by
  have hne : w ≠ [] := List.ne_nil_of_mem hw
  have hlength := (turn?_suffix h).length_le
  have hpos : 0 < w.length := List.length_pos_iff.2 hne
  dsimp only at hlength
  rw [hrest, List.length_append, List.length_append] at hlength
  obtain ⟨c, u, rfl⟩ : ∃ c more, u = c :: more := List.exists_cons_of_length_pos (by omega)
  unfold turn? at h ⊢
  simp only [List.cons_append] at h ⊢
  split at h
  · rename_i hc
    cases h
    rw [if_pos hc]
    rw [List.append_cancel_right hrest]
  rename_i hc
  rw [if_neg hc]
  split at h
  · rename_i hstart
    rw [if_pos hstart]
    cases h
    rw [← List.cons_append] at hrest ⊢
    rw [opening_append hrest hne r', (dropWhile_append_left hrest hne r').1]
    rfl
  rename_i hstart
  rw [if_neg hstart]
  split at h
  · rename_i hspace
    rw [if_pos hspace]
    cases h
    rw [← List.cons_append] at hrest ⊢
    rw [(dropWhile_append_left hrest hne r').1]
  · rename_i hspace
    rw [if_neg hspace]
    obtain ⟨⟨word, left⟩, hword, heq⟩ := Option.map_eq_some_iff.1 h
    cases heq
    obtain rfl : left = w ++ r := hrest
    rw [← List.cons_append] at hword ⊢
    rw [wordAt?_append hword hw r']
    rfl

namespace Comes

theorem suffix (h : Comes v words v₁) : v₁.rest <:+ v.rest := by
  induction h with
  | refl => exact List.suffix_rfl
  | turn hturn _ ih => exact ih.trans (turn?_suffix hturn)

/-- What a scan finds before the start of a line does not depend on what stands behind that start.
If there is anything, then its last word is a line end. -/
theorem passage (h : Comes v words v₁) (hstart : v₁.lineStart = true) {a : List Char}
    (ha : v.rest = a ++ v₁.rest) : (a = [] ∧ words = [] ∧ v = v₁ ∨
      '\n' ∈ a ∧ ∃ front, words = front ++ [(.newline, "\n")]) ∧
    ∀ r, Comes ⟨v.lineStart, v.indents, a ++ r⟩ words ⟨true, v₁.indents, r⟩ := by
  induction h generalizing a with
  | refl =>
    have hnil : a = [] := by
      have hlength := congrArg List.length ha
      rw [List.length_append] at hlength
      exact List.length_eq_zero_iff.1 (by omega)
    subst hnil
    refine ⟨.inl ⟨rfl, rfl, rfl⟩, fun r => ?_⟩
    rw [hstart]
    exact .refl
  | @turn v v₂ v₁ found more hturn hcomes ih =>
    obtain ⟨a₂, ha₂⟩ := hcomes.suffix
    have ih := ih hstart ha₂.symm
    rcases ih with ⟨⟨rfl, rfl, rfl⟩ | ⟨hmem, front, rfl⟩, hpass⟩
    · obtain ⟨hrest, rfl, hindents⟩ := eq_of_turn?_lineStart hturn hstart
      obtain rfl : a = ['\n'] := by
        rw [ha, ← List.singleton_append] at hrest
        exact List.append_cancel_right hrest
      refine ⟨.inr ⟨by simp, [], rfl⟩, fun r => ?_⟩
      rw [hindents]
      exact single (by simp [turn?])
    · obtain ⟨b, hb⟩ := turn?_suffix hturn
      rw [ha, ← ha₂, ← List.append_assoc] at hb
      obtain rfl : b ++ a₂ = a := List.append_cancel_right hb
      refine ⟨.inr ⟨List.mem_append_right _ hmem, found ++ front, ?_⟩, fun r => ?_⟩
      · rw [List.append_assoc]
      · obtain ⟨lineStart, indents, rest⟩ := v
        dsimp only at ha ⊢
        subst ha
        exact .turn (turn?_append hturn ha₂.symm hmem r) (hpass r)

end Comes

end View

end StackScript.Scanner
