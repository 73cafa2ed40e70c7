import Mathlib.Data.List.TakeWhile
import Mathlib.Order.Monotone.Basic
import StackScript.Proofs.Token.Passage

/-!
# Changing the widths of lines

Of the widths of lines only their order counts: if each line of code is moved from its width to the
width that an increasing function gives for it, then a scan finds the same words as before.

* `Token.spelling_reindent`: the whole scan.
-/

namespace StackScript

namespace Scanner

variable {g : Nat → Nat} {c : Char} {line text rest : List Char} {indents : List Nat} {width : Nat}

/-! ## Texts with their lines moved -/

/-- A line of code with new blanks in front; a line without code stays. -/
def reindentLine (g : Nat → Nat) (line : List Char) : List Char :=
  match lineWidth? line with
  | some width => List.replicate (g width) ' ' ++ line.dropWhile isSpace
  | none => line

/-- The text with each line of code moved to the width that a function gives for its own. -/
def reindent (g : Nat → Nat) (text : List Char) : List Char :=
  ['\n'].intercalate ((text.splitOn '\n').map (reindentLine g))

/-- The text with all lines of code but the first moved. -/
def reindentRest (g : Nat → Nat) (text : List Char) : List Char :=
  match text.splitOn '\n' with
  | [] => []
  | line :: lines => ['\n'].intercalate (line :: lines.map (reindentLine g))

theorem reindent_line (h : '\n' ∉ line) : reindent g line = reindentLine g line := by
  rw [reindent, List.splitOn_eq_singleton h, List.map_singleton, List.intercalate_singleton]

theorem intercalate_reindent :
    ['\n'].intercalate (line :: (rest.splitOn '\n').map (reindentLine g)) =
      line ++ '\n' :: reindent g rest := by
  rw [List.intercalate_cons_of_ne_nil (by simp), List.append_assoc, List.singleton_append, reindent]

theorem reindent_lineEnd (h : '\n' ∉ line) :
    reindent g (line ++ '\n' :: rest) = reindentLine g line ++ '\n' :: reindent g rest := by
  rw [reindent, List.splitOn_append_cons_self_of_not_mem h, List.map_cons, intercalate_reindent]

theorem reindentRest_line (h : '\n' ∉ line) : reindentRest g line = line := by
  rw [reindentRest, List.splitOn_eq_singleton h]
  exact List.intercalate_singleton

theorem reindentRest_lineEnd (h : '\n' ∉ line) :
    reindentRest g (line ++ '\n' :: rest) = line ++ '\n' :: reindent g rest := by
  rw [reindentRest, List.splitOn_append_cons_self_of_not_mem h]
  exact intercalate_reindent

/-- A text is one line, or has a first line that ends. -/
theorem line_cases (text : List Char) :
    '\n' ∉ text ∨ ∃ line rest, text = line ++ '\n' :: rest ∧ '\n' ∉ line := by
  by_cases h : '\n' ∈ text
  · exact .inr (List.eq_append_cons_of_mem h)
  · exact .inl h

theorem reindentRest_append {front : List Char} (h : '\n' ∉ front) :
    reindentRest g (front ++ text) = front ++ reindentRest g text := by
  rcases line_cases text with hline | ⟨line, rest, rfl, hline⟩
  · rw [reindentRest_line hline, reindentRest_line (by simp [h, hline])]
  · rw [reindentRest_lineEnd hline, ← List.append_assoc, reindentRest_lineEnd (by simp [h, hline]),
      List.append_assoc]

theorem reindentRest_newline : reindentRest g ('\n' :: rest) = '\n' :: reindent g rest :=
  reindentRest_lineEnd (List.not_mem_nil)

theorem newline_not_mem_takeWhile : '\n' ∉ text.takeWhile isSpace := by
  intro h
  have hspace : isSpace '\n' = true := List.mem_takeWhile_imp h
  exact absurd hspace (by decide)

theorem head?_reindentRest (g : Nat → Nat) (text : List Char) :
    (reindentRest g text).head? = text.head? := by
  cases text with
  | nil => rfl
  | cons c rest =>
    by_cases hc : c = '\n'
    · rw [hc, reindentRest_newline]
      rfl
    · have hfront : '\n' ∉ [c] := by simpa using Ne.symm hc
      rw [← List.singleton_append, reindentRest_append hfront]
      rfl

theorem takeDropWhile_reindentRest (g : Nat → Nat) (text : List Char) :
    (reindentRest g text).takeWhile isSpace = text.takeWhile isSpace ∧
      (reindentRest g text).dropWhile isSpace = reindentRest g (text.dropWhile isSpace) := by
  have hsplit : text.takeWhile isSpace ++ text.dropWhile isSpace = text :=
    List.takeWhile_append_dropWhile
  have hblanks : ∀ c ∈ text.takeWhile isSpace, isSpace c = true := fun c => List.mem_takeWhile_imp
  have hhead := List.head?_dropWhile_not isSpace text
  have htext : reindentRest g text =
      text.takeWhile isSpace ++ reindentRest g (text.dropWhile isSpace) := by
    rw [← reindentRest_append newline_not_mem_takeWhile, hsplit]
  rw [← head?_reindentRest g] at hhead
  rw [htext, List.takeWhile_append_of_pos hblanks, List.dropWhile_append_of_pos hblanks]
  cases hcode : reindentRest g (text.dropWhile isSpace) with
  | nil => simp
  | cons d more =>
    rw [hcode] at hhead
    have hd : isSpace d = false := hhead
    simp [hd]

theorem lineWidth?_lineEnd : lineWidth? (line ++ '\n' :: rest) = lineWidth? line := by
  unfold lineWidth?
  cases hcode : line.dropWhile isSpace with
  | nil =>
    have hdrop : (line ++ '\n' :: rest).dropWhile isSpace = '\n' :: rest := by
      rw [List.dropWhile_append, hcode]
      rfl
    rw [hdrop]
    rfl
  | cons d more =>
    have hdrop : (line ++ '\n' :: rest).dropWhile isSpace = d :: more ++ '\n' :: rest := by
      rw [List.dropWhile_append, hcode]
      rfl
    obtain ⟨-, htake⟩ := dropWhile_append_left hdrop (List.cons_ne_nil d more) []
    rw [List.append_nil] at htake
    rw [hdrop, htake]
    rfl

theorem dropWhile_of_lineWidth? (h : lineWidth? text = some width) :
    ∃ d more, text.dropWhile isSpace = d :: more ∧ d ≠ '\n' ∧ d ≠ '#' ∧ isSpace d = false ∧
      widthOf (text.takeWhile isSpace) = width := by
  have hhead := List.head?_dropWhile_not isSpace text
  unfold lineWidth? at h
  cases hcode : text.dropWhile isSpace with
  | nil => simp [hcode] at h
  | cons d more =>
    rw [hcode] at h hhead
    simp only [Bool.or_eq_true, decide_eq_true_eq] at h
    split at h
    · cases h
    · rename_i hd
      rw [not_or] at hd
      exact ⟨d, more, rfl, hd.1, hd.2, hhead, Option.some.inj h⟩

/-- What becomes of the line at the start of a text. -/
theorem reindent_eq (g : Nat → Nat) (text : List Char) : reindent g text =
    match lineWidth? text with
    | some width => List.replicate (g width) ' ' ++ reindentRest g (text.dropWhile isSpace)
    | none => reindentRest g text := by
  rcases line_cases text with hline | ⟨line, rest, rfl, hline⟩
  · have hcode : '\n' ∉ text.dropWhile isSpace := fun h => hline ((List.dropWhile_suffix _).subset h)
    rw [reindent_line hline, reindentLine, reindentRest_line hline, reindentRest_line hcode]
  · have hcode : '\n' ∉ line.dropWhile isSpace := fun h => hline ((List.dropWhile_suffix _).subset h)
    rw [reindent_lineEnd hline, reindentLine, lineWidth?_lineEnd]
    cases hwidth : lineWidth? line with
    | none => exact (reindentRest_lineEnd hline).symm
    | some width =>
      obtain ⟨d, more, hdrop, -⟩ := dropWhile_of_lineWidth? hwidth
      have htext : (line ++ '\n' :: rest).dropWhile isSpace = line.dropWhile isSpace ++ '\n' :: rest := by
        rw [List.dropWhile_append, hdrop]
        rfl
      dsimp only
      rw [htext, reindentRest_lineEnd hcode, List.append_assoc]

theorem lineWidth?_reindentRest : lineWidth? (reindentRest g text) = lineWidth? text := by
  obtain ⟨htake, hdrop⟩ := takeDropWhile_reindentRest g text
  have hhead : ((reindentRest g text).dropWhile isSpace).head? = (text.dropWhile isSpace).head? := by
    rw [hdrop, head?_reindentRest]
  unfold lineWidth?
  rw [htake]
  revert hhead
  cases (reindentRest g text).dropWhile isSpace <;> cases text.dropWhile isSpace <;> simp_all

/-- The blanks of a line of code that has been moved. -/
theorem takeDropWhile_reindent (hwidth : lineWidth? text = some width) :
    (reindent g text).takeWhile isSpace = List.replicate (g width) ' ' ∧
      (reindent g text).dropWhile isSpace = reindentRest g (text.dropWhile isSpace) := by
  obtain ⟨d, more, hdrop, -, -, hspace, -⟩ := dropWhile_of_lineWidth? hwidth
  have hblanks : ∀ c ∈ List.replicate (g width) ' ', isSpace c = true := by
    intro c hc
    rw [List.eq_of_mem_replicate hc]
    rfl
  have hhead : (reindentRest g (text.dropWhile isSpace)).head? = some d := by
    rw [head?_reindentRest, hdrop]
    rfl
  obtain ⟨more', hcode⟩ := List.head?_eq_some_iff.1 hhead
  have hreindent : reindent g text = List.replicate (g width) ' ' ++ d :: more' := by
    rw [reindent_eq, hwidth, ← hcode]
  rw [hreindent, hcode, List.takeWhile_append_of_pos hblanks, List.dropWhile_append_of_pos hblanks]
  simp [hspace]

theorem dropWhile_reindent (g : Nat → Nat) (text : List Char) :
    (reindent g text).dropWhile isSpace = reindentRest g (text.dropWhile isSpace) := by
  cases hwidth : lineWidth? text with
  | none =>
    rw [reindent_eq, hwidth]
    exact (takeDropWhile_reindentRest g text).2
  | some width => exact (takeDropWhile_reindent hwidth).2

theorem lineWidth?_reindent (g : Nat → Nat) (text : List Char) :
    lineWidth? (reindent g text) = (lineWidth? text).map g := by
  cases hwidth : lineWidth? text with
  | none =>
    rw [reindent_eq, hwidth]
    exact lineWidth?_reindentRest.trans hwidth
  | some width =>
    obtain ⟨d, more, hdrop, hnewline, hcomment, -⟩ := dropWhile_of_lineWidth? hwidth
    obtain ⟨htake, hcode⟩ := takeDropWhile_reindent (g := g) hwidth
    have hhead : ((reindent g text).dropWhile isSpace).head? = some d := by
      rw [hcode, head?_reindentRest, hdrop]
      rfl
    obtain ⟨more', hcode'⟩ := List.head?_eq_some_iff.1 hhead
    unfold lineWidth?
    rw [hcode', htake]
    simp [hnewline, hcomment, widthOf, List.count_replicate]

theorem reindent_newline : reindent g ('\n' :: rest) = '\n' :: reindent g rest :=
  reindent_lineEnd (List.not_mem_nil)

/-- The text of a line that does not end at once does not end at once afterwards. -/
theorem exists_reindent_cons (g : Nat → Nat) (hc : c ≠ '\n') (rest : List Char) :
    ∃ d more, reindent g (c :: rest) = d :: more ∧ d ≠ '\n' := by
  rw [reindent_eq]
  cases hwidth : lineWidth? (c :: rest) with
  | none =>
    obtain ⟨more, hmore⟩ := List.head?_eq_some_iff.1
      (head?_reindentRest g (c :: rest))
    exact ⟨c, more, hmore, hc⟩
  | some width =>
    obtain ⟨d, more, hdrop, hnewline, -⟩ := dropWhile_of_lineWidth? hwidth
    dsimp only
    rw [hdrop]
    cases g width with
    | zero =>
      obtain ⟨more', hmore⟩ := List.head?_eq_some_iff.1 (head?_reindentRest g (d :: more))
      exact ⟨d, more', hmore, hnewline⟩
    | succ n => exact ⟨' ', _, rfl, by decide⟩

/-! ## Rounds of a scan -/

/-- Only the order of the widths counts for the blocks that a line opens and closes. -/
theorem indentation_map (hg : StrictMono g) (hzero : g 0 = 0) (indents : List Nat) (width : Nat) :
    indentation (indents.map g) (g width) =
      ((indentation indents width).1, (indentation indents width).2.map g) := by
  have htop : (indents.map g).headD 0 = g (indents.headD 0) := by
    cases indents with
    | nil => exact hzero.symm
    | cons w rest => rfl
  have hwider : ((fun w => decide (g width < w)) ∘ g) = fun w => decide (width < w) := by
    funext w
    simp [hg.lt_iff_lt]
  unfold indentation
  rw [htop, List.takeWhile_map, List.dropWhile_map, hwider]
  by_cases hwide : indents.headD 0 < width
  · rw [if_pos hwide, if_pos (hg.lt_iff_lt.2 hwide)]
    rfl
  · rw [if_neg hwide, if_neg (mt hg.lt_iff_lt.1 hwide), List.map_map]
    rfl

theorem opening_reindent (hg : StrictMono g) (hzero : g 0 = 0) (indents : List Nat) (text : List Char) :
    opening (indents.map g) (reindent g text) =
      ((opening indents text).1, (opening indents text).2.map g) := by
  unfold opening
  rw [lineWidth?_reindent]
  cases lineWidth? text with
  | none => rfl
  | some width => exact indentation_map hg hzero indents width

/-- A character that starts no word starts none if later lines are changed. -/
theorem wordAt?_none_append {u r : List Char} (h : wordAt? c (c :: u ++ r) = none)
    (hu : '\n' ∈ u) (r' : List Char) : wordAt? c (c :: u ++ r') = none := by
  obtain ⟨d, more, rfl⟩ : ∃ d more, u = d :: more := List.exists_cons_of_ne_nil (List.ne_nil_of_mem hu)
  unfold wordAt? at h ⊢
  simp only [List.cons_append, List.tail_cons, List.head?_cons] at h ⊢
  split at h
  · cases h
  split at h
  · cases h
  split at h
  · cases h
  split at h
  · cases h
  split at h
  · cases h
  · rename_i hcomment hdigit hquote hformatted hletter
    have hmem : '\n' ∈ c :: d :: more := List.mem_cons_of_mem _ hu
    rw [if_neg hcomment, if_neg hdigit, if_neg hquote]
    refine (if_neg hformatted).trans ?_
    rw [if_neg hletter]
    unfold markAt? at h ⊢
    rw [← List.cons_append, ← List.cons_append, find?_isPrefixOf_append hmem _ newline_not_mem_marks,
      Option.map_eq_none_iff] at h ⊢
    exact h

namespace View

variable {v v₁ : View} {words : List Lexeme}

/-- The view of a scan of the text with its lines moved. -/
def reindented (g : Nat → Nat) (v : View) : View :=
  ⟨v.lineStart, v.indents.map g, if v.lineStart then reindent g v.rest else reindentRest g v.rest⟩

/-- If a word comes next, then it does not go over the end of the line. -/
def KeepsLine (v : View) : Prop :=
  v.lineStart = false → ∀ c ∈ v.rest.head?, ∀ found ∈ wordAt? c v.rest,
    '\n' ∉ v.rest.take (v.rest.length - found.2.length)

instance (v : View) : Decidable v.KeepsLine :=
  haveI (c : Char) : Decidable (∀ found ∈ wordAt? c v.rest,
      '\n' ∉ v.rest.take (v.rest.length - found.2.length)) := Option.decidableForallMem _
  haveI : Decidable (∀ c ∈ v.rest.head?, ∀ found ∈ wordAt? c v.rest,
      '\n' ∉ v.rest.take (v.rest.length - found.2.length)) := Option.decidableForallMem _
  inferInstanceAs (Decidable (v.lineStart = false → _))

/-- A word that does not go over the end of the line is read alike if later lines are moved. -/
theorem wordAt?_reindentRest (hc : c ≠ '\n') (hline : ∀ found ∈ wordAt? c (c :: rest),
      '\n' ∉ (c :: rest).take ((c :: rest).length - found.2.length)) :
    wordAt? c (reindentRest g (c :: rest)) =
      (wordAt? c (c :: rest)).map fun found => (found.1, reindentRest g found.2) := by
  cases hword : wordAt? c (c :: rest) with
  | none =>
    rcases line_cases (c :: rest) with hnone | ⟨line, rest', htext, hnone⟩
    · rw [reindentRest_line hnone, hword]
      rfl
    · cases line with
      | nil => exact absurd (List.cons.inj htext).1 hc
      | cons d u =>
        obtain ⟨rfl, rfl⟩ := List.cons.inj htext
        rw [htext, reindentRest_lineEnd hnone]
        have hlater := wordAt?_none_append (u := u ++ ['\n']) (r := rest')
          (by simpa using hword) (by simp) (reindent g rest')
        simpa using hlater
  | some found =>
    obtain ⟨word, left⟩ := found
    obtain ⟨taken, rfl⟩ := wordAt?_suffix hword
    have htaken : '\n' ∉ c :: taken := by
      have hnone := hline (word, left) hword
      have hlength : (c :: (taken ++ left)).length - left.length = (c :: taken).length := by
        simp only [List.length_cons, List.length_append]
        omega
      rw [hlength, ← List.cons_append, List.take_left] at hnone
      exact hnone
    rw [← List.cons_append, reindentRest_append htaken]
    rcases line_cases left with hnone | ⟨line, rest', rfl, hnone⟩
    · rw [reindentRest_line hnone, List.cons_append, hword, Option.map_some, reindentRest_line hnone]
    · have hword : wordAt? c (c :: (taken ++ line ++ ['\n']) ++ rest') =
          some (word, (line ++ ['\n']) ++ rest') := by simpa using hword
      have hlater := wordAt?_append hword (by simp) (reindent g rest')
      rw [Option.map_some, reindentRest_lineEnd hnone]
      simpa using hlater

/-- A round before and after the lines are moved. -/
theorem turn?_reindented (hg : StrictMono g) (hzero : g 0 = 0) (hline : v.KeepsLine) :
    (v.reindented g).turn? = v.turn?.map fun next => (next.1, next.2.reindented g) := by
  obtain ⟨lineStart, indents, rest⟩ := v
  cases rest with
  | nil => cases lineStart <;> rfl
  | cons c rest =>
    by_cases hc : c = '\n'
    · subst hc
      cases lineStart <;> simp [turn?, reindented, reindent_newline, reindentRest_newline]
    cases lineStart with
    | true =>
      obtain ⟨d, more, hreindent, hd⟩ := exists_reindent_cons g hc rest
      have hopening := opening_reindent hg hzero indents (c :: rest)
      have hdrop := dropWhile_reindent g (c :: rest)
      rw [hreindent] at hopening hdrop
      simp [turn?, reindented, hreindent, hd, hc, hopening, hdrop]
    | false =>
      obtain ⟨more, hmore⟩ := List.head?_eq_some_iff.1 (head?_reindentRest g (c :: rest))
      by_cases hspace : isSpace c = true
      · have hdrop := (takeDropWhile_reindentRest g (c :: rest)).2
        rw [hmore] at hdrop
        simp [turn?, reindented, hmore, hc, hspace, hdrop]
      · have hword := wordAt?_reindentRest (g := g) hc (hline rfl c rfl)
        rw [hmore] at hword
        simp [turn?, reindented, hmore, hc, hspace, hword, Function.comp_def]

theorem rest_reindented_eq_nil : (v.reindented g).rest = [] ↔ v.rest = [] := by
  obtain ⟨lineStart, indents, rest⟩ := v
  cases rest with
  | nil => cases lineStart <;> simp [reindented, reindent_line, reindentRest_line, reindentLine, lineWidth?]
  | cons c rest =>
    refine ⟨fun h => ?_, fun h => by cases h⟩
    cases lineStart with
    | true =>
      by_cases hc : c = '\n'
      · rw [hc] at h
        have hrest : reindent g ('\n' :: rest) = [] := h
        rw [reindent_newline] at hrest
        cases hrest
      · obtain ⟨d, more, hreindent, -⟩ := exists_reindent_cons g hc rest
        cases hreindent.symm.trans h
    | false =>
      obtain ⟨more, hmore⟩ := List.head?_eq_some_iff.1 (head?_reindentRest g (c :: rest))
      cases hmore.symm.trans h

/-- A whole scan before and after the lines are moved. -/
theorem spelling_reindented (hg : StrictMono g) (hzero : g 0 = 0)
    (hline : ∀ words v₁, Comes v words v₁ → v₁.KeepsLine) :
    (v.reindented g).spelling = v.spelling := by
  generalize hn : v.work = n
  induction n using Nat.strongRecOn generalizing v with
  | ind n ih =>
    have hturn := turn?_reindented hg hzero (hline [] v .refl)
    by_cases hrest : v.rest = []
    · rw [spelling_end hrest, spelling_end (rest_reindented_eq_nil.2 hrest)]
      simp [closing, reindented, Function.comp_def]
    cases hnext : v.turn? with
    | none =>
      rw [hnext] at hturn
      rw [spelling_stuck hrest hnext, spelling_stuck (mt rest_reindented_eq_nil.1 hrest) hturn]
    | some next =>
      obtain ⟨words, v₂⟩ := next
      rw [hnext] at hturn
      have hless := work_turn? hnext
      have hmore := ih v₂.work (hn ▸ hless) (fun words' v₁ hcomes => hline _ v₁ (.turn hnext hcomes)) rfl
      rw [spelling_turn hnext, spelling_turn hturn, hmore]

/-- No word goes over the end of a line in so many rounds. -/
def keepsLines : Nat → View → Bool
  | 0, v => decide v.KeepsLine
  | n + 1, v => decide v.KeepsLine && v.turn?.all fun next => keepsLines n next.2

theorem keepsLines_iff {n : Nat} (h : v.work ≤ n) :
    keepsLines n v = true ↔ ∀ words v₁, Comes v words v₁ → v₁.KeepsLine := by
  induction n generalizing v with
  | zero =>
    refine ⟨fun hkeeps words v₁ hcomes => ?_, fun hall => decide_eq_true (hall [] v .refl)⟩
    cases hcomes with
    | refl => exact of_decide_eq_true hkeeps
    | turn hturn _ =>
      have hless := work_turn? hturn
      omega
  | succ n ih =>
    rw [keepsLines, Bool.and_eq_true, decide_eq_true_iff]
    refine ⟨fun ⟨hkeeps, hmore⟩ words v₁ hcomes => ?_, fun hall => ⟨hall [] v .refl, ?_⟩⟩
    · cases hcomes with
      | refl => exact hkeeps
      | @turn _ v₂ _ _ _ hturn hrest =>
        have hless : v₂.work < v.work := work_turn? hturn
        have hwork : v₂.work ≤ n := by omega
        rw [hturn] at hmore
        exact (ih hwork).1 hmore _ v₁ hrest
    · cases hturn : v.turn? with
      | none => rfl
      | some next =>
        have hless : next.2.work < v.work := work_turn? hturn
        exact (ih (by omega)).2 fun words v₁ hcomes => hall _ v₁ (.turn hturn hcomes)

end View

end Scanner

open Scanner

/-- No token that a scan of a text reads takes the end of a line. -/
def Token.OneLined (source : String) : Prop :=
  ∀ found s c t after, Rounds true [] (.ofText source) false found s → s.current? = some c →
    s.readToken c = .ok (t, after) → '\n' ∉ s.tape.rest.take (s.tape.rest.length - after.tape.rest.length)

theorem Token.oneLined_iff (source : String) : Token.OneLined source ↔
    ∀ words v, View.Comes (View.start source.toList) words v → v.KeepsLine := by
  refine ⟨fun hone words v hcomes hstart c hc found hfound => ?_,
    fun hkeeps found s c t after hs hc hread => ?_⟩
  · obtain ⟨tokens, s, hs, hview⟩ := hcomes.rounds (s := .ofText source) [] rfl
    rw [hstart] at hs
    have hrest : s.tape.rest = v.rest := congrArg View.rest hview
    have htold := told_readToken s c
    rw [hrest, Option.mem_def.1 hfound] at htold
    obtain ⟨⟨t, after⟩, hread, rfl⟩ := Option.map_eq_some_iff.1 htold
    have hok : s.readToken c = .ok (t, after) := by
      cases hresult : s.readToken c with
      | error e =>
        rw [hresult] at hread
        cases hread
      | ok result =>
        rw [hresult] at hread
        rw [Option.some.inj hread]
    rw [← hrest] at hc ⊢
    exact hone tokens s c t after hs hc hok
  · obtain ⟨tokens, -, hcomes⟩ := hs.comes
    have htold := told_readToken s c
    rw [hread] at htold
    exact hkeeps _ _ hcomes rfl c hc (toldToken (t, after)) htold.symm

instance (source : String) : Decidable (Token.OneLined source) :=
  decidable_of_iff _ ((View.keepsLines_iff (Nat.le_refl _)).trans (Token.oneLined_iff source).symm)

/-- In a text whose tokens do not go over the ends of lines, only the order of the widths of lines
counts: the text with all lines of code moved by an increasing function has tokens of the same kinds
and texts, or stops at a character as the text does. -/
theorem Token.spelling_reindent {source : String} (h : Token.OneLined source) {g : Nat → Nat}
    (hg : StrictMono g) (hzero : g 0 = 0) :
    Token.spelling (String.ofList (reindent g source.toList)) = Token.spelling source := by
  rw [Token.spelling_eq, Token.spelling_eq, String.toList_ofList]
  exact View.spelling_reindented hg hzero ((Token.oneLined_iff source).1 h)

/-- Tabs, a comment line and a literal, with each width taken three times. -/
theorem Token.spelling_reindent_thrice :
    Token.OneLined "if x:\n\tvar s = f\"a\"\n# c\n\tpass\n  y\n" ∧
      Token.spelling "if x:\n            var s = f\"a\"\n# c\n            pass\n      y\n" =
        Token.spelling "if x:\n\tvar s = f\"a\"\n# c\n\tpass\n  y\n" := by
  have hone : Token.OneLined "if x:\n\tvar s = f\"a\"\n# c\n\tpass\n  y\n" := by decide +kernel
  have hsame := Token.spelling_reindent hone (g := (3 * ·)) (fun a b hab => by dsimp only; omega) rfl
  have htext : String.ofList (reindent (3 * ·) "if x:\n\tvar s = f\"a\"\n# c\n\tpass\n  y\n".toList) =
      "if x:\n            var s = f\"a\"\n# c\n            pass\n      y\n" := by
    decide +kernel
  rw [htext] at hsame
  exact ⟨hone, hsame⟩

end StackScript
