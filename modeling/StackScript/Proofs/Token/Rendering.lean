import StackScript.Proofs.Token.Passage

/-!
# Writing words down

A list of words can be written on one line, with a blank between each two, and a scan of that line
finds the words again. The words are names and keywords, numbers, literals, and all operators and
delimiters; in a literal a backslash stands before the characters that would end it or the line.

* `Token.spelling_render`: the words of a written line.
-/

namespace StackScript

/-! ## Letters and digits -/

namespace Text

/-- The pieces between each two edges that lie so far apart. -/
def spansFrom : Nat → List Nat → List (Nat × Nat)
  | last, lo :: hi :: gaps => (last + lo, last + lo + hi) :: spansFrom (last + lo + hi) gaps
  | _, _ => []

/-- The edges that lie so far apart. -/
def edgesFrom : Nat → List Nat → List Nat
  | _, [] => []
  | last, gap :: gaps => (last + gap) :: edgesFrom (last + gap) gaps

theorem toList_foldl_edges (gaps : List Nat) (edges : Array Nat) (last : Nat) :
    (gaps.foldl (fun (edges, last) gap => (edges.push (last + gap), last + gap))
      (edges, last)).1.toList = edges.toList ++ edgesFrom last gaps := by
  induction gaps generalizing edges last with
  | nil => simp [edgesFrom]
  | cons gap gaps ih => simp [edgesFrom, ih]

theorem toList_edgesOf (gaps : Array Nat) : (edgesOf gaps).toList = edgesFrom 0 gaps.toList := by
  rw [edgesOf, ← Array.foldl_toList, toList_foldl_edges]
  rfl

/-- A point in the set with some edges lies between two of them. -/
theorem exists_span_of_inSpans {gaps : Array Nat} {point : Nat} (heven : gaps.toList.length % 2 = 0)
    (h : inSpans (edgesOf gaps) point = true) :
    ∃ span ∈ spansFrom 0 gaps.toList, span.1 ≤ point ∧ point < span.2 := by
  rw [inSpans, ← Array.foldl_toList, toList_edgesOf] at h
  generalize hlast : 0 = last at h ⊢
  clear hlast
  generalize gaps.toList = gaps at h heven ⊢
  fun_induction spansFrom last gaps with
  | case1 last lo hi gaps ih =>
    by_cases hin : last + lo ≤ point ∧ point < last + lo + hi
    · exact ⟨_, List.mem_cons_self, hin⟩
    · have hsame : (if last + lo + hi ≤ point then !(if last + lo ≤ point then !false else false)
          else if last + lo ≤ point then !false else false) = false := by
        by_cases hlo : last + lo ≤ point
        · have hhi : last + lo + hi ≤ point := by omega
          simp [hlo, hhi]
        · have hhi : ¬ last + lo + hi ≤ point := by omega
          simp [hlo, hhi]
      rw [edgesFrom, edgesFrom, List.foldl_cons, List.foldl_cons, hsame] at h
      obtain ⟨span, hmem, hspan⟩ := ih h (by simpa [Nat.add_assoc] using heven)
      exact ⟨span, List.mem_cons_of_mem _ hmem, hspan⟩
  | case2 gaps last hshort =>
    cases gaps with
    | nil => cases h
    | cons gap gaps =>
      cases gaps with
      | nil => cases heven
      | cons gap' gaps => exact absurd rfl (hshort gap gap' gaps)

theorem not_mem_of_apart {left right : List (Nat × Nat)} {point : Nat} {a b : Nat × Nat}
    (h : (right.all fun b => left.all fun a => Nat.ble a.2 b.1 || Nat.ble b.2 a.1) = true)
    (ha : a ∈ left) (hb : b ∈ right) (hpoint : a.1 ≤ point ∧ point < a.2) :
    ¬ (b.1 ≤ point ∧ point < b.2) := by
  have hapart := List.all_eq_true.1 (List.all_eq_true.1 h b hb) a ha
  simp only [Bool.or_eq_true, Nat.ble_eq] at hapart
  omega

theorem isDigit_of_isLetter {c : Char} (h : isLetter c = true) : isDigit c = false := by
  unfold isLetter at h
  unfold isDigit
  by_cases hsmall : c.toNat < 0x80
  · rw [if_pos hsmall] at h ⊢
    delta Char.isAlpha Char.isUpper Char.isLower at h
    delta Char.isDigit
    grind
  · rw [if_neg hsmall] at h ⊢
    apply Bool.eq_false_iff.2
    intro hdigit
    obtain ⟨a, ha, hpoint⟩ := exists_span_of_inSpans (by decide +kernel) h
    obtain ⟨b, hb, hpoint'⟩ := exists_span_of_inSpans (by decide +kernel) hdigit
    exact not_mem_of_apart (by decide +kernel) ha hb hpoint hpoint'

end Text

/-! ## Written words -/

namespace Lexeme

/-- How a character of a literal is written. -/
def escape (c : Char) : List Char :=
  if c = '\\' then ['\\', '\\'] else if c = '"' then ['\\', '"']
  else if c = '\n' then ['\\', 'n'] else if c = '\t' then ['\\', 't']
  else if c = '\r' then ['\\', 'r'] else [c]

/-- How a word is written. -/
def written (word : Lexeme) : List Char :=
  if word.1 = .string then '"' :: (word.2.toList.flatMap escape ++ ['"']) else word.2.toList

/-- A line of words with a blank between each two. -/
def render (words : List Lexeme) : String :=
  String.ofList ([' '].intercalate (words.map written))

/-- The first character of a name. -/
def nameStart (c : Char) : Bool := Text.isLetter c || c = '_'

/-- The words that can be written: names and keywords, numbers that start with a digit, literals, and
operators and delimiters. -/
inductive Writable : Lexeme → Prop
  | name (c : Char) (more : List Char) (hfirst : nameStart c = true)
      (hmore : ∀ d ∈ more, Scanner.nameText d = true) :
      Writable (TokenKind.ofWord (String.ofList (c :: more)), String.ofList (c :: more))
  | number (c : Char) (more : List Char) (hfirst : Text.isDigit c = true)
      (hmore : ∀ d ∈ more, Scanner.numberText d = true) : Writable (.number, String.ofList (c :: more))
  | literal (text : String) : Writable (.string, text)
  | mark (mark : String × TokenKind) (hmark : mark ∈ TokenKind.marks) : Writable (mark.2, mark.1)

end Lexeme

namespace Scanner

open Lexeme (nameStart)

variable {c : Char} {rest : List Char}

/-! ### Literals -/

theorem escape_cases (c : Char) : (∃ e, Lexeme.escape c = ['\\', e] ∧ unescape e = c) ∨
      (Lexeme.escape c = [c] ∧ c ≠ '"' ∧ c ≠ '\\') := by
  unfold Lexeme.escape
  by_cases hback : c = '\\'
  · exact .inl ⟨'\\', by simp [hback], by simp [hback, unescape]⟩
  by_cases hquote : c = '"'
  · exact .inl ⟨'"', by simp [hquote], by simp [hquote, unescape]⟩
  by_cases hnewline : c = '\n'
  · exact .inl ⟨'n', by simp [hnewline], by simp [hnewline, unescape]⟩
  by_cases htab : c = '\t'
  · exact .inl ⟨'t', by simp [htab], by simp [htab, unescape]⟩
  by_cases hreturn : c = '\r'
  · exact .inl ⟨'r', by simp [hreturn], by simp [hreturn, unescape]⟩
  · exact .inr ⟨by simp [hback, hquote, hnewline, htab, hreturn], hquote, hback⟩

/-- The written characters of a literal are read back, up to the closing quote. -/
theorem literalBody_flatMap_escape (text rest : List Char) :
    literalBody (some '"') (text.flatMap Lexeme.escape ++ '"' :: rest) =
      (text, (text.flatMap Lexeme.escape).length) := by
  induction text with
  | nil => exact literalBody_close rfl
  | cons c text ih =>
    rw [List.flatMap_cons, List.append_assoc, List.length_append]
    rcases escape_cases c with ⟨e, hescape, hc⟩ | ⟨hescape, hquote, hback⟩
    · rw [hescape, List.cons_append, List.cons_append, List.nil_append,
        literalBody_escape (by decide), ih, hc]
      simp [Nat.add_comm]
    · rw [hescape, List.singleton_append, literalBody_plain (by simpa using hquote) hback, ih]
      simp [Nat.add_comm]

/-! ### Words before a blank -/

/-- A text that is at its end or goes on with a blank. -/
def Separated (rest : List Char) : Prop := ∀ d ∈ rest.head?, d = ' '

/-- A run of characters of one class ends at a blank. -/
theorem takeDropWhile_separated {p : Char → Bool} {run : List Char} (hp : p ' ' = false)
    (hrun : ∀ d ∈ run, p d = true) (hrest : Separated rest) :
    (run ++ rest).takeWhile p = run ∧ (run ++ rest).dropWhile p = rest := by
  rw [List.takeWhile_append_of_pos hrun, List.dropWhile_append_of_pos hrun]
  cases rest with
  | nil => simp
  | cons d more =>
    obtain rfl : d = ' ' := hrest d rfl
    simp [hp]

theorem ofWord_ne_string (word : String) : TokenKind.ofWord word ≠ .string := by
  have hkeywords : ∀ entry ∈ TokenKind.keywords, entry.2 ≠ .string := by decide
  unfold TokenKind.ofWord
  cases hfind : TokenKind.keywords.find? fun entry => entry.1 == word with
  | none => decide
  | some entry => exact hkeywords entry (List.mem_of_find?_eq_some hfind)

theorem nameText_of_isLetter (h : Text.isLetter c = true) : nameText c = true := by
  unfold nameText Text.isNameChar
  unfold Text.isLetter at h
  split
  · rename_i hsmall
    rw [if_pos hsmall] at h
    simp [Char.isAlphanum, h]
  · rename_i hlarge
    rw [if_neg hlarge] at h
    simp [Text.isLetter, hlarge, h]

theorem nameText_of_nameStart (h : nameStart c = true) : nameText c = true := by
  rcases Bool.or_eq_true_iff.1 h with hletter | hline
  · exact nameText_of_isLetter hletter
  · rw [of_decide_eq_true hline]
    rfl

theorem isDigit_of_nameStart (h : nameStart c = true) : Text.isDigit c = false := by
  rcases Bool.or_eq_true_iff.1 h with hletter | hline
  · exact Text.isDigit_of_isLetter hletter
  · rw [of_decide_eq_true hline]
    rfl

theorem ne_of_class {p : Char → Bool} {d : Char} (hc : p c = true) (hd : p d = false) : c ≠ d := by
  rintro rfl
  rw [hc] at hd
  cases hd

theorem wordAt?_name {more : List Char} (hfirst : nameStart c = true)
    (hmore : ∀ d ∈ more, nameText d = true) (hrest : Separated rest) :
    wordAt? c (c :: more ++ rest) =
      some ((TokenKind.ofWord (String.ofList (c :: more)), String.ofList (c :: more)), rest) := by
  have hrun : ∀ d ∈ c :: more, nameText d = true :=
    List.forall_mem_cons.2 ⟨nameText_of_nameStart hfirst, hmore⟩
  obtain ⟨htake, hdrop⟩ := takeDropWhile_separated (p := nameText) rfl hrun hrest
  have hcomment : c ≠ '#' := ne_of_class hfirst rfl
  have hdouble : c ≠ '"' := ne_of_class hfirst rfl
  have hsingle : c ≠ '\'' := ne_of_class hfirst rfl
  have hplain : ∀ quote, nameText quote = false → quote ≠ ' ' → (more ++ rest).head? ≠ some quote := by
    intro quote hquote hblank hhead
    cases more with
    | nil => exact hblank (hrest quote hhead)
    | cons d more =>
      obtain rfl : d = quote := Option.some.inj hhead
      rw [hmore d List.mem_cons_self] at hquote
      cases hquote
  have hformatted : ¬ (c = 'f' && ((more ++ rest).head? = some '"' ||
      (more ++ rest).head? = some '\'')) = true := by
    simp only [hplain '"' rfl (by decide), hplain '\'' rfl (by decide), decide_false, Bool.or_false,
      Bool.and_false, Bool.false_eq_true, not_false_iff]
  have hname : (Text.isLetter c || c = '_') = true := hfirst
  unfold wordAt?
  rw [if_neg hcomment, if_neg (by simp [isDigit_of_nameStart hfirst]), if_neg (by simp [hdouble, hsingle])]
  refine (if_neg hformatted).trans ?_
  rw [if_pos hname, nameAt, htake, hdrop]

theorem wordAt?_number {more : List Char} (hfirst : Text.isDigit c = true)
    (hmore : ∀ d ∈ more, numberText d = true) (hrest : Separated rest) :
    wordAt? c (c :: more ++ rest) = some ((.number, String.ofList (c :: more)), rest) := by
  have hrun : ∀ d ∈ c :: more, numberText d = true :=
    List.forall_mem_cons.2 ⟨by simp [numberText, hfirst], hmore⟩
  obtain ⟨htake, hdrop⟩ := takeDropWhile_separated (p := numberText) rfl hrun hrest
  have hcomment : c ≠ '#' := ne_of_class hfirst rfl
  unfold wordAt?
  rw [if_neg hcomment, if_pos hfirst, numberAt, htake, hdrop]

theorem wordAt?_literal (text : String) (rest : List Char) :
    wordAt? '"' ('"' :: (text.toList.flatMap Lexeme.escape ++ ['"']) ++ rest) =
      some ((.string, text), rest) := by
  have hbody := literalBody_flatMap_escape text.toList rest
  have hdrop : (text.toList.flatMap Lexeme.escape ++ '"' :: rest).drop
      (text.toList.flatMap Lexeme.escape).length = '"' :: rest := List.drop_left
  unfold wordAt?
  rw [if_neg (by decide), if_neg (by decide), if_pos (by decide), List.cons_append, List.append_assoc,
    List.singleton_append, literalAt, List.head?_cons, List.tail_cons, hbody, String.ofList_toList]
  dsimp only
  rw [hdrop]
  rfl

/-- No mark starts another word or holds a blank, and of the marks that start a mark, the mark itself
comes first. -/
theorem marks_plain : ∀ mark ∈ TokenKind.marks, mark.2 ≠ .string ∧ ' ' ∉ mark.1.toList ∧
    (TokenKind.marks.find? fun other => other.1.toList.isPrefixOf mark.1.toList) = some mark ∧
    mark.1.toList ≠ [] ∧ ∀ c ∈ mark.1.toList.head?, c ∉ ['#', '"', '\'', 'f', '\n', ' ', '\t'] ∧
      Text.isDigit c = false ∧ nameStart c = false := by
  have hstart : ∀ mark ∈ TokenKind.marks, (mark.1.toList.head?.all fun c =>
      c ∉ ['#', '"', '\'', 'f', '\n', ' ', '\t'] ∧ Text.isDigit c = false ∧ nameStart c = false) =
        true := by
    decide +kernel
  have hwhole : ∀ mark ∈ TokenKind.marks, mark.2 ≠ .string ∧ ' ' ∉ mark.1.toList ∧
      (TokenKind.marks.find? fun other => other.1.toList.isPrefixOf mark.1.toList) = some mark ∧
      mark.1.toList ≠ [] := by
    decide +kernel
  intro mark hmark
  obtain ⟨hkind, hblank, hfind, hne⟩ := hwhole mark hmark
  refine ⟨hkind, hblank, hfind, hne, fun c hc => ?_⟩
  have hall := hstart mark hmark
  rw [Option.mem_def.1 hc] at hall
  simpa using hall

theorem find?_separated {text : List Char} {marks : List (String × TokenKind)}
    (hmarks : ∀ mark ∈ marks, ' ' ∉ mark.1.toList) (hrest : Separated rest) :
    (marks.find? fun mark => mark.1.toList.isPrefixOf (text ++ rest)) =
      marks.find? fun mark => mark.1.toList.isPrefixOf text := by
  exact List.find?_congr fun mark hmark => Text.isPrefixOf_append fun d hd =>
    hrest d hd ▸ hmarks mark hmark

theorem wordAt?_mark {mark : String × TokenKind} (hmark : mark ∈ TokenKind.marks)
    (hc : mark.1.toList.head? = some c) (hrest : Separated rest) :
    wordAt? c (mark.1.toList ++ rest) = some ((mark.2, mark.1), rest) := by
  obtain ⟨-, -, hfind, -, hfirst⟩ := marks_plain mark hmark
  obtain ⟨hplain, hdigit, hname⟩ := hfirst c hc
  simp only [List.mem_cons, List.not_mem_nil, or_false, not_or] at hplain
  have hname : ¬ (Text.isLetter c || c = '_') = true := by
    rw [show (Text.isLetter c || decide (c = '_')) = false from hname]
    decide
  unfold wordAt?
  rw [if_neg hplain.1, if_neg (by simp [hdigit]), if_neg (by simp [hplain.2.1, hplain.2.2.1]),
    if_neg (by simp [hplain.2.2.2.1]), if_neg hname, markAt?,
    find?_separated (fun mark hmark => (marks_plain mark hmark).2.1) hrest, hfind, Option.map_some,
    ← String.length_toList, List.drop_left]

/-- A word is read back from its own writing, if a blank or the end follows. -/
theorem wordAt?_written {word : Lexeme} (h : Lexeme.Writable word) (hrest : Separated rest) :
    ∃ c more, Lexeme.written word = c :: more ∧ c ∉ ['#', '\n', ' ', '\t'] ∧
      wordAt? c (Lexeme.written word ++ rest) = some (word, rest) := by
  have hplain {p : Char → Bool} {c : Char} (hc : p c = true)
      (hp : ['#', '\n', ' ', '\t'].any p = false) :
      c ∉ ['#', '\n', ' ', '\t'] := fun hmem =>
    Bool.false_ne_true (hp.symm.trans (List.any_eq_true.2 ⟨c, hmem, hc⟩))
  cases h with
  | name c more hfirst hmore =>
    have hwritten : Lexeme.written (TokenKind.ofWord (String.ofList (c :: more)), String.ofList (c :: more)) =
        c :: more := by
      rw [Lexeme.written, if_neg (ofWord_ne_string _), String.toList_ofList]
    refine ⟨c, more, hwritten, hplain hfirst rfl, ?_⟩
    rw [hwritten]
    exact wordAt?_name hfirst hmore hrest
  | number c more hfirst hmore =>
    have hwritten : Lexeme.written (.number, String.ofList (c :: more)) = c :: more := by
      rw [Lexeme.written, if_neg (fun h => by cases h), String.toList_ofList]
    refine ⟨c, more, hwritten, hplain hfirst rfl, ?_⟩
    rw [hwritten]
    exact wordAt?_number hfirst hmore hrest
  | literal text => exact ⟨'"', _, rfl, by decide, wordAt?_literal text rest⟩
  | mark mark hmark =>
    obtain ⟨hkind, -, -, hne, hfirst⟩ := marks_plain mark hmark
    obtain ⟨c, more, htext⟩ := List.exists_cons_of_ne_nil hne
    have hc : mark.1.toList.head? = some c := by
      rw [htext]
      rfl
    have hwritten : Lexeme.written (mark.2, mark.1) = mark.1.toList := by
      rw [Lexeme.written, if_neg hkind]
    refine ⟨c, more, hwritten.trans htext, ?_, ?_⟩
    · intro hmem
      refine (hfirst c hc).1 (List.Sublist.subset ?_ hmem)
      decide
    · rw [hwritten]
      exact wordAt?_mark hmark hc hrest

/-! ## Written lines -/

namespace View

open Lexeme (Writable written)

variable {word : Lexeme} {words : List Lexeme}

/-- A written word is met at the start of a line or after a blank, and then read. -/
theorem comes_written (h : Writable word) (hrest : Separated rest) :
    Comes (start (written word ++ rest)) [] ⟨false, [], written word ++ rest⟩ ∧
      Comes ⟨false, [], ' ' :: (written word ++ rest)⟩ [] ⟨false, [], written word ++ rest⟩ ∧
      Comes ⟨false, [], written word ++ rest⟩ [word] ⟨false, [], rest⟩ := by
  obtain ⟨c, more, hwritten, hplain, hword⟩ := wordAt?_written h hrest
  simp only [List.mem_cons, List.not_mem_nil, or_false, not_or] at hplain
  have hspace : isSpace c = false := by simp [isSpace, hplain]
  have hblank : isSpace ' ' = true := rfl
  rw [hwritten, List.cons_append] at hword ⊢
  refine ⟨.single ?_, .single ?_, .single ?_⟩
  · simp [turn?, start, opening, lineWidth?, hplain, hspace, widthOf, indentation]
  · simp [turn?, hspace, hblank]
  · simp [turn?, hplain, hspace, hword]

theorem comes_start (h : Writable word) (hrest : Separated rest) :
    Comes (start (written word ++ rest)) [] ⟨false, [], written word ++ rest⟩ :=
  (comes_written h hrest).1

/-- A line of words is its first word, and then nothing or a blank and the other words. -/
theorem render_cons (word : Lexeme) (words : List Lexeme) :
    ∃ rest, [' '].intercalate ((word :: words).map written) = written word ++ rest ∧ Separated rest ∧
      (words = [] ∧ rest = [] ∨ words ≠ [] ∧ rest = ' ' :: [' '].intercalate (words.map written)) := by
  cases words with
  | nil => exact ⟨[], by simp, by simp [Separated], .inl ⟨rfl, rfl⟩⟩
  | cons next words =>
    refine ⟨' ' :: [' '].intercalate ((next :: words).map written), ?_, by simp [Separated],
      .inr ⟨List.cons_ne_nil _ _, rfl⟩⟩
    rw [List.map_cons, List.intercalate_cons_of_ne_nil (by simp), List.append_assoc, List.singleton_append]

/-- The words of a written line, from the first word on. -/
theorem spelling_words (h : ∀ word ∈ words, Writable word) :
    spelling ⟨false, [], [' '].intercalate (words.map written)⟩ = some (words ++ [(.eof, "")]) := by
  induction words with
  | nil => exact spelling_end rfl
  | cons word words ih =>
    obtain ⟨hword, hwords⟩ := List.forall_mem_cons.1 h
    obtain ⟨rest, htext, hrest, hcases⟩ := render_cons word words
    rw [htext, (comes_written hword hrest).2.2.spelling]
    rcases hcases with ⟨rfl, rfl⟩ | ⟨hne, rfl⟩
    · rfl
    · obtain ⟨next, others, rfl⟩ := List.exists_cons_of_ne_nil hne
      obtain ⟨rest', htext', hrest', -⟩ := render_cons next others
      have hnext : Writable next := hwords next List.mem_cons_self
      have hblank := (comes_written hnext hrest').2.1.spelling
      rw [← htext'] at hblank
      rw [hblank, ih hwords]
      rfl

end View

end Scanner

open Scanner

/-- A scan of a line on which words are written, with a blank between each two, finds the words and the
end. -/
theorem Token.spelling_render {words : List Lexeme} (h : ∀ word ∈ words, Lexeme.Writable word) :
    Token.spelling (Lexeme.render words) = some (words ++ [(.eof, "")]) := by
  rw [Token.spelling_eq, Lexeme.render, String.toList_ofList]
  cases words with
  | nil => rfl
  | cons word words =>
    obtain ⟨rest, htext, hrest, -⟩ := View.render_cons word words
    have hstart := (View.comes_start (h word List.mem_cons_self) hrest).spelling
    rw [← htext] at hstart
    rw [hstart, View.spelling_words h]
    rfl

/-- A name that starts like a formatted literal, a literal with a quote and a line end, and operators
of which one starts the other. -/
theorem Token.spelling_render_marks :
    Lexeme.render [(.name, "f"), (.string, "\"\n"), (.times, "*"), (.powerAssign, "**="), (.number, "1.5"),
      (.kwIs, "is"), (.kwNot, "not")] = "f \"\\\"\\n\" * **= 1.5 is not" ∧
    Token.spelling "f \"\\\"\\n\" * **= 1.5 is not" = some [(.name, "f"), (.string, "\"\n"), (.times, "*"),
      (.powerAssign, "**="), (.number, "1.5"), (.kwIs, "is"), (.kwNot, "not"), (.eof, "")] := by
  have hrender : Lexeme.render [(.name, "f"), (.string, "\"\n"), (.times, "*"), (.powerAssign, "**="),
      (.number, "1.5"), (.kwIs, "is"), (.kwNot, "not")] = "f \"\\\"\\n\" * **= 1.5 is not" := by
    decide +kernel
  refine ⟨hrender, ?_⟩
  rw [← hrender]
  refine Token.spelling_render fun word hword => ?_
  simp only [List.mem_cons, List.not_mem_nil, or_false] at hword
  rcases hword with rfl | rfl | rfl | rfl | rfl | rfl | rfl
  · exact .name 'f' [] rfl (by simp)
  · exact .literal "\"\n"
  · exact .mark ("*", .times) (by decide)
  · exact .mark ("**=", .powerAssign) (by decide)
  · exact .number '1' ['.', '5'] rfl (by simp; decide)
  · exact .name 'i' ['s'] rfl (by simp; decide)
  · exact .name 'n' ['o', 't'] rfl (by simp; decide)

end StackScript
