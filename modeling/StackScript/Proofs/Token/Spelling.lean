import StackScript.Proofs.Token.Indentation

/-!
# What a scan finds, without places

What a scan does next depends on three things only: whether a line starts, the widths of the open
blocks, and the text that is left. This file tells a scan by them, and leaves out the lines and
columns of its tokens.
-/

namespace StackScript

/-- What a reading can tell of a token: its kind and its text. -/
abbrev Lexeme := TokenKind × String

/-- The kind and the text of a token. -/
def Token.lexeme (token : Token) : Lexeme := (token.kind, token.text)

namespace Scanner

/-! ## Words of a text -/

/-- What is left behind a closing quote, if it stands there. -/
def behindQuote (quote : Option Char) (text : List Char) : List Char :=
  if text.head? = quote then text.tail else text

def numberText (c : Char) : Bool := Text.isDigit c || c == '.'

def nameText (c : Char) : Bool := Text.isNameChar c || c == '_'

/-- The comment at the start of a text. -/
def commentAt (text : List Char) : Lexeme × List Char :=
  ((.comment, String.ofList (Text.trim (text.tail.takeWhile (· != '\n')))),
    text.tail.dropWhile (· != '\n'))

/-- The number at the start of a text. -/
def numberAt (text : List Char) : Lexeme × List Char :=
  ((.number, String.ofList (text.takeWhile numberText)), text.dropWhile numberText)

/-- The name or keyword at the start of a text. -/
def nameAt (text : List Char) : Lexeme × List Char :=
  let word := String.ofList (text.takeWhile nameText)
  ((TokenKind.ofWord word, word), text.dropWhile nameText)

/-- The literal at the start of a text. -/
def literalAt (text : List Char) : Lexeme × List Char :=
  let body := literalBody text.head? text.tail
  ((.string, String.ofList body.1), behindQuote text.head? (text.tail.drop body.2))

/-- The formatted literal at the start of a text. -/
def formattedAt (text : List Char) : Lexeme × List Char :=
  let body := formattedBody text.tail.head? [] text.tail.tail
  ((.formatted, (Datum.list (body.1.map Piece.datum)).write),
    behindQuote text.tail.head? (text.tail.tail.drop body.2))

/-- The operator or delimiter at the start of a text. -/
def markAt? (text : List Char) : Option (Lexeme × List Char) :=
  (TokenKind.marks.find? fun mark => mark.1.toList.isPrefixOf text).map fun mark =>
    ((mark.2, mark.1), text.drop mark.1.length)

/-- The word at the start of a text whose first character is neither a blank nor a line end, and
what is left behind it. -/
def wordAt? (c : Char) (text : List Char) : Option (Lexeme × List Char) :=
  if c = '#' then some (commentAt text)
  else if Text.isDigit c then some (numberAt text)
  else if c = '"' || c = '\'' then some (literalAt text)
  else if c = 'f' && (text.tail.head? = some '"' || text.tail.head? = some '\'') then
    some (formattedAt text)
  else if Text.isLetter c || c = '_' then some (nameAt text)
  else markAt? text

theorem drop_takeWhile {α : Type} (p : α → Bool) (items : List α) :
    items.drop (items.takeWhile p).length = items.dropWhile p := by
  have hsplit : items.takeWhile p ++ items.dropWhile p = items := List.takeWhile_append_dropWhile
  calc items.drop (items.takeWhile p).length
      = (items.takeWhile p ++ items.dropWhile p).drop (items.takeWhile p).length := by rw [hsplit]
    _ = items.dropWhile p := List.drop_left

theorem rest_skipSpace (s : Scanner) : s.skipSpace.tape.rest = s.tape.rest.dropWhile isSpace := by
  rw [skipSpace, rest_advanceBy, drop_takeWhile]

theorem rest_closeQuote (quote : Option Char) (s : Scanner) :
    (closeQuote quote s).tape.rest = behindQuote quote s.tape.rest := by
  have hcurrent : s.current? = s.tape.rest.head? := rfl
  unfold closeQuote behindQuote
  rw [hcurrent]
  split
  · exact rest_advance s
  · rfl

variable {s : Scanner} {c : Char} {lineStart : Bool}

/-- What is told of a token that has been read: its word, and what is left of the text. -/
def toldToken (result : Token × Scanner) : Lexeme × List Char :=
  (result.1.lexeme, result.2.tape.rest)

theorem told_readToken (s : Scanner) (c : Char) :
    (s.readToken c).toOption.map toldToken = wordAt? c s.tape.rest := by
  have hnext : s.advance.current? = s.tape.rest.tail.head? := by
    show s.advance.tape.rest.head? = _
    rw [rest_advance]
  unfold readToken wordAt?
  rw [hnext]
  split
  · refine congrArg some (Prod.ext_iff.2 ⟨?_, ?_⟩)
    · simp [readComment, takeRun, commentAt, toldToken, tokenFrom, Token.lexeme]
    · simp only [readComment, takeRun, commentAt, toldToken, rest_advanceBy, rest_advance,
        drop_takeWhile]
  split
  · refine congrArg some (Prod.ext_iff.2 ⟨rfl, ?_⟩)
    simp only [readNumber, takeRun, toldToken, rest_advanceBy, drop_takeWhile]
    rfl
  split
  · refine congrArg some (Prod.ext_iff.2 ⟨?_, ?_⟩)
    · simp [readString, literalAt, toldToken, tokenFrom, Token.lexeme, current?, Tape.current?]
    · simp [readString, literalAt, toldToken, rest_closeQuote, current?, Tape.current?]
  split
  · have hquote : s.advance.current? = s.tape.rest.tail.head? := hnext
    refine congrArg some (Prod.ext_iff.2 ⟨?_, ?_⟩)
    · simp [readFormatted, formattedAt, toldToken, tokenFrom, Token.lexeme, hquote]
    · simp [readFormatted, formattedAt, toldToken, rest_closeQuote, hquote]
  split
  · refine congrArg some (Prod.ext_iff.2 ⟨rfl, ?_⟩)
    simp only [readWord, takeRun, toldToken, rest_advanceBy, drop_takeWhile]
    rfl
  unfold readMark? markAt?
  cases TokenKind.marks.find? fun mark => mark.1.toList.isPrefixOf s.tape.rest with
  | none => rfl
  | some mark =>
    refine congrArg some (Prod.ext_iff.2 ⟨rfl, ?_⟩)
    simp [toldToken]

/-! ## Views -/

/-- What a scanner goes by: whether a line starts, the widths of the open blocks, innermost first,
and the text that is left. -/
structure View where
  lineStart : Bool
  indents : List Nat
  rest : List Char
  deriving DecidableEq

/-- The view of a scanner. -/
def view (lineStart : Bool) (s : Scanner) : View := ⟨lineStart, s.indents, s.tape.rest⟩

/-- The words that open or close blocks for a line of the given width, and the widths that are open
then. -/
def indentation (indents : List Nat) (width : Nat) : List Lexeme × List Nat :=
  if indents.headD 0 < width then ([(.indent, "")], width :: indents)
  else ((indents.takeWhile (width < ·)).map fun _ => (.dedent, ""), indents.dropWhile (width < ·))

/-- The width of the line at the start of a text; none if it holds no more than blanks and a
comment. -/
def lineWidth? (text : List Char) : Option Nat :=
  match text.dropWhile isSpace with
  | [] => none
  | c :: _ => if c = '\n' || c = '#' then none else some (widthOf (text.takeWhile isSpace))

/-- The words that open or close blocks for the line at the start of a text. -/
def opening (indents : List Nat) (text : List Char) : List Lexeme × List Nat :=
  match lineWidth? text with
  | some width => indentation indents width
  | none => ([], indents)

theorem told_indentTo (width : Nat) (s : Scanner) :
    ((s.indentTo width).1.map Token.lexeme, (s.indentTo width).2.indents) =
      indentation s.indents width := by
  unfold indentTo indentation
  by_cases hwide : s.indents.headD 0 < width
  · simp only [hwide, if_true]
    rfl
  · simp only [hwide, if_false, drop_takeWhile, List.map_map]
    rfl

theorem tape_indentTo (width : Nat) (s : Scanner) : (s.indentTo width).2.tape = s.tape := by
  unfold indentTo
  dsimp only
  split <;> rfl

theorem rest_startLine (s : Scanner) : s.startLine.2.tape.rest = s.tape.rest.dropWhile isSpace := by
  unfold startLine
  dsimp only
  split
  · split
    · exact rest_skipSpace s
    · rw [rest_skipSpace, tape_indentTo]
  · exact rest_skipSpace s

theorem told_startLine (s : Scanner) :
    (s.startLine.1.map Token.lexeme, s.startLine.2.indents) = opening s.indents s.tape.rest := by
  unfold startLine opening lineWidth?
  dsimp only
  rw [drop_takeWhile]
  cases s.tape.rest.dropWhile isSpace with
  | nil => simp
  | cons c rest =>
    by_cases hblank : (c = '\n' || c = '#') = true
    · simp only [hblank, if_true]
      simp
    · simp only [hblank, Bool.false_eq_true, if_false]
      rw [indents_skipSpace]
      exact told_indentTo _ s

namespace View

/-- The view at the start of a text. -/
def start (text : List Char) : View := ⟨true, [], text⟩

/-- One round of a scan: the words it finds and the view behind it. There is none at the end of the
text, and none at a character that starts no word. -/
def turn? (v : View) : Option (List Lexeme × View) :=
  match v.rest with
  | [] => none
  | c :: rest =>
    if c = '\n' then some ([(.newline, "\n")], ⟨true, v.indents, rest⟩)
    else if v.lineStart then
      some ((opening v.indents v.rest).1,
        ⟨false, (opening v.indents v.rest).2, v.rest.dropWhile isSpace⟩)
    else if isSpace c then some ([], ⟨false, v.indents, v.rest.dropWhile isSpace⟩)
    else (wordAt? c v.rest).map fun found => ([found.1], ⟨false, v.indents, found.2⟩)

end View

/-- What is told of a round: the words of its tokens, and the view behind it. -/
def Round.told (next : Round) : List Lexeme × View :=
  (next.tokens.map Token.lexeme, next.scanner.view next.lineStart)

theorem told_round (lineStart : Bool) (hc : s.current? = some c) :
    (s.round lineStart c).toOption.map Round.told = (s.view lineStart).turn? := by
  obtain ⟨rest, hrest⟩ : ∃ rest, s.tape.rest = c :: rest := List.head?_eq_some_iff.1 hc
  unfold round View.turn? view
  dsimp only
  rw [hrest]
  dsimp only
  split
  · simp [Except.toOption, Round.told, view, tokenAt, Token.lexeme, hrest]
  split
  · obtain ⟨hwords, hindents⟩ := Prod.ext_iff.1 (told_startLine s)
    dsimp only at hwords hindents
    simp [Except.toOption, Round.told, view, hwords, hindents, rest_startLine, hrest]
  split
  · simp [Except.toOption, Round.told, view, rest_skipSpace, hrest]
  · have htoken := told_readToken s c
    rw [hrest] at htoken
    rw [← htoken]
    cases hread : s.readToken c with
    | error e => rfl
    | ok result =>
      obtain ⟨t, after⟩ := result
      have hindents := (readToken_plain hread).2
      simp [Except.toOption, Round.told, toldToken, view, hindents, bind, Except.bind, pure,
        Except.pure]

/-! ## Whole scans -/

namespace View

/-- The words at the end of a text: one for each block that is still open, and the end. -/
def closing (indents : List Nat) : List Lexeme :=
  indents.map (fun _ => (.dedent, "")) ++ [(.eof, "")]

/-- The words of a scan from a view on, in so many rounds at most; none if it stops at a
character. -/
def spellingN : Nat → View → Option (List Lexeme)
  | 0, v => some (closing v.indents)
  | fuel + 1, v =>
    if v.rest = [] then some (closing v.indents)
    else v.turn?.bind fun next => (spellingN fuel next.2).map (next.1 ++ ·)

/-- What is left to do. -/
def work (v : View) : Nat := 2 * v.rest.length + if v.lineStart then 1 else 0

/-- The words of a scan from a view on; none if it stops at a character. -/
def spelling (v : View) : Option (List Lexeme) := spellingN v.work v

theorem spellingN_end {v : View} (h : v.rest = []) (n : Nat) :
    spellingN n v = some (closing v.indents) := by
  cases n with
  | zero => rfl
  | succ n => rw [spellingN, if_pos h]

end View

/-- What is told of a scan: the words of its tokens, if it comes to the end. -/
def told (result : Except ScanError (List Token) × Scanner) : Option (List Lexeme) :=
  result.1.toOption.map (List.map Token.lexeme)

theorem rest_view_ne_nil (hc : s.current? = some c) : (s.view lineStart).rest ≠ [] := by
  obtain ⟨rest, hrest⟩ : ∃ rest, s.tape.rest = c :: rest := List.head?_eq_some_iff.1 hc
  simp [view, hrest]

theorem told_scanFrom (fuel : Nat) (lineStart : Bool) (found : List Token) (s : Scanner) :
    told (s.scanFrom fuel lineStart found) =
      (View.spellingN fuel (s.view lineStart)).map (found.reverse.map Token.lexeme ++ ·) := by
  fun_induction scanFrom fuel lineStart found s with
  | case1 lineStart found s fuel c hc e hround =>
    rw [View.spellingN, if_neg (rest_view_ne_nil hc), ← told_round lineStart hc, hround]
    rfl
  | case2 lineStart found s fuel c hc next hround ih =>
    rw [View.spellingN, if_neg (rest_view_ne_nil hc), ← told_round lineStart hc, hround, ih]
    simp [Except.toOption, Round.told, Option.map_map, Function.comp_def]
  | case3 fuel lineStart found s closing after hfinish hover =>
    have hspelled : View.spellingN fuel (s.view lineStart) = some (View.closing s.indents) := by
      rcases over_of_no_round hover with rfl | hc
      · rfl
      · have hrest : s.tape.rest = [] := List.head?_eq_none_iff.1 hc
        exact View.spellingN_end hrest fuel
    cases hfinish
    simp [hspelled, told, Except.toOption, View.closing, tokenAt, Token.lexeme]

namespace View

/-- A scanner with a given view. -/
def scanner (v : View) : Scanner := { tape := Tape.ofList v.rest, indents := v.indents }

variable {v v₁ v₂ : View} {words more : List Lexeme}

theorem round_of_turn? (h : v.turn? = some (words, v₁)) :
    ∃ c next, v.scanner.current? = some c ∧ v.scanner.round v.lineStart c = .ok next ∧
      next.told = (words, v₁) := by
  obtain ⟨lineStart, indents, rest⟩ := v
  cases rest with
  | nil => cases h
  | cons c rest =>
    have hc : (scanner ⟨lineStart, indents, c :: rest⟩).current? = some c := rfl
    have htold := told_round lineStart hc
    replace htold : _ = some (words, v₁) := htold.trans h
    cases hround : (scanner ⟨lineStart, indents, c :: rest⟩).round lineStart c with
    | error e => simp [hround, Except.toOption] at htold
    | ok next =>
      rw [hround] at htold
      exact ⟨c, next, hc, hround, Option.some.inj htold⟩

theorem work_turn? (h : v.turn? = some (words, v₁)) : v₁.work < v.work := by
  obtain ⟨c, next, hc, hround, htold⟩ := round_of_turn? h
  have hview : next.scanner.view next.lineStart = v₁ := congrArg Prod.snd htold
  have hless := workLeft_round hc hround
  rw [← hview]
  exact hless

theorem work_pos (h : v.rest ≠ []) : 0 < v.work := by
  have hlength : 0 < v.rest.length := List.length_pos_iff.2 h
  unfold work
  omega

/-- More rounds than there is work to do make no difference. -/
theorem spellingN_eq {n m : Nat} (hn : v.work ≤ n) (hm : v.work ≤ m) :
    spellingN n v = spellingN m v := by
  induction n generalizing v m with
  | zero =>
    by_cases hrest : v.rest = []
    · rw [spellingN_end hrest, spellingN_end hrest]
    · have := work_pos hrest
      omega
  | succ n ih =>
    by_cases hrest : v.rest = []
    · rw [spellingN_end hrest, spellingN_end hrest]
    · have := work_pos hrest
      obtain ⟨m, rfl⟩ : ∃ k, m = k + 1 := ⟨m - 1, by omega⟩
      rw [spellingN, spellingN, if_neg hrest, if_neg hrest]
      cases hturn : v.turn? with
      | none => rfl
      | some next =>
        have hless : next.2.work < v.work := work_turn? hturn
        rw [Option.bind_some, Option.bind_some, ih (m := m) (by omega) (by omega)]

theorem spelling_end (h : v.rest = []) : v.spelling = some (closing v.indents) :=
  spellingN_end h _

theorem spelling_turn (h : v.turn? = some (words, v₁)) :
    v.spelling = v₁.spelling.map (words ++ ·) := by
  have hrest : v.rest ≠ [] := by
    intro hrest
    rw [turn?, hrest] at h
    cases h
  have hless := work_turn? h
  obtain ⟨n, hn⟩ : ∃ n, v.work = n + 1 := ⟨v.work - 1, by omega⟩
  rw [spelling, hn, spellingN, if_neg hrest, h, Option.bind_some,
    spellingN_eq (n := n) (by omega) (Nat.le_refl v₁.work)]
  rfl

/-- A scan stops at a character that starts no word. -/
theorem spelling_stuck (hrest : v.rest ≠ []) (h : v.turn? = none) : v.spelling = none := by
  have hpos := work_pos hrest
  obtain ⟨n, hn⟩ : ∃ n, v.work = n + 1 := ⟨v.work - 1, by omega⟩
  rw [spelling, hn, spellingN, if_neg hrest, h]
  rfl

/-! ## From one view to another -/

/-- A scan comes from one view to another, and finds words on the way. -/
inductive Comes : View → List Lexeme → View → Prop
  | refl {v : View} : Comes v [] v
  | turn {v v₁ v₂ : View} {words more : List Lexeme} : v.turn? = some (words, v₁) →
      Comes v₁ more v₂ → Comes v (words ++ more) v₂

namespace Comes

theorem single (h : v.turn? = some (words, v₁)) : Comes v words v₁ := by
  have hone := Comes.turn h .refl
  rwa [List.append_nil] at hone

theorem spelling (h : Comes v words v₁) : v.spelling = v₁.spelling.map (words ++ ·) := by
  induction h with
  | refl => simp
  | turn hturn _ ih =>
    rw [spelling_turn hturn, ih, Option.map_map]
    simp [Function.comp_def]

end Comes

/-- The view behind so many rounds. -/
def turns? : Nat → View → Option View
  | 0, v => some v
  | n + 1, v => v.turn?.bind fun next => turns? n next.2

theorem comes_of_turns? {n : Nat} (h : v.turns? n = some v₁) : ∃ words, Comes v words v₁ := by
  induction n generalizing v with
  | zero =>
    cases h
    exact ⟨[], .refl⟩
  | succ n ih =>
    obtain ⟨⟨first, v₂⟩, hturn, hlast⟩ := Option.bind_eq_some_iff.1 h
    obtain ⟨more, hcomes⟩ := ih hlast
    exact ⟨first ++ more, .turn hturn hcomes⟩

end View

/-- The rounds of a scanner are turns of its views. -/
theorem Rounds.comes {lineStart' : Bool} {found found' : List Token} {s' : Scanner}
    (h : Rounds lineStart found s lineStart' found' s') :
    ∃ tokens, found'.reverse = found.reverse ++ tokens ∧
      View.Comes (s.view lineStart) (tokens.map Token.lexeme) (s'.view lineStart') := by
  induction h with
  | refl => exact ⟨[], by simp, .refl⟩
  | @round _ _ _ _ _ _ _ next hc hround _ ih =>
    obtain ⟨tokens, hfound, hcomes⟩ := ih
    refine ⟨next.tokens ++ tokens, by simp [hfound], ?_⟩
    rw [List.map_append]
    refine .turn ?_ hcomes
    rw [← told_round _ hc, hround]
    rfl

/-- The turns of a view are rounds of every scanner that has it. -/
theorem View.Comes.rounds {v v₁ : View} {words : List Lexeme} (h : View.Comes v words v₁)
    (found : List Token) (hs : s.view v.lineStart = v) :
    ∃ found' s', Rounds v.lineStart found s v₁.lineStart found' s' ∧ s'.view v₁.lineStart = v₁ := by
  induction h generalizing s found with
  | refl => exact ⟨found, s, .refl, hs⟩
  | @turn v v₂ v₁ words more hturn hcomes ih =>
    obtain ⟨c, hc⟩ : ∃ c, s.current? = some c := by
      cases hc : s.current? with
      | some c => exact ⟨c, rfl⟩
      | none =>
        have hrest : s.tape.rest = [] := List.head?_eq_none_iff.1 hc
        rw [← hs] at hturn
        simp [turn?, view, hrest] at hturn
    have htold := told_round v.lineStart hc
    rw [hs, hturn] at htold
    cases hround : s.round v.lineStart c with
    | error e => simp [hround, Except.toOption] at htold
    | ok next =>
      rw [hround] at htold
      obtain ⟨-, hnext⟩ := Prod.mk.inj (Option.some.inj htold)
      have hstart : next.lineStart = v₂.lineStart := by
        rw [← hnext]
        rfl
      rw [hstart] at hnext
      obtain ⟨found', s', hrounds, hlast⟩ := ih (next.tokens.reverse ++ found) hnext
      rw [← hstart] at hrounds
      exact ⟨found', s', .round hc hround hrounds, hlast⟩

end Scanner

/-- The words of the tokens of a text, if it can be scanned. -/
def Token.spelling (source : String) : Option (List Lexeme) :=
  (Token.scan source).toOption.map (List.map Token.lexeme)

/-- The words that a scan of a text finds are those of its first view. -/
theorem Token.spelling_eq (source : String) :
    Token.spelling source = (Scanner.View.start source.toList).spelling := by
  have htold := Scanner.told_scanFrom (2 * source.toList.length + 1) true [] (Scanner.ofText source)
  rw [List.reverse_nil, List.map_nil] at htold
  simp only [List.nil_append, Option.map_id'] at htold
  exact htold

theorem Token.exists_scan {source : String} {words : List Lexeme}
    (h : Token.spelling source = some words) :
    ∃ tokens, Token.scan source = .ok tokens ∧ tokens.map Token.lexeme = words := by
  unfold Token.spelling at h
  cases hscan : Token.scan source with
  | error e => simp [hscan, Except.toOption] at h
  | ok tokens => exact ⟨tokens, rfl, by simpa [hscan, Except.toOption] using h⟩

end StackScript
