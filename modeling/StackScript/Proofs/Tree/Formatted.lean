import StackScript.Proofs.Token.Passage
import StackScript.Proofs.Tree.Woven

/-!
# The pieces of a formatted literal

A formatted literal is written from a list of segments, each a text or the source of an expression.
In a text the backslash, the quote and the opening brace stand behind a backslash; an expression
stands between braces and may hold any characters whose own braces are balanced, quotes included.

`Piece.joined` says which pieces the segments amount to: texts that follow each other are one text,
empty texts are none, and an expression loses the blanks around it. Main statement.
-/

namespace StackScript.Scanner

namespace Piece

/-- A character of a text as it is written between two quotes. -/
def escaped (quote c : Char) : List Char :=
  if c = '\\' ∨ c = quote ∨ c = '{' then ['\\', c] else [c]

/-- A segment as it is written between two quotes. -/
def written (quote : Char) : Piece → List Char
  | text s => s.toList.flatMap (escaped quote)
  | hole s => '{' :: s.toList ++ ['}']

/-- From `depth` open braces on, every closing brace closes one and none stays open. -/
def closesBraces : Nat → List Char → Bool
  | depth, [] => depth == 0
  | depth, c :: rest =>
    if c = '{' then closesBraces (depth + 1) rest
    else if c = '}' then
      match depth with
      | 0 => false
      | depth + 1 => closesBraces depth rest
    else closesBraces depth rest

def isBalanced : Piece → Bool
  | text _ => true
  | hole s => closesBraces 0 s.toList

/-- A text in front of pieces: it becomes part of a text that comes first, and if it is empty and
there is none it is left out. -/
def prepend (s : String) : List Piece → List Piece
  | text t :: pieces => text (s ++ t) :: pieces
  | pieces => if s = "" then pieces else text s :: pieces

/-- The pieces that segments amount to. -/
def joined : List Piece → List Piece
  | [] => []
  | text s :: segments => prepend s (joined segments)
  | hole s :: segments => hole (String.ofList (Text.trim s.toList)) :: joined segments

theorem prepend_empty (pieces : List Piece) : prepend "" pieces = pieces := by
  cases pieces with
  | nil => rfl
  | cons p pieces => cases p <;> simp [prepend]

theorem prepend_prepend (s t : String) (pieces : List Piece) :
    prepend s (prepend t pieces) = prepend (s ++ t) pieces := by
  have hcases : (∃ u more, pieces = text u :: more) ∨
      ∀ v, prepend v pieces = if v = "" then pieces else text v :: pieces := by
    match pieces with
    | [] => exact .inr fun _ => rfl
    | hole _ :: _ => exact .inr fun _ => rfl
    | text u :: more => exact .inl ⟨u, more, rfl⟩
  obtain ⟨u, more, rfl⟩ | hplain := hcases
  · simp only [prepend, String.append_assoc]
  · by_cases ht : t = ""
    · rw [ht, prepend_empty, String.append_empty]
    · have hst : s ++ t ≠ "" := by simp [ht]
      rw [hplain t, hplain (s ++ t), if_neg ht, if_neg hst]
      rfl

/-- The text collected so far, put in front of pieces that do not begin with a text. -/
theorem withText_eq_prepend (acc : List Char) (pieces : List Piece)
    (h : ∀ t more, pieces ≠ text t :: more) :
    withText acc pieces = prepend (String.ofList acc.reverse) pieces := by
  have hprepend (s : String) : prepend s pieces = if s = "" then pieces else text s :: pieces := by
    match pieces, h with
    | [], _ => rfl
    | hole _ :: _, _ => rfl
    | text t :: more, h => exact absurd rfl (h t more)
  rw [hprepend, withText]
  cases acc with
  | nil => simp
  | cons c acc => simp

end Piece

open Piece

variable {quote : Char} {rest : List Char}

theorem unescape_of_isQuote (hquote : quote = '"' ∨ quote = '\'') {c : Char}
    (hc : c = '\\' ∨ c = quote ∨ c = '{') : unescape c = c := by
  rcases hquote with rfl | rfl <;> rcases hc with rfl | rfl | rfl <;> rfl

/-- A written text goes to the text collected so far, and nothing else happens. -/
theorem formattedBody_text (hquote : quote = '"' ∨ quote = '\'') (text acc : List Char) :
    formattedBody (some quote) acc (text.flatMap (escaped quote) ++ rest) =
      ((formattedBody (some quote) (text.reverse ++ acc) rest).1,
        (formattedBody (some quote) (text.reverse ++ acc) rest).2 +
          (text.flatMap (escaped quote)).length) := by
  induction text generalizing acc with
  | nil => rfl
  | cons c text ih =>
    have hbackslash : some '\\' ≠ some quote := by rcases hquote with rfl | rfl <;> decide
    rw [List.flatMap_cons, List.append_assoc, List.reverse_cons, List.append_assoc]
    by_cases hc : c = '\\' ∨ c = quote ∨ c = '{'
    · rw [escaped, if_pos hc, List.cons_append, List.cons_append, List.nil_append,
        formattedBody_escape hbackslash, unescape_of_isQuote hquote hc, ih]
      simp [Nat.add_assoc]
    · have hnot := not_or.1 hc
      have hplain := not_or.1 hnot.2
      rw [escaped, if_neg hc, List.cons_append, List.nil_append,
        formattedBody_plain (by simpa using hplain.1) hnot.1 hplain.2, ih]
      simp [Nat.add_assoc]

/-- Between braces the source is taken up to the brace that closes the outermost one. -/
theorem holeBody_source (q : Option Char) (rest source acc : List Char) (depth : Nat)
    (h : closesBraces depth source = true) : holeBody q depth acc (source ++ '}' :: rest) =
      (.hole (String.ofList (Text.trim (acc.reverse ++ source))) :: (formattedBody q [] rest).1,
        (formattedBody q [] rest).2 + (source.length + 1)) := by
  induction source generalizing acc depth with
  | nil =>
    have hdepth : depth = 0 := by simpa [closesBraces] using h
    rw [List.nil_append, holeBody.eq_def]
    simp [hdepth]
  | cons c source ih =>
    -- The step the scanner takes at a character that does not end the hole.
    have hstep (depth' : Nat) (hnot : (c = '}' && depth = 0) = false)
        (hdepth : (if c = '{' then depth + 1 else if c = '}' then depth - 1 else depth) = depth')
        (hcloses : closesBraces depth' source = true) :
        holeBody q depth acc (c :: source ++ '}' :: rest) =
          (.hole (String.ofList (Text.trim (acc.reverse ++ c :: source))) ::
            (formattedBody q [] rest).1,
            (formattedBody q [] rest).2 + ((c :: source).length + 1)) := by
      rw [List.cons_append, holeBody.eq_def]
      simp only [hnot, Bool.false_eq_true, if_false, hdepth, ih (c :: acc) depth' hcloses]
      simp [Nat.add_assoc]
    rw [closesBraces.eq_def] at h
    simp only at h
    split at h
    · rename_i hopen
      exact hstep (depth + 1) (by simp [hopen]) (if_pos hopen) h
    · rename_i hopen
      split at h
      · rename_i hclose
        cases depth with
        | zero => exact absurd h (by simp)
        | succ depth => exact hstep depth (by simp) (by simp [hclose]) h
      · rename_i hclose
        exact hstep depth (by simp [hclose]) (by simp [hopen, hclose]) h

/-- The segments up to the closing quote, with a text collected before them. -/
theorem formattedBody_segments (hquote : quote = '"' ∨ quote = '\'') (rest : List Char)
    (segments : List Piece) (h : ∀ p ∈ segments, p.isBalanced = true) (acc : List Char) :
    formattedBody (some quote) acc (segments.flatMap (written quote) ++ quote :: rest) =
      (prepend (String.ofList acc.reverse) (joined segments),
        (segments.flatMap (written quote)).length) := by
  have hbrace : some '{' ≠ some quote := by rcases hquote with rfl | rfl <;> decide
  induction segments generalizing acc with
  | nil =>
    rw [List.flatMap_nil, List.nil_append, formattedBody_close rfl]
    exact congrArg (·, 0) (withText_eq_prepend acc [] (by simp))
  | cons p segments ih =>
    have hrest := ih fun p hp => h p (List.mem_cons_of_mem _ hp)
    rw [List.flatMap_cons, List.append_assoc]
    cases p with
    | text s =>
      rw [written, formattedBody_text hquote, hrest, joined, prepend_prepend, List.reverse_append,
        List.reverse_reverse, String.ofList_append, String.ofList_toList, List.length_append,
        Nat.add_comm]
    | hole s =>
      have hs : closesBraces 0 s.toList = true := h _ List.mem_cons_self
      have hhole := holeBody_source (some quote)
        (segments.flatMap (written quote) ++ quote :: rest) s.toList [] 0 hs
      have hempty : String.ofList ([] : List Char).reverse = "" := rfl
      rw [hrest, hempty, prepend_empty, List.reverse_nil, List.nil_append] at hhole
      rw [written, List.append_assoc, List.cons_append, List.singleton_append,
        formattedBody_hole hbrace, hhole, withText_eq_prepend acc _ (by simp), joined]
      simp only [List.length_append, List.length_cons, List.length_nil, Prod.mk.injEq, true_and]
      omega

theorem current?_advance {s : Scanner} {c d : Char} (hs : s.tape.rest = c :: d :: rest) :
    s.advance.current? = some d := by
  show s.advance.tape.rest.head? = _
  rw [rest_advance, hs]
  rfl

/-- The pieces of the written literal, and the quote behind them is passed as well. -/
theorem readFormatted_segments (hquote : quote = '"' ∨ quote = '\'') (segments : List Piece)
    (h : ∀ p ∈ segments, p.isBalanced = true) (s : Scanner)
    (hs : s.tape.rest = 'f' :: quote :: segments.flatMap (written quote) ++ quote :: rest) :
    s.readFormatted.1.kind = .formatted ∧
    s.readFormatted.1.text = (Datum.list ((joined segments).map Piece.datum)).write ∧
    s.readFormatted.2.tape.rest = rest := by
  have hcurrent : s.advance.current? = some quote := current?_advance hs
  have hopened : s.advance.advance.tape.rest =
      segments.flatMap (written quote) ++ quote :: rest := by
    rw [rest_advance, rest_advance, hs]
    rfl
  have hbody := formattedBody_segments hquote rest segments h []
  have hempty : String.ofList ([] : List Char).reverse = "" := rfl
  rw [hempty, prepend_empty] at hbody
  simp only [readFormatted, hcurrent, hopened, hbody, tokenFrom, true_and]
  have hbehind : (s.advance.advance.advanceBy
      (segments.flatMap (written quote)).length).tape.rest = quote :: rest := by
    rw [rest_advanceBy, hopened, List.drop_left]
  have hclosing : (s.advance.advance.advanceBy
      (segments.flatMap (written quote)).length).current? = some quote :=
    congrArg List.head? hbehind
  rw [closeQuote, if_pos hclosing, rest_advance, hbehind, List.tail_cons]

theorem primary_formatted {fuel : Nat} {expr : Reading Expr} {past following : List Token}
    {text : String} {line column : Nat} :
    Reading.primary fuel expr ⟨past, ⟨.formatted, text, line, column⟩ :: following, 0⟩ =
      (match Reading.piecesOf text with
        | .ok pieces => do Reading.advance; return .formatted pieces
        | .error e => throw e : Reading Expr)
        ⟨past, ⟨.formatted, text, line, column⟩ :: following, 0⟩ := rfl

/-- A literal written from segments is taken as it is written, with nothing of what follows; its
token is read as the formatted expression with the pieces that the segments amount to. -/
theorem primary_readFormatted (hquote : quote = '"' ∨ quote = '\'') (segments : List Piece)
    (h : ∀ p ∈ segments, p.isBalanced = true) (s : Scanner)
    (hs : s.tape.rest = 'f' :: quote :: segments.flatMap (written quote) ++ quote :: rest) :
    s.readToken 'f' = .ok s.readFormatted ∧ s.readFormatted.2.tape.rest = rest ∧
    ∀ (fuel : Nat) (expr : Reading Expr) (past following : List Token),
      Reading.primary fuel expr ⟨past, s.readFormatted.1 :: following, 0⟩ =
        .ok (.formatted (.list ((joined segments).map Piece.datum)))
          ⟨s.readFormatted.1 :: past, following, 0⟩ := by
  obtain ⟨hkind, htext, hrest⟩ := readFormatted_segments hquote segments h s hs
  refine ⟨?_, hrest, fun fuel expr past following => ?_⟩
  · have hcurrent : s.advance.current? = some quote := current?_advance hs
    have hdigit : Text.isDigit 'f' = false := by decide
    rcases hquote with rfl | rfl <;> simp [readToken, hdigit, hcurrent]
  · generalize s.readFormatted.1 = token at hkind htext ⊢
    obtain ⟨kind, text, line, column⟩ := token
    subst hkind htext
    rw [primary_formatted, Reading.piecesOf_write]
    rfl

/-- A literal with two texts that follow each other, an empty one and braces between braces. -/
def nestedSegments : List Piece :=
  [.text "say \"", .text "\x7b", .hole " d[\x7b\"k\"\x7d] ", .text "", .hole "x"]

theorem primary_readFormatted_nested : (∀ p ∈ nestedSegments, p.isBalanced = true) ∧
    joined nestedSegments = [.text "say \"\x7b", .hole "d[\x7b\"k\"\x7d]", .hole "x"] ∧
    (Scanner.ofText (String.ofList ('f' :: '"' :: nestedSegments.flatMap (written '"') ++
      ['"', ')']))).readFormatted.2.tape.rest = [')'] :=
  have hbalanced : ∀ p ∈ nestedSegments, p.isBalanced = true := by decide +kernel
  ⟨hbalanced, by decide +kernel,
    (primary_readFormatted (.inl rfl) nestedSegments hbalanced _ (by decide +kernel)).2.1⟩

end StackScript.Scanner
