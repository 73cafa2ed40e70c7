import StackScript.Token.Scanner

/-!
# Indentation

A scan opens a block at a line that is indented further than the one before, and closes blocks one
after another at a line that is indented less. This file follows a scan moment by moment: a moment
comes after each token, also between the ends of blocks that one line closes.

* `Token.scan_balanced`: blocks are balanced in the tokens of every text.
-/

namespace StackScript

namespace Scanner

/-! ## Moments -/

/-- A moment of a scan: the tokens found so far, latest first, and the widths of the open blocks,
innermost first. -/
structure Moment where
  found : List Token
  indents : List Nat

namespace Moment

/-- The stack of widths, from the base level to the innermost block. -/
def levels (m : Moment) : List Nat := 0 :: m.indents.reverse

/-- How many of the tokens found are of a kind. -/
def count (m : Moment) (kind : TokenKind) : Nat := m.found.countP (·.kind = kind)

/-- A token is found before the end: it opens a block that is wider than the innermost one, or
closes the innermost block, or leaves the blocks as they are. -/
inductive Step : Moment → Moment → Prop
  | opens {found : List Token} {ws : List Nat} {t : Token} {w : Nat} :
      t.kind = .indent → ws.headD 0 < w → Step ⟨found, ws⟩ ⟨t :: found, w :: ws⟩
  | closes {found : List Token} {ws : List Nat} {t : Token} {w : Nat} :
      t.kind = .dedent → Step ⟨found, w :: ws⟩ ⟨t :: found, ws⟩
  | plain {found : List Token} {ws : List Nat} {t : Token} :
      t.kind ∉ [TokenKind.indent, .dedent, .eof] → Step ⟨found, ws⟩ ⟨t :: found, ws⟩

/-- The moments that come after a moment, up to a last one. -/
inductive Path : Moment → List Moment → Moment → Prop
  | refl {m : Moment} : Path m [] m
  | step {m m₁ last : Moment} {ms : List Moment} : Step m m₁ → Path m₁ ms last →
      Path m (m₁ :: ms) last

/-- The widths rise from the base level, and as many blocks are open as there are block starts
without an end. -/
structure Balanced (m : Moment) : Prop where
  rising : m.levels.Pairwise (· < ·)
  opened : m.count .indent = m.count .dedent + m.indents.length

theorem Balanced.start : Balanced ⟨[], []⟩ := ⟨by simp [levels], rfl⟩

/-- The levels rise exactly if the widths fall to the base level. -/
theorem pairwise_levels {m : Moment} :
    m.levels.Pairwise (· < ·) ↔ (m.indents ++ [0]).Pairwise (· > ·) := by
  have hlevels : m.levels = (m.indents ++ [0]).reverse := by simp [levels]
  rw [hlevels, List.pairwise_reverse]

theorem Step.balanced {m m' : Moment} (h : Step m m') (hm : m.Balanced) : m'.Balanced := by
  obtain ⟨hrising, hopened⟩ := hm
  rw [pairwise_levels] at hrising
  cases h with
  | @opens found ws t w hkind hwide =>
    refine ⟨?_, ?_⟩
    · rw [pairwise_levels]
      refine List.pairwise_cons.2 ⟨fun v hv => ?_, hrising⟩
      -- The innermost width is the greatest one, and the new width is above it.
      cases ws with
      | nil =>
        obtain rfl : v = 0 := by simpa using hv
        exact hwide
      | cons top rest =>
        rcases List.mem_cons.1 hv with rfl | hv
        · exact hwide
        · have := (List.pairwise_cons.1 hrising).1 v hv
          have : top < w := hwide
          omega
    · simp only [count, List.countP_cons, hkind, List.length_cons] at hopened ⊢
      simp only [decide_true, if_true, reduceCtorEq, decide_false, Bool.false_eq_true, if_false]
      omega
  | closes hkind =>
    refine ⟨?_, ?_⟩
    · rw [pairwise_levels]
      exact (List.pairwise_cons.1 hrising).2
    · simp only [count, List.countP_cons, hkind, List.length_cons] at hopened ⊢
      simp only [decide_true, if_true, reduceCtorEq, decide_false, Bool.false_eq_true, if_false]
      omega
  | plain hkind =>
    refine ⟨pairwise_levels.2 hrising, ?_⟩
    simp only [List.mem_cons, List.not_mem_nil, or_false, not_or] at hkind
    simpa [count, List.countP_cons, hkind.1, hkind.2.1] using hopened

theorem Balanced.eof {found : List Token} {ws : List Nat} {t : Token} (h : Balanced ⟨found, ws⟩)
    (ht : t.kind = .eof) : Balanced ⟨t :: found, ws⟩ :=
  ⟨h.rising, by simpa [count, List.countP_cons, ht] using h.opened⟩

theorem Step.found {m m' : Moment} (h : Step m m') :
    ∃ t, m'.found = t :: m.found ∧ t.kind ≠ .eof := by
  cases h with
  | opens hkind | closes hkind => exact ⟨_, rfl, by simp [hkind]⟩
  | plain hkind => exact ⟨_, rfl, fun h => hkind (by simp [h])⟩

namespace Path

variable {m m' m'' : Moment} {ms ms' : List Moment}

theorem single (h : Step m m') : Path m [m'] m' := .step h .refl

theorem append (h : Path m ms m') (h' : Path m' ms' m'') : Path m (ms ++ ms') m'' := by
  induction h with
  | refl => exact h'
  | step hstep _ ih => exact .step hstep (ih h')

/-- Every moment of a path that starts with balanced blocks has balanced blocks. -/
theorem balanced (h : Path m ms m') (hm : m.Balanced) : ∀ n ∈ m :: ms, n.Balanced := by
  induction h with
  | refl => simpa using hm
  | step hstep _ ih =>
    intro n hn
    rcases List.mem_cons.1 hn with rfl | hn
    · exact hm
    · exact ih (hstep.balanced hm) n hn

theorem last_mem (h : Path m ms m') : m' ∈ m :: ms := by
  induction h with
  | refl => simp
  | step _ _ ih => exact List.mem_cons_of_mem _ ih

/-- The end is not among the tokens that are found on a path. -/
theorem ne_eof (h : Path m ms m') (hm : ∀ t ∈ m.found, t.kind ≠ .eof) :
    ∀ t ∈ m'.found, t.kind ≠ .eof := by
  induction h with
  | refl => exact hm
  | step hstep _ ih =>
    obtain ⟨t, ht, hkind⟩ := hstep.found
    apply ih
    rw [ht]
    exact List.forall_mem_cons.2 ⟨hkind, hm⟩

theorem suffix (h : Path m ms m') : ∀ n ∈ m :: ms, n.found <:+ m'.found := by
  induction h with
  | refl => simp
  | @step m m₁ last ms hstep _ ih =>
    intro n hn
    rcases List.mem_cons.1 hn with rfl | hn
    · obtain ⟨t, ht, -⟩ := hstep.found
      have hnext := ih m₁ List.mem_cons_self
      rw [ht] at hnext
      exact (List.suffix_cons t _).trans hnext
    · exact ih n hn

theorem exists_found (h : Path m ms m') {found : List Token} (hfrom : m.found <:+ found)
    (hto : found <:+ m'.found) : ∃ n ∈ m :: ms, n.found = found := by
  induction h with
  | refl =>
    have heq := hfrom.eq_of_length (Nat.le_antisymm hfrom.length_le hto.length_le)
    exact ⟨_, List.mem_cons_self, heq⟩
  | @step m m₁ last ms hstep hrest ih =>
    by_cases hsame : m.found = found
    · exact ⟨m, List.mem_cons_self, hsame⟩
    · obtain ⟨t, ht, -⟩ := hstep.found
      have hnext := hrest.suffix m₁ List.mem_cons_self
      -- Both lists end the last one, and the shorter of them is not `found`.
      have hlonger : m₁.found.length ≤ found.length := by
        have hne : m.found.length ≠ found.length := fun hlength =>
          hsame (hfrom.eq_of_length hlength)
        have := hfrom.length_le
        rw [ht, List.length_cons]
        omega
      obtain ⟨n, hn, hfound⟩ := ih (List.suffix_of_suffix_length_le hnext hto hlonger) hto
      exact ⟨n, List.mem_cons_of_mem _ hn, hfound⟩

end Path

end Moment

open Moment (Path Step)

/-! ## The moments of a scan -/

/-- The moments while the innermost block is closed, again and again as long as it is `wide`. -/
def closings (mark : Token) (wide : Nat → Bool) (found : List Token) : List Nat → List Moment
  | [] => []
  | w :: rest =>
    if wide w then ⟨mark :: found, rest⟩ :: closings mark wide (mark :: found) rest else []

/-- The moments while blocks are opened or closed for a line of the given width. -/
def indentings (width : Nat) (found : List Token) (s : Scanner) : List Moment :=
  if s.indents.headD 0 < width then
    [⟨⟨.indent, "", s.line, 1⟩ :: found, width :: s.indents⟩]
  else closings ⟨.dedent, "", s.line, 1⟩ (width < ·) found s.indents

/-- The moments at the start of a line. -/
def lineMoments (found : List Token) (s : Scanner) : List Moment :=
  let blanks := s.tape.rest.takeWhile isSpace
  match s.tape.rest.drop blanks.length with
  | c :: _ => if c = '\n' || c = '#' then [] else s.indentings (widthOf blanks) found
  | [] => []

/-- The moments of a round that leaves `next`. -/
def roundMoments (lineStart : Bool) (c : Char) (found : List Token) (s : Scanner) (next : Round) :
    List Moment :=
  if c ≠ '\n' && lineStart then s.lineMoments found
  else next.tokens.map fun t => ⟨t :: found, next.scanner.indents⟩

/-- The moments of a scan after its start and before its end, as `scanFrom` goes on. -/
def momentsFrom (fuel : Nat) (lineStart : Bool) (found : List Token) (s : Scanner) : List Moment :=
  match fuel, s.current? with
  | fuel + 1, some c =>
    match s.round lineStart c with
    | .error _ => []
    | .ok next =>
      s.roundMoments lineStart c found next ++
        momentsFrom fuel next.lineStart (next.tokens.reverse ++ found) next.scanner
  | _, _ => closings (s.tokenAt .dedent "") (fun _ => true) found s.indents

/-- The last moment of a scan. -/
def lastMoment : Except ScanError (List Token) × Scanner → List Moment
  | (.ok tokens, after) => [⟨tokens.reverse, after.indents⟩]
  | (.error _, _) => []

/-- All moments of a scan. -/
def history (s : Scanner) : List Moment :=
  ⟨[], s.indents⟩ :: momentsFrom (2 * s.tape.rest.length + 1) true [] s ++ lastMoment s.tokens

/-! ## Readings leave the blocks alone -/

@[simp] theorem indents_advance (s : Scanner) : s.advance.indents = s.indents := rfl

@[simp] theorem indents_advanceBy (n : Nat) (s : Scanner) :
    (s.advanceBy n).indents = s.indents := by
  induction n generalizing s with
  | zero => rfl
  | succ n ih => rw [advanceBy, ih, indents_advance]

@[simp] theorem indents_skipSpace (s : Scanner) : s.skipSpace.indents = s.indents :=
  indents_advanceBy _ s

@[simp] theorem indents_closeQuote (quote : Option Char) (s : Scanner) :
    (closeQuote quote s).indents = s.indents := by
  unfold closeQuote
  split <;> rfl

/-- The kinds that open or close blocks, and that of the end. -/
def blockKinds : List TokenKind := [.indent, .dedent, .eof]

theorem ofWord_not_mem_blockKinds (word : String) : TokenKind.ofWord word ∉ blockKinds := by
  unfold TokenKind.ofWord
  cases hfind : TokenKind.keywords.find? fun entry => entry.1 == word with
  | none => decide
  | some entry =>
    have hkinds : ∀ entry ∈ TokenKind.keywords, entry.2 ∉ blockKinds := by decide
    exact hkinds entry (List.mem_of_find?_eq_some hfind)

variable {s after : Scanner} {lineStart : Bool} {c : Char} {next : Round} {fuel : Nat} {t : Token}
  {found : List Token}

/-- A token that is read at a character neither opens nor closes a block, and it is not the end. -/
theorem readToken_plain
    (h : s.readToken c = .ok (t, after)) : t.kind ∉ blockKinds ∧ after.indents = s.indents := by
  unfold readToken at h
  split at h
  · cases h
    exact ⟨(by decide : TokenKind.comment ∉ blockKinds), by simp⟩
  split at h
  · cases h
    exact ⟨(by decide : TokenKind.number ∉ blockKinds), by simp⟩
  split at h
  · cases h
    exact ⟨(by decide : TokenKind.string ∉ blockKinds), by simp⟩
  split at h
  · cases h
    exact ⟨(by decide : TokenKind.formatted ∉ blockKinds), by simp⟩
  split at h
  · cases h
    exact ⟨ofWord_not_mem_blockKinds _, by simp⟩
  split at h
  · rename_i result hmark
    obtain ⟨mark, hfind, heq⟩ := Option.map_eq_some_iff.1 hmark
    cases h
    cases heq
    have hmarks : ∀ mark ∈ TokenKind.marks, mark.2 ∉ blockKinds := by decide
    exact ⟨hmarks mark (List.mem_of_find?_eq_some hfind), by simp⟩
  · cases h

/-! ## A scan is a path -/

theorem path_closings (mark : Token) (hmark : mark.kind = .dedent) (wide : Nat → Bool)
    (found : List Token) (ws : List Nat) : Path ⟨found, ws⟩ (closings mark wide found ws)
      ⟨((ws.takeWhile wide).map fun _ => mark).reverse ++ found,
        ws.drop (ws.takeWhile wide).length⟩ := by
  induction ws generalizing found with
  | nil => exact .refl
  | cons w rest ih =>
    by_cases hwide : wide w = true
    · have hrest := ih (mark :: found)
      simp only [closings, hwide, if_true, List.takeWhile_cons, List.map_cons, List.reverse_cons,
        List.append_assoc, List.length_cons, List.drop_succ_cons]
      exact .step (.closes hmark) hrest
    · simp only [closings, hwide, List.takeWhile_cons, Bool.false_eq_true, if_false]
      exact .refl

theorem path_indentings (width : Nat) (found : List Token) (s : Scanner) :
    Path ⟨found, s.indents⟩ (s.indentings width found)
      ⟨(s.indentTo width).1.reverse ++ found, (s.indentTo width).2.indents⟩ := by
  unfold indentings indentTo
  by_cases hwide : s.indents.headD 0 < width
  · simp only [hwide, if_true]
    exact .single (.opens rfl hwide)
  · simp only [hwide, if_false]
    exact path_closings _ rfl _ found s.indents

theorem path_lineMoments (found : List Token) (s : Scanner) :
    Path ⟨found, s.indents⟩ (s.lineMoments found)
      ⟨s.startLine.1.reverse ++ found, s.startLine.2.indents⟩ := by
  unfold lineMoments startLine
  dsimp only
  cases s.tape.rest.drop (s.tape.rest.takeWhile isSpace).length with
  | nil =>
    simp only [indents_skipSpace]
    exact .refl
  | cons c rest =>
    by_cases hblank : (c = '\n' || c = '#') = true
    · simp only [hblank, if_true, indents_skipSpace]
      exact .refl
    · simp only [hblank, Bool.false_eq_true, if_false, indents_skipSpace]
      exact path_indentings _ found s

/-- What a round does: it takes a line end, or the blanks at the start of a line, or other blanks, or
a word. -/
theorem round_cases (h : s.round lineStart c = .ok next) :
    (c = '\n' ∧ next = ⟨[s.tokenAt .newline "\n"], true, s.advance⟩) ∨
    ((c ≠ '\n' ∧ lineStart = true) ∧ next = ⟨s.startLine.1, false, s.startLine.2⟩) ∨
    ((isSpace c = true ∧ lineStart = false) ∧ next = ⟨[], false, s.skipSpace⟩) ∨
    (lineStart = false ∧ ∃ t after, s.readToken c = .ok (t, after) ∧ next = ⟨[t], false, after⟩) := by
  unfold round at h
  split at h
  · rename_i hc
    exact .inl ⟨hc, (Except.ok.inj h).symm⟩
  rename_i hc
  split at h
  · rename_i hstart
    exact .inr (.inl ⟨⟨hc, hstart⟩, (Except.ok.inj h).symm⟩)
  rename_i hstart
  have hstart : lineStart = false := by simpa using hstart
  split at h
  · rename_i hspace
    exact .inr (.inr (.inl ⟨⟨hspace, hstart⟩, (Except.ok.inj h).symm⟩))
  · cases hread : s.readToken c with
    | error e => simp [hread, bind, Except.bind] at h
    | ok result =>
      obtain ⟨t, after⟩ := result
      simp only [hread, bind, Except.bind, pure, Except.pure, Except.ok.injEq] at h
      exact .inr (.inr (.inr ⟨hstart, t, after, rfl, h.symm⟩))

theorem path_roundMoments (h : s.round lineStart c = .ok next) (found : List Token) :
    Path ⟨found, s.indents⟩ (s.roundMoments lineStart c found next)
      ⟨next.tokens.reverse ++ found, next.scanner.indents⟩ := by
  unfold roundMoments
  rcases round_cases h with ⟨hline, rfl⟩ | ⟨hline, rfl⟩ | ⟨⟨-, hstart⟩, rfl⟩ |
    ⟨hstart, t, after, hread, rfl⟩
  · rw [if_neg (by simp [hline])]
    exact .single (.plain (by decide : TokenKind.newline ∉ blockKinds))
  · rw [if_pos (by simp [hline])]
    exact path_lineMoments found s
  · rw [if_neg (by simp [hstart])]
    dsimp only
    rw [indents_skipSpace]
    exact .refl
  · obtain ⟨hkind, hindents⟩ := readToken_plain hread
    rw [if_neg (by simp [hstart])]
    dsimp only
    rw [hindents]
    exact .single (.plain hkind)

theorem path_finish (found : List Token) (s : Scanner) : ∃ found', Path ⟨found, s.indents⟩
        (closings (s.tokenAt .dedent "") (fun _ => true) found s.indents) ⟨found', []⟩ ∧
      found.reverse ++ s.finish.1 = found'.reverse ++ [s.tokenAt .eof ""] := by
  have hclosed := path_closings (s.tokenAt .dedent "") rfl (fun _ => true) found s.indents
  have hall : s.indents.takeWhile (fun _ => true) = s.indents := by
    induction s.indents with
    | nil => rfl
    | cons w rest ih => rw [List.takeWhile_cons, if_pos rfl, ih]
  rw [hall, List.drop_length] at hclosed
  exact ⟨_, hclosed, by simp [finish]⟩

theorem scanFrom_round
    (hc : s.current? = some c) (hround : s.round lineStart c = .ok next) (fuel : Nat)
    (found : List Token) : s.scanFrom (fuel + 1) lineStart found =
      next.scanner.scanFrom fuel next.lineStart (next.tokens.reverse ++ found) := by
  conv => lhs; unfold scanFrom
  simp only [hc, hround]

theorem over_of_no_round (h : ∀ n c, fuel = n + 1 → s.current? = some c → False) :
    fuel = 0 ∨ s.current? = none := by
  cases fuel with
  | zero => exact .inl rfl
  | succ fuel => exact .inr (Option.eq_none_iff_forall_ne_some.2 fun c hc => h fuel c rfl hc)

theorem momentsFrom_round
    (hc : s.current? = some c) (hround : s.round lineStart c = .ok next) (fuel : Nat)
    (found : List Token) :
    s.momentsFrom (fuel + 1) lineStart found = s.roundMoments lineStart c found next ++
      next.scanner.momentsFrom fuel next.lineStart (next.tokens.reverse ++ found) := by
  conv => lhs; unfold momentsFrom
  simp only [hc, hround]

theorem momentsFrom_end (h : fuel = 0 ∨ s.current? = none)
    (lineStart : Bool) (found : List Token) : s.momentsFrom fuel lineStart found =
      closings (s.tokenAt .dedent "") (fun _ => true) found s.indents := by
  unfold momentsFrom
  rcases h with rfl | hc
  · rfl
  · rw [hc]
    cases fuel <;> rfl

/-- A scan that ends with tokens goes along a path to all of them but the end, which comes when no
block is open. -/
theorem path_momentsFrom (fuel : Nat) (lineStart : Bool) (found : List Token) (s : Scanner)
    {tokens : List Token} (h : s.scanFrom fuel lineStart found = (.ok tokens, after)) :
    after.indents = [] ∧ ∃ found' last, last.kind = .eof ∧ tokens = found'.reverse ++ [last] ∧
      Path ⟨found, s.indents⟩ (s.momentsFrom fuel lineStart found) ⟨found', []⟩ := by
  fun_induction scanFrom fuel lineStart found s with
  | case1 => cases h
  | case2 lineStart found s fuel c hc next hround ih =>
    rw [momentsFrom_round hc hround]
    obtain ⟨hindents, found', last, hlast, htokens, hpath⟩ := ih h
    exact ⟨hindents, found', last, hlast, htokens, (path_roundMoments hround found).append hpath⟩
  | case3 fuel lineStart found s closing after hfinish hover =>
    rw [momentsFrom_end (over_of_no_round hover)]
    obtain ⟨found', hpath, htokens⟩ := path_finish found s
    cases hfinish
    cases h
    exact ⟨rfl, found', _, rfl, htokens, hpath⟩

/-! ## The end of the text -/

@[simp] theorem rest_advance (s : Scanner) : s.advance.tape.rest = s.tape.rest.tail := by
  show s.tape.advance.rest = _
  unfold Tape.advance
  split <;> simp_all

@[simp] theorem rest_advanceBy (n : Nat) (s : Scanner) :
    (s.advanceBy n).tape.rest = s.tape.rest.drop n := by
  induction n generalizing s with
  | zero => rfl
  | succ n ih => rw [advanceBy, ih, rest_advance, List.drop_tail]

theorem rest_closeQuote_le (quote : Option Char) (s : Scanner) :
    (closeQuote quote s).tape.rest.length ≤ s.tape.rest.length := by
  unfold closeQuote
  split
  · simp
  · exact Nat.le_refl _

theorem length_takeRun_lt {p : Char → Bool} (hc : s.current? = some c)
    (hp : p c = true) : (s.takeRun p).2.tape.rest.length < s.tape.rest.length := by
  obtain ⟨rest, hrest⟩ : ∃ rest, s.tape.rest = c :: rest := List.head?_eq_some_iff.1 hc
  have hrun : 0 < (s.tape.rest.takeWhile p).length := by
    rw [hrest, List.takeWhile_cons, if_pos hp]
    exact Nat.succ_pos _
  have hlength : 0 < s.tape.rest.length := by
    rw [hrest]
    exact Nat.succ_pos _
  simp only [takeRun, rest_advanceBy, List.length_drop]
  omega

theorem isNameChar_of_isLetter (h : Text.isLetter c = true) : Text.isNameChar c = true := by
  unfold Text.isNameChar
  by_cases hsmall : c.toNat < 0x80
  · rw [if_pos hsmall]
    rw [Text.isLetter, if_pos hsmall] at h
    exact Bool.or_eq_true_iff.2 (.inl h)
  · rw [if_neg hsmall, h, Bool.true_or, Bool.true_or]

theorem readToken_shorter (hc : s.current? = some c)
    (h : s.readToken c = .ok (t, after)) : after.tape.rest.length < s.tape.rest.length := by
  obtain ⟨rest, hrest⟩ : ∃ rest, s.tape.rest = c :: rest := List.head?_eq_some_iff.1 hc
  unfold readToken at h
  split at h
  · cases h
    simp only [rest_advanceBy, rest_advance, hrest, List.length_drop, List.tail_cons,
      List.length_cons]
    omega
  split at h
  · rename_i hdigit
    cases h
    exact length_takeRun_lt hc (by simp [hdigit])
  split at h
  · cases h
    refine Nat.lt_of_le_of_lt (rest_closeQuote_le _ _) ?_
    simp only [rest_advanceBy, rest_advance, hrest, List.length_drop, List.tail_cons,
      List.length_cons]
    omega
  split at h
  · cases h
    refine Nat.lt_of_le_of_lt (rest_closeQuote_le _ _) ?_
    simp only [rest_advanceBy, rest_advance, hrest, List.length_drop, List.length_tail,
      List.tail_cons, List.length_cons]
    omega
  split at h
  · rename_i hletter
    cases h
    refine length_takeRun_lt hc ?_
    simp only [Bool.or_eq_true, decide_eq_true_eq, beq_iff_eq] at hletter ⊢
    exact hletter.imp_left isNameChar_of_isLetter
  split at h
  · rename_i result hmark
    obtain ⟨mark, hfind, heq⟩ := Option.map_eq_some_iff.1 hmark
    cases h
    cases heq
    have hmarks : ∀ mark ∈ TokenKind.marks, 0 < mark.1.length := by decide
    have hpos := hmarks mark (List.mem_of_find?_eq_some hfind)
    simp only [rest_advanceBy, hrest, List.length_drop, List.length_cons]
    omega
  · cases h

theorem rest_startLine_le (s : Scanner) : s.startLine.2.tape.rest.length ≤ s.tape.rest.length := by
  have hskip (s : Scanner) : s.skipSpace.tape.rest.length ≤ s.tape.rest.length := by
    simp only [skipSpace, rest_advanceBy, List.length_drop]
    omega
  have hindent (width : Nat) : (s.indentTo width).2.tape = s.tape := by
    unfold indentTo
    dsimp only
    split <;> rfl
  unfold startLine
  dsimp only
  split
  · split
    · exact hskip s
    · refine Nat.le_trans (hskip _) (Nat.le_of_eq ?_)
      rw [hindent]
  · exact hskip s

/-- What is left to do: each character may end a line and start one. -/
def workLeft (lineStart : Bool) (s : Scanner) : Nat :=
  2 * s.tape.rest.length + if lineStart then 1 else 0

theorem workLeft_round (hc : s.current? = some c) (h : s.round lineStart c = .ok next) :
    next.scanner.workLeft next.lineStart < s.workLeft lineStart := by
  obtain ⟨rest, hrest⟩ : ∃ rest, s.tape.rest = c :: rest := List.head?_eq_some_iff.1 hc
  unfold workLeft
  rcases round_cases h with ⟨-, rfl⟩ | ⟨⟨-, hstart⟩, rfl⟩ | ⟨⟨hspace, -⟩, rfl⟩ |
    ⟨-, t, after, hread, rfl⟩
  · simp only [rest_advance, hrest, List.tail_cons, List.length_cons, if_true]
    omega
  · have hle := s.rest_startLine_le
    rw [if_neg Bool.false_ne_true, if_pos hstart]
    dsimp only
    omega
  · have hlt : s.skipSpace.tape.rest.length < s.tape.rest.length := length_takeRun_lt hc hspace
    simp only [Bool.false_eq_true, if_false]
    omega
  · have hlt := readToken_shorter hc hread
    simp only [Bool.false_eq_true, if_false]
    omega

/-- A scan with enough rounds ends at the end of the text. -/
theorem rest_scanFrom (hfuel : s.workLeft lineStart ≤ fuel) {tokens : List Token}
    (h : s.scanFrom fuel lineStart found = (.ok tokens, after)) : after.tape.rest = [] := by
  fun_induction scanFrom fuel lineStart found s with
  | case1 => cases h
  | case2 lineStart found s fuel c hc next hround ih =>
    have := workLeft_round hc hround
    exact ih (by omega) h
  | case3 fuel lineStart found s closing after hfinish hover =>
    cases hfinish
    cases h
    rcases over_of_no_round hover with rfl | hc
    · have hzero : s.tape.rest.length = 0 := by
        unfold workLeft at hfuel
        omega
      exact List.length_eq_zero_iff.1 hzero
    · exact List.head?_eq_none_iff.1 hc

/-- The rounds of a scan: where one starts, with the tokens found before it. -/
inductive Rounds : Bool → List Token → Scanner → Bool → List Token → Scanner → Prop
  | refl {lineStart : Bool} {found : List Token} {s : Scanner} :
      Rounds lineStart found s lineStart found s
  | round {lineStart lineStart' : Bool} {found found' : List Token} {s s' : Scanner} {c : Char}
      {next : Round} : s.current? = some c → s.round lineStart c = .ok next →
      Rounds next.lineStart (next.tokens.reverse ++ found) next.scanner lineStart' found' s' →
      Rounds lineStart found s lineStart' found' s'

/-- A scan with enough rounds has a moment where any round starts. -/
theorem Rounds.mem_momentsFrom {lineStart' : Bool} {found' : List Token}
    {s' : Scanner} (h : Rounds lineStart found s lineStart' found' s')
    (hfuel : s.workLeft lineStart ≤ fuel) :
    ⟨found', s'.indents⟩ ∈ (⟨found, s.indents⟩ : Moment) :: s.momentsFrom fuel lineStart found := by
  induction h generalizing fuel with
  | refl => exact List.mem_cons_self
  | @round lineStart _ found _ s _ c next hc hround _ ih =>
    have hwork := workLeft_round hc hround
    obtain ⟨fuel, rfl⟩ : ∃ n, fuel = n + 1 := ⟨fuel - 1, by omega⟩
    rw [momentsFrom_round hc hround]
    have hlast := (path_roundMoments hround found).last_mem
    have hnext := @ih fuel (by omega)
    rcases List.mem_cons.1 hnext with heq | hmem
    · rw [heq]
      exact List.mem_append_left _ hlast
    · exact List.mem_cons_of_mem _ (List.mem_append_right _ hmem)

end Scanner

theorem Token.ends_of_scan {source : String} {tokens : List Token}
    (h : Token.scan source = .ok tokens) :
    ∃ first last, tokens = first ++ [last] ∧ last.kind = .eof ∧ ∀ t ∈ first, t.kind ≠ .eof := by
  have hscan : (Scanner.ofText source).tokens = (.ok tokens, (Scanner.ofText source).tokens.2) :=
    Prod.ext h rfl
  obtain ⟨-, found, last, hlast, heq, hpath⟩ := Scanner.path_momentsFrom _ _ _ _ hscan
  refine ⟨found.reverse, last, heq, hlast, fun t ht => ?_⟩
  exact hpath.ne_eof (by simp) t (List.mem_reverse.1 ht)

/-- In every text whose tokens can be found, blocks are balanced. At every moment of the scan the
widths rise from the base level, the tokens found are the first tokens of the result, and among
them are as many block ends as block starts, but for the open blocks; there is a moment for each
number of first tokens, and one for each round. The scan passes the whole text and leaves no block
open, and its last token alone is the end. -/
theorem Token.scan_balanced {source : String} {tokens : List Token}
    (h : Token.scan source = .ok tokens) :
    (∀ m ∈ (Scanner.ofText source).history,
      m.levels.head? = some 0 ∧ m.levels.Pairwise (· < ·) ∧ m.found.reverse <+: tokens ∧
        m.count .dedent ≤ m.count .indent ∧
        m.count .indent - m.count .dedent = m.levels.length - 1) ∧
    (∀ k ≤ tokens.length, ∃ m ∈ (Scanner.ofText source).history, m.found.reverse = tokens.take k) ∧
    (∀ lineStart found s, Scanner.Rounds true [] (.ofText source) lineStart found s →
      ⟨found, s.indents⟩ ∈ (Scanner.ofText source).history) ∧
    tokens.countP (·.kind = .indent) = tokens.countP (·.kind = .dedent) ∧
    (Scanner.ofText source).tokens.2.indents = [] ∧
    (Scanner.ofText source).tokens.2.tape.rest = [] ∧
    ∃ first last, tokens = first ++ [last] ∧ last.kind = .eof ∧ ∀ t ∈ first, t.kind ≠ .eof := by
  have hscan : (Scanner.ofText source).tokens = (.ok tokens, (Scanner.ofText source).tokens.2) :=
    Prod.ext h rfl
  obtain ⟨hindents, found, last, hlast, rfl, hpath⟩ := Scanner.path_momentsFrom _ _ _ _ hscan
  have hend : (Scanner.ofText source).history =
      (⟨[], []⟩ :: (Scanner.ofText source).momentsFrom
        (2 * (Scanner.ofText source).tape.rest.length + 1) true []) ++ [⟨last :: found, []⟩] := by
    rw [Scanner.history, hscan]
    simp only [Scanner.lastMoment, hindents, List.reverse_append, List.reverse_reverse,
      List.reverse_singleton, List.singleton_append]
    rfl
  have hbalanced := hpath.balanced .start
  have hfinal : Scanner.Moment.Balanced ⟨last :: found, []⟩ :=
    (hbalanced _ hpath.last_mem).eof hlast
  refine ⟨fun m hm => ?_, fun k hk => ?_, fun lineStart found' s hrounds => ?_, ?_, hindents,
    Scanner.rest_scanFrom (by simp [Scanner.workLeft]) hscan, Token.ends_of_scan h⟩
  · have hm' : m.Balanced ∧ m.found <:+ last :: found := by
      rw [hend] at hm
      rcases List.mem_append.1 hm with hm | hm
      · exact ⟨hbalanced m hm, (hpath.suffix m hm).trans (List.suffix_cons last found)⟩
      · rw [List.mem_singleton.1 hm]
        exact ⟨hfinal, List.suffix_rfl⟩
    obtain ⟨⟨hrising, hopened⟩, hsuffix⟩ := hm'
    refine ⟨rfl, hrising, ?_, by omega, ?_⟩
    · simpa using List.reverse_prefix.2 hsuffix
    · simp only [Scanner.Moment.levels, List.length_cons, List.length_reverse]
      omega
  · rw [hend]
    by_cases hall : k ≤ found.length
    · have htake : ((found.reverse ++ [last]).take k).reverse <:+ found := by
        rw [List.take_append_of_le_length (by simpa using hall)]
        simpa using List.reverse_suffix.2 (List.take_prefix k found.reverse)
      obtain ⟨m, hm, hfound⟩ := hpath.exists_found (List.nil_suffix) htake
      exact ⟨m, List.mem_append_left _ hm, by rw [hfound, List.reverse_reverse]⟩
    · have hk' : (found.reverse ++ [last]).length ≤ k := by
        simp only [List.length_append, List.length_reverse, List.length_singleton]
        omega
      refine ⟨_, List.mem_append_right _ (List.mem_singleton_self _), ?_⟩
      rw [List.take_of_length_le hk', List.reverse_cons]
  · rw [hend]
    exact List.mem_append_left _ (hrounds.mem_momentsFrom (by simp [Scanner.workLeft]))
  · have hopened : (last :: found).countP (·.kind = .indent) =
        (last :: found).countP (·.kind = .dedent) := hfinal.opened
    have hreverse (kind : TokenKind) : (found.reverse ++ [last]).countP (·.kind = kind) =
        (last :: found).countP (·.kind = kind) := by
      rw [← List.reverse_cons, List.countP_reverse]
    rw [hreverse, hreverse, hopened]

/-- A tab, blanks, a comment, a literal over two lines and a line between two open widths. -/
theorem Token.scan_balanced_mixed_widths :
    ∃ tokens, Token.scan "a\n\tb\n      'c\n d'\n # e\n\n     f\n  g" = .ok tokens ∧
      tokens.map (·.kind) = [.name, .newline, .indent, .name, .newline, .indent, .string, .newline,
        .comment, .newline, .newline, .dedent, .name, .newline, .dedent, .name, .eof] ∧
      tokens.countP (·.kind = .indent) = tokens.countP (·.kind = .dedent) := by
  have hkinds : (Token.scan "a\n\tb\n      'c\n d'\n # e\n\n     f\n  g").toOption.map
      (List.map (·.kind)) = some [.name, .newline, .indent, .name, .newline, .indent, .string,
        .newline, .comment, .newline, .newline, .dedent, .name, .newline, .dedent, .name,
        .eof] := by
    decide +kernel
  cases hscan : Token.scan "a\n\tb\n      'c\n d'\n # e\n\n     f\n  g" with
  | error e => simp [hscan, Except.toOption] at hkinds
  | ok tokens =>
    refine ⟨tokens, rfl, ?_, (Token.scan_balanced hscan).2.2.2.1⟩
    simpa [hscan, Except.toOption] using hkinds

end StackScript
