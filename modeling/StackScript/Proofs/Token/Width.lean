import StackScript.Proofs.Token.Passage

/-!
# Widths of lines

The blocks that a line opens and closes depend on its width and on the widths that are open. This
file says what follows for lines of equal width.

* `Token.blocks_between_equal_widths`: the second of two such lines of equal width changes the open
  blocks only if the first one came back to a width that was not open.
-/

namespace StackScript

namespace Scanner

variable {s s' : Scanner} {found found' : List Token} {lineStart : Bool}

/-! ## Lines of equal width -/

/-- Of two lines at which a scan comes by, the second is the next line of code behind the first: all
lines that start between them are blank or hold a comment only. -/
structure Consecutive (found : List Token) (s : Scanner) (found' : List Token) (s' : Scanner) :
    Prop where
  rounds : Rounds true found s true found' s'
  later : s'.tape.rest.length < s.tape.rest.length
  between : ∀ f m, Rounds true found s true f m → Rounds true f m true found' s' →
    s'.tape.rest.length < m.tape.rest.length → m.tape.rest.length < s.tape.rest.length →
    lineWidth? m.tape.rest = none

theorem Rounds.trans {lineStart' lineStart'' : Bool} {found'' : List Token} {s'' : Scanner}
    (h : Rounds lineStart found s lineStart' found' s')
    (h' : Rounds lineStart' found' s' lineStart'' found'' s'') :
    Rounds lineStart found s lineStart'' found'' s'' := by
  induction h with
  | refl => exact h'
  | round hc hround _ ih => exact .round hc hround (ih h')

theorem Rounds.workLeft_le {lineStart' : Bool} (h : Rounds lineStart found s lineStart' found' s') :
    s'.workLeft lineStart' ≤ s.workLeft lineStart := by
  induction h with
  | refl => exact Nat.le_refl _
  | round hc hround _ ih => exact Nat.le_trans ih (Nat.le_of_lt (workLeft_round hc hround))

theorem startLine_of_blank (h : lineWidth? s.tape.rest = none) :
    s.startLine.1 = [] ∧ s.startLine.2.indents = s.indents := by
  obtain ⟨hwords, hindents⟩ := Prod.ext_iff.1 (told_startLine s)
  rw [opening, h] at hwords hindents
  exact ⟨List.map_eq_nil_iff.1 hwords, hindents⟩

/-- As long as no line of code starts, no block is opened or closed. -/
theorem Rounds.keeps_blocks {lineStart' : Bool} (h : Rounds lineStart found s lineStart' found' s')
    (hstart : lineStart' = true)
    (hblank : ∀ f m, Rounds lineStart found s true f m → Rounds true f m lineStart' found' s' →
      s'.tape.rest.length < m.tape.rest.length → lineWidth? m.tape.rest = none) :
    ∃ line, found'.reverse = found.reverse ++ line ∧
      (∀ t ∈ line, t.kind ≠ .indent ∧ t.kind ≠ .dedent) ∧ s'.indents = s.indents := by
  induction h with
  | refl => exact ⟨[], by simp, by simp, rfl⟩
  | @round lineStart lineStart' found found' s s' c next hc hround hrest ih =>
    obtain ⟨line, hline, hkinds, hindents⟩ := ih hstart fun f m hm hm' =>
      hblank f m (.round hc hround hm) hm'
    suffices hfirst : (∀ t ∈ next.tokens, t.kind ≠ .indent ∧ t.kind ≠ .dedent) ∧
        next.scanner.indents = s.indents by
      refine ⟨next.tokens ++ line, by simp [hline], ?_, hindents.trans hfirst.2⟩
      intro t ht
      exact (List.mem_append.1 ht).elim (hfirst.1 t) (hkinds t)
    have hwork := workLeft_round hc hround
    have hwork' := hrest.workLeft_le
    rcases round_cases hround with ⟨-, rfl⟩ | ⟨⟨-, rfl⟩, rfl⟩ | ⟨-, rfl⟩ |
      ⟨-, t, after, hread, rfl⟩
    · exact ⟨by simp [tokenAt], rfl⟩
    · have hlater : s'.tape.rest.length < s.tape.rest.length := by
        subst hstart
        unfold workLeft at hwork hwork'
        simp only [if_true] at hwork hwork'
        omega
      obtain ⟨htokens, hsame⟩ :=
        startLine_of_blank (hblank found s .refl (.round hc hround hrest) hlater)
      exact ⟨by simp [htokens], hsame⟩
    · exact ⟨by simp, by simp⟩
    · obtain ⟨hkind, hindents⟩ := readToken_plain hread
      refine ⟨?_, hindents⟩
      intro t' ht'
      obtain rfl := List.mem_singleton.1 ht'
      exact ⟨fun h => hkind (by simp [blockKinds, h]), fun h => hkind (by simp [blockKinds, h])⟩

/-- A line that opens a block, or comes back to a width that is open, stands at the innermost open
width afterwards. Any other line leaves the innermost open width below its own. -/
theorem indentation_again {indents : List Nat} (hrising : (indents ++ [0]).Pairwise (· > ·))
    (width : Nat) : ((indents.headD 0 < width ∨ width ∈ 0 :: indents) →
      (indentation (indentation indents width).2 width).1 = []) ∧
    (¬ (indents.headD 0 < width ∨ width ∈ 0 :: indents) →
      (indentation (indentation indents width).2 width).1 = [(.indent, "")]) := by
  by_cases hwide : indents.headD 0 < width
  · have htop : indentation indents width = ([(.indent, "")], width :: indents) := by
      rw [indentation, if_pos hwide]
    rw [htop]
    refine ⟨fun _ => ?_, fun h => absurd (.inl hwide) h⟩
    simp [indentation]
  have hleft : (indentation indents width).2 = indents.dropWhile (width < ·) := by
    rw [indentation, if_neg hwide]
  rw [hleft]
  -- Behind the wider levels comes the level of the line, if it is open at all.
  have htop : (width ∈ 0 :: indents → (indents.dropWhile (width < ·)).headD 0 = width) ∧
      (width ∉ 0 :: indents → (indents.dropWhile (width < ·)).headD 0 < width) := by
    clear hwide hleft
    induction indents with
    | nil =>
      refine ⟨fun h => ?_, fun h => ?_⟩
      · simpa using (List.mem_singleton.1 h).symm
      · have hne : width ≠ 0 := fun hzero => h (by simp [hzero])
        exact Nat.pos_of_ne_zero hne
    | cons w rest ih =>
      obtain ⟨hbelow, hrest⟩ := List.pairwise_cons.1 hrising
      obtain ⟨hin, hout⟩ := ih hrest
      by_cases hw : width < w
      · rw [List.dropWhile_cons_of_pos (by simpa using hw)]
        have hiff : width ∈ 0 :: w :: rest ↔ width ∈ 0 :: rest := by
          simp [Nat.ne_of_lt hw]
        exact ⟨fun h => hin (hiff.1 h), fun h => hout fun h' => h (hiff.2 h')⟩
      · rw [List.dropWhile_cons_of_neg (by simpa using hw)]
        refine ⟨fun h => ?_, fun h => ?_⟩
        · rcases List.mem_cons.1 h with rfl | h
          · have := hbelow 0 (by simp)
            omega
          · rcases List.mem_cons.1 h with rfl | h
            · rfl
            · have := hbelow width (List.mem_append_left _ h)
              omega
        · simp only [List.mem_cons, not_or] at h
          show w < width
          omega
  have hnot : ∀ top, top = width → ¬ top < width := by omega
  refine ⟨fun h => ?_, fun h => ?_⟩
  · have heq := htop.1 (h.resolve_left hwide)
    have hnone : (indents.dropWhile (width < ·)).takeWhile (width < ·) = [] := by
      cases hd : indents.dropWhile (width < ·) with
      | nil => rfl
      | cons w rest =>
        rw [hd] at heq
        obtain rfl : w = width := heq
        simp
    rw [indentation, if_neg (hnot _ heq), hnone]
    rfl
  · have hless := htop.2 fun hmem => h (.inr hmem)
    rw [indentation, if_pos hless]

/-- Rounds lead from one part of a scan to another. -/
theorem Rounds.scanFrom {lineStart' : Bool} (h : Rounds lineStart found s lineStart' found' s') {fuel : Nat}
    (hfuel : s.workLeft lineStart ≤ fuel) : ∃ fuel', s'.workLeft lineStart' ≤ fuel' ∧
      s.scanFrom fuel lineStart found = s'.scanFrom fuel' lineStart' found' := by
  induction h generalizing fuel with
  | refl => exact ⟨fuel, hfuel, rfl⟩
  | round hc hround _ ih =>
    have hwork := workLeft_round hc hround
    obtain ⟨fuel, rfl⟩ : ∃ n, fuel = n + 1 := ⟨fuel - 1, by omega⟩
    obtain ⟨fuel', hfuel', hscan⟩ := @ih fuel (by omega)
    exact ⟨fuel', hfuel', (scanFrom_round hc hround _ _).trans hscan⟩

theorem found_prefix {fuel : Nat} {tokens : List Token} {after : Scanner}
    (h : s.scanFrom fuel lineStart found = (.ok tokens, after)) : found.reverse <+: tokens := by
  obtain ⟨-, found', last, -, rfl, hpath⟩ := path_momentsFrom fuel lineStart found s h
  have hsuffix := hpath.suffix _ List.mem_cons_self
  exact (List.reverse_prefix.2 hsuffix).trans (List.prefix_append _ _)

/-- At a line of code a round opens or closes blocks and comes to the code. -/
theorem round_of_lineWidth {width : Nat} (h : lineWidth? s.tape.rest = some width) :
    ∃ c, s.current? = some c ∧ s.round true c = .ok ⟨s.startLine.1, false, s.startLine.2⟩ := by
  cases hrest : s.tape.rest with
  | nil =>
    rw [hrest] at h
    cases h
  | cons c rest =>
    refine ⟨c, by simp [current?, Tape.current?, hrest], ?_⟩
    have hc : c ≠ '\n' := by
      rintro rfl
      rw [hrest] at h
      cases h
    simp [round, hc]

/-- Two lines between which only one line ends are consecutive. -/
theorem Rounds.consecutive {line : List Char} (h : Rounds true found s true found' s')
    (hrest : s.tape.rest = line ++ '\n' :: s'.tape.rest) (hline : '\n' ∉ line) :
    Consecutive found s found' s' := by
  refine ⟨h, by simp [hrest]; omega, fun f m hm hm' hlate hearly => ?_⟩
  obtain ⟨words, -, hcomes⟩ := hm.comes
  obtain ⟨words', -, hcomes'⟩ := hm'.comes
  obtain ⟨a, ha⟩ : m.tape.rest <:+ s.tape.rest := hcomes.suffix
  obtain ⟨b, hb⟩ : s'.tape.rest <:+ m.tape.rest := hcomes'.suffix
  rcases (hcomes.passage rfl (a := a) ha.symm).1 with ⟨rfl, -, -⟩ | ⟨hmem, -⟩
  · rw [← ha] at hearly
    exact absurd hearly (Nat.lt_irrefl _)
  · have hsplit : a ++ b = line ++ ['\n'] := by
      apply (List.append_left_inj s'.tape.rest).1
      rw [List.append_assoc, hb, ha, hrest, List.append_assoc, List.singleton_append]
    have hb : b ≠ [] := by
      rintro rfl
      rw [← hb] at hlate
      exact absurd hlate (Nat.lt_irrefl _)
    rw [← List.dropLast_concat_getLast hb, ← List.append_assoc] at hsplit
    have hfront := (List.append_inj' hsplit rfl).1
    exact absurd (hfront ▸ List.mem_append_left _ hmem) hline

/-- Two consecutive lines of a text, from the rounds that lead to them. -/
theorem exists_consecutive (source : String) (n m : Nat) (indents indents' : List Nat)
    (line rest : List Char) (hline : '\n' ∉ line)
    (h : (View.start source.toList).turns? n = some ⟨true, indents, line ++ '\n' :: rest⟩)
    (h' : View.turns? m ⟨true, indents, line ++ '\n' :: rest⟩ = some ⟨true, indents', rest⟩) :
    ∃ found s found' s', Rounds true [] (.ofText source) true found s ∧
      Consecutive found s found' s' ∧ s.view true = ⟨true, indents, line ++ '\n' :: rest⟩ ∧
      s'.view true = ⟨true, indents', rest⟩ := by
  obtain ⟨words, hcomes⟩ := View.comes_of_turns? h
  obtain ⟨words', hcomes'⟩ := View.comes_of_turns? h'
  obtain ⟨found, s, hs, hview⟩ := hcomes.rounds (s := .ofText source) [] rfl
  obtain ⟨found', s', hs', hview'⟩ := hcomes'.rounds (s := s) found hview
  have hrest : s.tape.rest = line ++ '\n' :: rest := congrArg View.rest hview
  have hrest' : s'.tape.rest = rest := congrArg View.rest hview'
  exact ⟨found, s, found', s', hs, hs'.consecutive (by rw [hrest, hrest']) hline, hview, hview'⟩

end Scanner

open Scanner

/-- In every text whose tokens can be found, take a line of code and the next line of code, of the same
width. No block is opened or closed between the tokens of the first line and those of the second if
and only if the first line opens a block or comes to a width that is open there, the base level among
them. Else the first line has closed all blocks that are wider, and the second one opens a block. -/
theorem Token.blocks_between_equal_widths {source : String} {tokens : List Token}
    (h : Token.scan source = .ok tokens) {found found' : List Token} {s s' : Scanner} {width : Nat}
    (hs : Rounds true [] (.ofText source) true found s) (hnext : Consecutive found s found' s')
    (hwidth : lineWidth? s.tape.rest = some width) (hwidth' : lineWidth? s'.tape.rest = some width) :
    ∃ line more, tokens = found.reverse ++ s.startLine.1 ++ line ++ s'.startLine.1 ++ more ∧
      (∀ t ∈ line, t.kind ≠ .indent ∧ t.kind ≠ .dedent) ∧
      (s'.startLine.1 = [] ↔ s.indents.headD 0 < width ∨ width ∈ 0 :: s.indents) ∧
      (s'.startLine.1 ≠ [] → s'.startLine.1.map (·.kind) = [.indent]) := by
  have hscan : (Scanner.ofText source).tokens = (.ok tokens, (Scanner.ofText source).tokens.2) :=
    Prod.ext h rfl
  have hfuel : (Scanner.ofText source).workLeft true ≤
      2 * (Scanner.ofText source).tape.rest.length + 1 := by
    simp [workLeft]
  -- The widths that are open at the first line rise from the base level.
  obtain ⟨-, all, last, -, -, hpath⟩ := path_momentsFrom _ _ _ _ hscan
  have hbalanced := hpath.balanced .start _ (hs.mem_momentsFrom hfuel)
  have hrising := Moment.pairwise_levels.1 hbalanced.rising
  -- The first line opens or closes blocks, and then none is opened or closed up to the second line.
  obtain ⟨c, hc, hround⟩ := round_of_lineWidth hwidth
  obtain ⟨hrounds, hlater, hbetween⟩ := hnext
  obtain ⟨line, hline, hkinds, hindents⟩ : ∃ line,
      found'.reverse = found.reverse ++ s.startLine.1 ++ line ∧
        (∀ t ∈ line, t.kind ≠ .indent ∧ t.kind ≠ .dedent) ∧
        s'.indents = s.startLine.2.indents := by
    cases hrounds with
    | refl => exact absurd hlater (Nat.lt_irrefl _)
    | @round _ _ _ _ _ _ c' next hc' hround' hrest =>
      obtain rfl : c' = c := Option.some.inj (hc'.symm.trans hc)
      obtain rfl : next = ⟨s.startLine.1, false, s.startLine.2⟩ :=
        Except.ok.inj (hround'.symm.trans hround)
      obtain ⟨line, hline, hkinds, hindents⟩ := hrest.keeps_blocks rfl fun f m hm hm' hlate => by
        refine hbetween f m (.round hc hround hm) hm' hlate ?_
        have hwork := workLeft_round hc hround
        have hwork' := hm.workLeft_le
        unfold workLeft at hwork hwork'
        simp only [if_true] at hwork hwork'
        omega
      exact ⟨line, by simpa using hline, hkinds, hindents⟩
  -- The second line finds the widths that the first one left.
  have hleft : s.startLine.2.indents = (indentation s.indents width).2 := by
    simpa only [opening, hwidth] using congrArg Prod.snd (told_startLine s)
  have hsecond : s'.startLine.1.map Token.lexeme =
      (indentation (indentation s.indents width).2 width).1 := by
    simpa only [opening, hwidth', hindents, hleft] using congrArg Prod.fst (told_startLine s')
  obtain ⟨hopen, hnever⟩ := indentation_again hrising width
  obtain ⟨c', hc', hround'⟩ := round_of_lineWidth hwidth'
  obtain ⟨fuel, -, htotal⟩ := (hs.trans (hrounds.trans (.round hc' hround' .refl))).scanFrom hfuel
  obtain ⟨more, rfl⟩ := found_prefix (htotal.symm.trans hscan)
  refine ⟨line, more, by simp [hline], hkinds, ⟨fun hnone => ?_, fun hknown => ?_⟩, fun hsome => ?_⟩
  · refine Decidable.byContradiction fun hunknown => ?_
    have hwords := hsecond.trans (hnever hunknown)
    rw [hnone] at hwords
    cases hwords
  · exact List.map_eq_nil_iff.1 (hsecond.trans (hopen hknown))
  · have hunknown : ¬ (s.indents.headD 0 < width ∨ width ∈ 0 :: s.indents) := fun hknown =>
      hsome (List.map_eq_nil_iff.1 (hsecond.trans (hopen hknown)))
    have hwords := congrArg (List.map Prod.fst) (hsecond.trans (hnever hunknown))
    simpa [Token.lexeme] using hwords

/-- The two lines of width 4 stand in one block: the first one opens it. -/
theorem Token.blocks_between_open_widths : ∃ tokens found s found' s' line more,
    Token.scan "if x:\n    a\n    b\n" = .ok tokens ∧
      Rounds true [] (.ofText "if x:\n    a\n    b\n") true found s ∧ Consecutive found s found' s' ∧
      lineWidth? s.tape.rest = some 4 ∧ lineWidth? s'.tape.rest = some 4 ∧
      tokens = found.reverse ++ s.startLine.1 ++ line ++ s'.startLine.1 ++ more ∧
      s'.startLine.1 = [] := by
  obtain ⟨found, s, found', s', hs, hnext, hview, hview'⟩ :=
    exists_consecutive "if x:\n    a\n    b\n" 6 3 [] [4] "    a".toList "    b\n".toList
      (by decide) (by decide +kernel) (by decide +kernel)
  have hrest : s.tape.rest = "    a\n    b\n".toList := congrArg View.rest hview
  have hrest' : s'.tape.rest = "    b\n".toList := congrArg View.rest hview'
  have hindents : s.indents = [] := congrArg View.indents hview
  have hwidth : lineWidth? s.tape.rest = some 4 := by
    rw [hrest]
    decide +kernel
  have hwidth' : lineWidth? s'.tape.rest = some 4 := by
    rw [hrest']
    decide +kernel
  have hspelling : (Token.spelling "if x:\n    a\n    b\n").isSome = true := by decide +kernel
  obtain ⟨words, hwords⟩ := Option.isSome_iff_exists.1 hspelling
  obtain ⟨tokens, hscan, -⟩ := Token.exists_scan hwords
  obtain ⟨line, more, htokens, -, hiff, -⟩ :=
    Token.blocks_between_equal_widths hscan hs hnext hwidth hwidth'
  exact ⟨tokens, found, s, found', s', line, more, hscan, hs, hnext, hwidth, hwidth', htokens,
    hiff.2 (by simp [hindents])⟩

/-- A line that comes back to a width that is not open, and a line of the same width behind it: the
second line opens a block. -/
theorem Token.equal_widths_open_block : ∃ tokens found s found' s',
    Token.scan "a\n    b\n  c\n  d\n" = .ok tokens ∧
      Rounds true [] (.ofText "a\n    b\n  c\n  d\n") true found s ∧ Consecutive found s found' s' ∧
      lineWidth? s.tape.rest = some 2 ∧ lineWidth? s'.tape.rest = some 2 ∧
      s'.startLine.1.map (·.kind) = [.indent] ∧
      tokens.map (·.kind) = [.name, .newline, .indent, .name, .newline, .dedent, .name,
        .newline, .indent, .name, .newline, .dedent, .eof] := by
  obtain ⟨found, s, found', s', hs, hnext, hview, hview'⟩ :=
    exists_consecutive "a\n    b\n  c\n  d\n" 6 3 [4] [] "  c".toList "  d\n".toList
      (by decide) (by decide +kernel) (by decide +kernel)
  have hrest : s.tape.rest = "  c\n  d\n".toList := congrArg View.rest hview
  have hrest' : s'.tape.rest = "  d\n".toList := congrArg View.rest hview'
  have hindents : s'.indents = [] := congrArg View.indents hview'
  have hspelling : Token.spelling "a\n    b\n  c\n  d\n" = some [(.name, "a"), (.newline, "\n"),
      (.indent, ""), (.name, "b"), (.newline, "\n"), (.dedent, ""), (.name, "c"), (.newline, "\n"),
      (.indent, ""), (.name, "d"), (.newline, "\n"), (.dedent, ""), (.eof, "")] := by
    decide +kernel
  obtain ⟨tokens, hscan, hwords⟩ := Token.exists_scan hspelling
  refine ⟨tokens, found, s, found', s', hscan, hs, hnext, ?_, ?_, ?_, ?_⟩
  · rw [hrest]
    decide +kernel
  · rw [hrest']
    decide +kernel
  · have hopen := congrArg (List.map Prod.fst ·.1) (told_startLine s')
    rw [hrest', hindents] at hopen
    simpa [Token.lexeme] using hopen.trans (by decide +kernel : _ = [TokenKind.indent])
  · have hkinds := congrArg (List.map Prod.fst) hwords
    rw [List.map_map] at hkinds
    exact hkinds

end StackScript
