import StackScript.Proofs.Datum.RoundTrip

/-!
# Brackets in JSON text

A text that is read as a value closes all brackets that it opens, and the text of a list or a table
closes its first bracket only with its last character. So no part of such a text that stops short is
read as a value.
-/

namespace StackScript

theorem ok_of_bind_eq_ok {ε α β : Type} {x : Except ε α} {f : α → Except ε β} {b : β}
    (h : x >>= f = .ok b) : ∃ a, x = .ok a ∧ f a = .ok b := by
  cases x with
  | error e => cases h
  | ok a => exact ⟨a, rfl, h⟩

namespace Datum

/-! ## Open brackets -/

/-- What a character belongs to: it stands outside of all texts, inside a text, or there right behind
a backslash. -/
inductive Mode where
  | plain
  | text
  | escape

/-- Where a character stands: how many brackets are open before it, and what it belongs to. -/
structure Place where
  depth : Nat
  mode : Mode

/-- The place behind a character. -/
def Place.next (p : Place) (c : Char) : Place :=
  match p.mode with
  | .plain =>
    if c = '"' then { p with mode := .text }
    else if c = '[' ∨ c = '{' then { p with depth := p.depth + 1 }
    else if c = ']' ∨ c = '}' then { p with depth := p.depth - 1 }
    else p
  | .text =>
    if c = '"' then { p with mode := .plain }
    else if c = '\\' then { p with mode := .escape }
    else p
  | .escape => { p with mode := .text }

/-- The place behind some characters. -/
def Place.after (p : Place) (cs : List Char) : Place := cs.foldl Place.next p

@[simp] theorem Place.after_nil (p : Place) : p.after [] = p := rfl

@[simp] theorem Place.after_cons (p : Place) (c : Char) (cs : List Char) :
    p.after (c :: cs) = (p.next c).after cs := rfl

@[simp] theorem Place.after_append (p : Place) (as bs : List Char) :
    p.after (as ++ bs) = (p.after as).after bs := List.foldl_append

/-- Some characters lead from one mode to another and shift the depth. -/
def Leads (start : Mode) (up : Nat) (cs : List Char) (stop : Mode) (up' : Nat) : Prop :=
  ∀ k, Place.after ⟨k + up, start⟩ cs = ⟨k + up', stop⟩

/-- Some characters close all brackets that they open. -/
abbrev Level (cs : List Char) : Prop := Leads .plain 0 cs .plain 0

namespace Leads

variable {m m₁ m₂ : Mode} {n n₁ n₂ : Nat} {as bs cs : List Char} {c : Char}

theorem nil : Leads m n [] m n := fun _ => rfl

theorem append (ha : Leads m n as m₁ n₁) (hb : Leads m₁ n₁ bs m₂ n₂) :
    Leads m n (as ++ bs) m₂ n₂ := by
  intro k
  rw [Place.after_append, ha k, hb k]

theorem cons (hc : ∀ k, Place.next ⟨k + n, m⟩ c = ⟨k + n₁, m₁⟩) (hcs : Leads m₁ n₁ cs m₂ n₂) :
    Leads m n (c :: cs) m₂ n₂ := by
  intro k
  rw [Place.after_cons, hc k, hcs k]

theorem lift (h : Leads m n cs m₁ n₁) (i : Nat) : Leads m (n + i) cs m₁ (n₁ + i) := by
  intro k
  have hk := h (k + i)
  rwa [show k + i + n = k + (n + i) by omega, show k + i + n₁ = k + (n₁ + i) by omega] at hk

end Leads

/-- A character that opens and closes nothing. -/
def Quiet (c : Char) : Prop := c ≠ '"' ∧ c ≠ '[' ∧ c ≠ ']' ∧ c ≠ '{' ∧ c ≠ '}'

instance (c : Char) : Decidable (Quiet c) := by unfold Quiet; infer_instance

variable {c : Char} {cs : List Char} {d : Datum} {n : Nat}

theorem Place.next_quiet (h : Quiet c) (k : Nat) : Place.next ⟨k, .plain⟩ c = ⟨k, .plain⟩ := by
  obtain ⟨hquote, hopen, hclose, hopen', hclose'⟩ := h
  simp [Place.next, hquote, hopen, hclose, hopen', hclose']

theorem Leads.quiet : ∀ {cs : List Char}, (∀ c ∈ cs, Quiet c) → Leads .plain n cs .plain n
  | [], _ => .nil
  | _ :: _, h =>
    have ⟨hc, hcs⟩ := List.forall_mem_cons.1 h
    .cons (fun _ => Place.next_quiet hc _) (.quiet hcs)

theorem quiet_of_isGap (h : isGap c = true) : Quiet c := by
  refine ⟨?_, ?_, ?_, ?_, ?_⟩ <;> rintro rfl <;> simp [isGap] at h

theorem quiet_of_isDigit (h : c.isDigit = true) : Quiet c := by
  refine ⟨?_, ?_, ?_, ?_, ?_⟩ <;> rintro rfl <;> simp at h

theorem quiet_comma : ∀ c ∈ [','], Quiet c := by simp [Quiet]

theorem quiet_colon : ∀ c ∈ [':'], Quiet c := by simp [Quiet]

/-! ## What is read -/

/-- What a reading takes from the rest of an input leads to a place outside of all texts with as many
open brackets as before those that are counted by `up`. -/
def Takes {α : Type} (start : Mode) (up : Nat) (rest : List Char) (x : Except Halt (α × Input)) :
    Prop :=
  ∀ a after, x = .ok (a, after) → ∃ cs, rest = cs ++ after.rest ∧ Leads start up cs .plain 0

namespace Takes

variable {α β : Type} {m m₁ : Mode} {n n₁ : Nat} {rest : List Char} {x : Except Halt (α × Input)}

theorem refuse (cause : ReadCause) (offset : Nat) :
    Takes m n rest (Datum.refuse cause offset : Except Halt (α × Input)) := by
  intro a after h
  cases h

theorem ok {a : α} {after : Input} (cs : List Char) (hrest : rest = cs ++ after.rest)
    (h : Leads m n cs .plain 0) : Takes m n rest (.ok (a, after)) := by
  rintro _ _ ⟨⟩
  exact ⟨cs, hrest, h⟩

theorem prepend (hcs : Leads m n cs m₁ n₁) (h : Takes m₁ n₁ rest x) : Takes m n (cs ++ rest) x := by
  intro a after hx
  obtain ⟨more, rfl, hmore⟩ := h a after hx
  exact ⟨cs ++ more, (List.append_assoc _ _ _).symm, hcs.append hmore⟩

theorem bind {f : α × Input → Except Halt (β × Input)} (hx : Takes m 0 rest x)
    (hf : ∀ a after, Takes .plain n after.rest (f (a, after))) : Takes m n rest (x >>= f) := by
  intro b after h
  cases x with
  | error e => cases h
  | ok found =>
    obtain ⟨a, after₁⟩ := found
    obtain ⟨cs, rfl, hcs⟩ := hx a after₁ rfl
    have hlift : Leads m n cs .plain n := by simpa using hcs.lift n
    exact prepend hlift (hf a after₁) b after h

theorem skip (input : Input) (h : Takes .plain n (input.skip isGap).rest x) :
    Takes .plain n input.rest x := by
  have hsplit : input.rest = input.rest.takeWhile isGap ++ (input.skip isGap).rest :=
    (List.take_append_drop _ _).symm.trans
      (congrArg (· ++ _) (List.prefix_iff_eq_take.1 (List.takeWhile_prefix _)).symm)
  rw [hsplit]
  refine prepend (.quiet fun c hc => quiet_of_isGap ?_) h
  exact List.all_eq_true.1 List.all_takeWhile c hc

end Takes

section Atoms

variable {cs : List Char}

theorem quiet_take_digits (h : n ≤ (cs.takeWhile Char.isDigit).length) :
    ∀ c ∈ cs.take n, Quiet c := by
  intro c hc
  have hfront : cs.take n <+: cs.takeWhile Char.isDigit := by
    refine List.prefix_of_prefix_length_le (List.take_prefix _ _) (List.takeWhile_prefix _) ?_
    rw [List.length_take]
    omega
  exact quiet_of_isDigit (List.all_eq_true.1 List.all_takeWhile c (hfront.mem hc))

theorem quiet_take_sign : ∀ c ∈ cs.take (signSpan cs), Quiet c := by
  unfold signSpan
  split
  · rename_i hsign
    cases cs with
    | nil => simp
    | cons c cs =>
      obtain rfl : c = '-' := by simpa using hsign
      simpa using (by decide : Quiet '-')
  · simp

theorem wholeSpan_le (digits : List Char) : wholeSpan digits ≤ digits.length := by
  cases digits with
  | nil => exact Nat.le_refl _
  | cons first more =>
    rw [wholeSpan]
    split
    · simp
    · exact Nat.le_refl _

theorem quiet_take_fraction : ∀ c ∈ cs.take (fractionSpan cs), Quiet c := by
  unfold fractionSpan
  split
  · rename_i more
    split
    · simp
    · rename_i n hn
      refine List.forall_mem_cons.2 ⟨by decide, ?_⟩
      exact quiet_take_digits (Nat.le_of_eq hn.symm)
  · simp

theorem quiet_take_exponent : ∀ c ∈ cs.take (exponentSpan cs), Quiet c := by
  unfold exponentSpan
  split
  · rename_i e more
    split
    · rename_i he
      have hmark : Quiet e := by
        rcases Bool.or_eq_true_iff.1 he with he | he <;> rw [eq_of_beq he] <;> decide
      dsimp only
      split
      · simp
      · rename_i n hn
        rw [show ∀ i : Nat, 1 + i + n + 1 = i + (n + 1) + 1 by omega, List.take_succ_cons]
        refine List.forall_mem_cons.2 ⟨hmark, ?_⟩
        rw [List.take_add]
        refine List.forall_mem_append.2 ⟨?_, quiet_take_digits (Nat.le_of_eq hn.symm)⟩
        split
        · rename_i s _
          split
          · rename_i hs
            have hsign : Quiet s := by
              rcases Bool.or_eq_true_iff.1 hs with hs | hs <;> rw [eq_of_beq hs] <;> decide
            simpa using hsign
          · simp
        · simp
    · simp
  · simp

theorem quiet_take_number {count : Nat} {isDecimal : Bool}
    (h : numberSpan cs = some (count, isDecimal)) : ∀ c ∈ cs.take count, Quiet c := by
  rw [numberSpan_eq] at h
  split at h
  · cases h
  · cases h
    simp only [List.take_add]
    refine List.forall_mem_append.2 ⟨List.forall_mem_append.2 ⟨List.forall_mem_append.2 ⟨?_, ?_⟩, ?_⟩, ?_⟩
    · exact quiet_take_sign
    · exact quiet_take_digits (wholeSpan_le _)
    · exact quiet_take_fraction
    · exact quiet_take_exponent

theorem takes_readAtom (input : Input) : Takes .plain 0 input.rest (readAtom input) := by
  unfold readAtom
  split
  · rename_i word d hfind
    obtain ⟨rest, hrest⟩ : word.toList <+: input.rest := by
      simpa using List.find?_some hfind
    have hquiet : words.all (fun entry => entry.1.toList.all fun c => decide (Quiet c)) = true := by
      decide
    have hword := List.all_eq_true.1 (List.all_eq_true.1 hquiet _ (List.mem_of_find?_eq_some hfind))
    refine .ok word.toList ?_ (.quiet fun c hc => of_decide_eq_true (hword c hc))
    show input.rest = word.toList ++ input.rest.drop word.length
    rw [← hrest, ← String.length_toList, List.drop_left]
  · unfold readNumber
    split
    · exact .refuse _ _
    · rename_i count isDecimal hspan
      have htakes : Leads .plain 0 (input.rest.take count) .plain 0 :=
        .quiet (quiet_take_number hspan)
      have hsplit : input.rest = input.rest.take count ++ input.rest.drop count :=
        (List.take_append_drop _ _).symm
      dsimp only
      split
      · split
        · exact .ok _ hsplit htakes
        · exact .refuse _ _
      · split
        · exact fun _ _ h => nomatch h
        · exact .ok _ hsplit htakes

end Atoms

namespace Leads

variable {c : Char}

theorem opening (hc : c = '[' ∨ c = '{') : Leads .plain 0 [c] .plain 1 := by
  intro k
  rcases hc with rfl | rfl <;> rfl

theorem closing (hc : c = ']' ∨ c = '}') : Leads .plain 1 [c] .plain 0 := by
  intro k
  rcases hc with rfl | rfl <;> rfl

theorem quote (n : Nat) : Leads .plain n ['"'] .text n := fun _ => rfl

theorem unquote (n : Nat) : Leads .text n ['"'] .plain n := fun _ => rfl

/-- A character that neither ends a text nor escapes another one. -/
theorem inText (hquote : c ≠ '"') (hslash : c ≠ '\\') : Leads .text 0 [c] .text 0 := by
  intro k
  simp [Place.next, hquote, hslash]

theorem escaped (c : Char) : Leads .text 0 ['\\', c] .text 0 := fun _ => rfl

theorem unit {a b d : Char} (h : ∀ x ∈ [a, b, c, d], x ≠ '"' ∧ x ≠ '\\') :
    Leads .text 0 ['\\', 'u', a, b, c, d] .text 0 := by
  simp only [List.mem_cons, List.not_mem_nil, or_false, forall_eq_or_imp, forall_eq] at h
  obtain ⟨⟨ha, ha'⟩, ⟨hb, hb'⟩, ⟨hc, hc'⟩, hd, hd'⟩ := h
  exact (escaped 'u').append ((inText ha ha').append ((inText hb hb').append
    ((inText hc hc').append (inText hd hd'))))

end Leads

theorem ne_of_hexUnit? {a b d : Char} (h : hexUnit? a b c d = some n) :
    ∀ x ∈ [a, b, c, d], x ≠ '"' ∧ x ≠ '\\' := by
  have hne {x : Char} {n : Nat} (hx : hexValue? x = some n) : x ≠ '"' ∧ x ≠ '\\' := by
    constructor <;> rintro rfl <;> simp [hexValue?] at hx
  simp only [hexUnit?, bind, Option.bind_eq_some_iff] at h
  obtain ⟨_, ha, _, hb, _, hc, _, hd, -⟩ := h
  simp [hne ha, hne hb, hne hc, hne hd]

theorem takes_readText (start offset : Nat) (read cs : List Char) :
    Takes .text 0 cs (readText start offset read cs) := by
  fun_induction readText start offset read cs with
  | case2 offset read rest => exact .ok ['"'] rfl (.unquote 0)
  | case6 offset read a b c d e high hhigh hpair a' b' c' d' e' rest low hlow hin point _ ih =>
    obtain rfl : e = '\\' := by simpa using (Bool.and_eq_true_iff.1 hpair).2
    exact ih.prepend ((Leads.unit (ne_of_hexUnit? hhigh)).append (.unit (ne_of_hexUnit? hlow)))
  | case7 offset read a b c d e high hhigh _ a' b' c' d' e' rest low _ _ _ ih
  | case8 offset read a b c d e rest high hhigh _ _ _ ih
  | case9 offset read a b c d e rest high hhigh _ _ ih =>
    exact ih.prepend (.unit (ne_of_hexUnit? hhigh))
  | case11 offset read c rest _ e _ ih => exact ih.prepend (.escaped c)
  | case14 offset read c rest hquote hlast _ hescape _ ih =>
    refine ih.prepend (.inText hquote fun hslash => ?_)
    cases rest with
    | nil => exact hlast hslash rfl
    | cons d rest => exact hescape d rest hslash rfl
  | case1 | case3 | case4 | case5 | case10 | case12 | case13 => exact .refuse _ _

theorem Takes.text {α : Type} {rest : List Char} {start : Nat}
    {f : String × Input → Except Halt (α × Input)}
    (hf : ∀ a after, Takes .plain n after.rest (f (a, after))) :
    Takes .plain n ('"' :: rest) (readText start (start + 1) [] rest >>= f) :=
  ((takes_readText start (start + 1) [] rest).bind hf).prepend (.quote n)

mutual

/-- What is read as a value closes the brackets that it opens. -/
theorem takes_readValue (fuel : Nat) (input : Input) :
    Takes .plain 0 input.rest (readValue fuel input) := by
  cases fuel with
  | zero => exact .refuse _ _
  | succ fuel =>
    unfold readValue
    split
    · rename_i rest hrest
      rw [hrest]
      exact .text fun _ _ => .ok [] rfl .nil
    · rename_i rest hrest
      rw [hrest]
      refine .prepend (.opening (.inl rfl)) (.skip ⟨input.offset + 1, rest⟩ ?_)
      dsimp only
      split
      · rename_i hclose
        rw [hclose]
        exact .ok [']'] rfl (.closing (.inl rfl))
      · exact takes_readItems fuel [] _
    · rename_i rest hrest
      rw [hrest]
      refine .prepend (.opening (.inr rfl)) (.skip ⟨input.offset + 1, rest⟩ ?_)
      dsimp only
      split
      · rename_i hclose
        rw [hclose]
        exact .ok ['}'] rfl (.closing (.inr rfl))
      · exact takes_readFields fuel [] _
    · exact takes_readAtom input

theorem takes_readItems (fuel : Nat) (items : List Datum) (input : Input) :
    Takes .plain 1 input.rest (readItems fuel items input) := by
  cases fuel with
  | zero => exact .refuse _ _
  | succ fuel =>
    unfold readItems
    refine (takes_readValue fuel input).bind fun item after => .skip _ ?_
    dsimp only
    split
    · rename_i hclose
      rw [hclose]
      exact .ok [']'] rfl (.closing (.inl rfl))
    · rename_i rest hcomma
      rw [hcomma]
      exact .prepend (.quiet quiet_comma) (.skip ⟨_, rest⟩ (takes_readItems fuel _ _))
    · exact .refuse _ _

theorem takes_readFields (fuel : Nat) (fields : List (Datum × Datum)) (input : Input) :
    Takes .plain 1 input.rest (readFields fuel fields input) := by
  cases fuel with
  | zero => exact .refuse _ _
  | succ fuel =>
    unfold readFields
    split
    · rename_i rest hrest
      rw [hrest]
      refine .text fun name after => .skip _ ?_
      dsimp only
      split
      · rename_i rest hcolon
        rw [hcolon]
        refine .prepend (.quiet quiet_colon) (.skip ⟨(after.skip isGap).offset + 1, rest⟩ ?_)
        refine (takes_readValue fuel _).bind fun value after => .skip _ ?_
        dsimp only
        split
        · rename_i hclose
          rw [hclose]
          exact .ok ['}'] rfl (.closing (.inr rfl))
        · rename_i rest hcomma
          rw [hcomma]
          exact .prepend (.quiet quiet_comma) (.skip ⟨_, rest⟩ (takes_readFields fuel _ _))
        · exact .refuse _ _
      · exact .refuse _ _
    · exact .refuse _ _

end

theorem level_of_read {s : String} (h : read s = .ok d) : Level s.toList := by
  unfold read at h
  dsimp only at h
  split at h
  · rename_i found hread
    split at hread
    · cases hread
    · obtain ⟨⟨value, after⟩, hvalue, hrest⟩ := ok_of_bind_eq_ok hread
      have hend : (after.skip isGap).rest = [] := by
        split at hrest
        · exact List.isEmpty_iff.1 ‹_›
        · cases hrest
      have hblank : Takes .plain 0 after.rest (.ok (value, after.skip isGap)) :=
        .skip after (.ok [] rfl .nil)
      obtain ⟨cs, hcs, hlevel⟩ := Takes.skip ⟨0, s.toList⟩ (takes_readValue _ _) value after hvalue
      obtain ⟨more, hmore, hlevel'⟩ := hblank _ _ rfl
      rw [hend, List.append_nil] at hmore
      rw [show s.toList = cs ++ more from hmore ▸ hcs]
      exact hlevel.append hlevel'
  · cases h
  · cases h

/-! ## What is written -/

/-- Some characters lead from one mode to another, close no bracket that was open before, and are of
the basic set. -/
structure Keeps (start : Mode) (up : Nat) (cs : List Char) (stop : Mode) (up' : Nat) : Prop where
  leads : Leads start up cs stop up'
  kept : ∀ k n, k ≤ (Place.after ⟨k + up, start⟩ (cs.take n)).depth
  basic : ∀ c ∈ cs, c.toNat < 0x80

namespace Keeps

variable {m m₁ m₂ : Mode} {n n₁ n₂ : Nat} {as bs cs : List Char} {c : Char}

theorem nil : Keeps m n [] m n := ⟨.nil, fun k _ => by simp, nofun⟩

theorem append (ha : Keeps m n as m₁ n₁) (hb : Keeps m₁ n₁ bs m₂ n₂) : Keeps m n (as ++ bs) m₂ n₂ where
  leads := ha.leads.append hb.leads
  kept k i := by
    rw [List.take_append, Place.after_append]
    by_cases hi : as.length ≤ i
    · rw [List.take_of_length_le hi, ha.leads k]
      exact hb.kept k _
    · rw [show i - as.length = 0 by omega, List.take_zero]
      exact ha.kept k i
  basic := List.forall_mem_append.2 ⟨ha.basic, hb.basic⟩

/-- One character that closes at most a bracket that is counted. -/
theorem one (h : Leads m n [c] m₁ n₁) (hc : c.toNat < 0x80) : Keeps m n [c] m₁ n₁ where
  leads := h
  kept k i := by
    cases i with
    | zero => exact Nat.le_add_right _ _
    | succ i =>
      rw [List.take_succ_cons, List.take_nil, h k]
      exact Nat.le_add_right _ _
  basic := by simpa using hc

theorem lift (h : Keeps m n cs m₁ n₁) (i : Nat) : Keeps m (n + i) cs m₁ (n₁ + i) where
  leads := h.leads.lift i
  kept k j := by
    have hk := h.kept (k + i) j
    rw [show k + i + n = k + (n + i) by omega] at hk
    omega
  basic := h.basic

theorem quiet (h : ∀ c ∈ cs, Quiet c ∧ c.toNat < 0x80) : Keeps .plain n cs .plain n := by
  induction cs with
  | nil => exact .nil
  | cons c cs ih =>
    obtain ⟨⟨hquiet, hbasic⟩, hcs⟩ := List.forall_mem_cons.1 h
    exact (one (.quiet (by simpa using hquiet)) hbasic).append (ih hcs)

theorem word {s : String} (h : s.toList.all (fun c => decide (Quiet c ∧ c.toNat < 0x80)) = true) :
    Keeps .plain n s.toList .plain n :=
  .quiet fun c hc => of_decide_eq_true (List.all_eq_true.1 h c hc)

theorem enclosed {d : Char} (h : Keeps .plain 0 cs .plain 0) (hc : c = '[' ∨ c = '{')
    (hd : d = ']' ∨ d = '}') : Keeps .plain 0 (c :: cs ++ [d]) .plain 0 := by
  have hopen : Keeps .plain 0 [c] .plain 1 := one (.opening hc) (by rcases hc with rfl | rfl <;> decide)
  have hclose : Keeps .plain 1 [d] .plain 0 := one (.closing hd) (by rcases hd with rfl | rfl <;> decide)
  exact (hopen.append (h.lift 1)).append hclose

end Keeps

section Texts

variable {c : Char} {n : Nat}

theorem Keeps.inText (hquote : c ≠ '"') (hslash : c ≠ '\\') (hc : c.toNat < 0x80) :
    Keeps .text 0 [c] .text 0 := .one (.inText hquote hslash) hc

theorem Keeps.escaped (hc : c.toNat < 0x80) : Keeps .text 0 ['\\', c] .text 0 := by
  have hslash : Keeps .text 0 ['\\'] .escape 0 := .one (fun _ => rfl) (by decide)
  exact hslash.append (.one (fun _ => rfl) hc)

theorem toNat_of_isDigit (h : c.isDigit = true) : c.toNat < 0x80 := by
  have hrange := Char.isDigit_iff_toNat.1 h
  have hnine : '9'.toNat = 57 := rfl
  omega

theorem toNat_of_hexValue? (h : hexValue? c = some n) : c.toNat < 0x80 := by
  have hbound (x : Char) (hx : x.toNat < 0x80) (hle : c ≤ x) : c.toNat < 0x80 :=
    Nat.lt_of_le_of_lt (Char.le_def.1 hle) hx
  unfold hexValue? at h
  split at h
  · exact toNat_of_isDigit ‹_›
  split at h
  · rename_i hlower
    exact hbound 'f' (by decide) (by simpa using (Bool.and_eq_true_iff.1 hlower).2)
  split at h
  · rename_i hupper
    exact hbound 'F' (by decide) (by simpa using (Bool.and_eq_true_iff.1 hupper).2)
  · cases h

theorem Keeps.unitEscape (hn : n < 0x10000) : Keeps .text 0 (unitEscape n) .text 0 := by
  obtain ⟨a, b, c, d, heq, hvalue⟩ := unitEscape_eq hn
  have hne := ne_of_hexUnit? hvalue
  simp only [hexUnit?, bind, Option.bind_eq_some_iff] at hvalue
  obtain ⟨_, ha, _, hb, _, hc, _, hd, -⟩ := hvalue
  have hdigit {x : Char} {i : Nat} (hmem : x ∈ [a, b, c, d]) (hx : hexValue? x = some i) :
      Keeps .text 0 [x] .text 0 :=
    .inText (hne x hmem).1 (hne x hmem).2 (toNat_of_hexValue? hx)
  rw [heq]
  exact (Keeps.escaped (by decide)).append ((hdigit (by simp) ha).append
    ((hdigit (by simp) hb).append ((hdigit (by simp) hc).append (hdigit (by simp) hd))))

theorem Keeps.escapeChar (c : Char) : Keeps .text 0 (escapeChar c) .text 0 := by
  have hvalid : c.toNat < 0xD800 ∨ 0xDFFF < c.toNat ∧ c.toNat < 0x110000 := c.valid
  unfold Datum.escapeChar
  iterate 7
    split
    · exact .escaped (by decide)
  split
  · rename_i hquote hslash _ _ _ _ _ hc
    simp only [Bool.and_eq_true, decide_eq_true_eq] at hc
    exact .inText hquote hslash (by omega)
  split
  · exact .unitEscape ‹_›
  · exact (Keeps.unitEscape (by omega)).append (.unitEscape (by omega))

theorem Keeps.escape (cs : List Char) : Keeps .text 0 (cs.flatMap Datum.escapeChar) .text 0 := by
  induction cs with
  | nil => exact .nil
  | cons c cs ih => exact (Keeps.escapeChar c).append ih

theorem keeps_writeText (s : String) : Keeps .plain 0 (writeText s).toList .plain 0 := by
  have hquote : Keeps .plain 0 ['"'] .text 0 := .one (.quote 0) (by decide)
  have hunquote : Keeps .text 0 ['"'] .plain 0 := .one (.unquote 0) (by decide)
  have htext : (writeText s).toList = ['"'] ++ s.toList.flatMap Datum.escapeChar ++ ['"'] := by
    simp [writeText]
  rw [htext]
  exact (hquote.append (.escape s.toList)).append hunquote

end Texts

section Numbers

theorem quiet_of_numeric {c : Char} (h : Numeric c) : Quiet c ∧ c.toNat < 0x80 := by
  rcases h with h | h
  · exact ⟨quiet_of_isDigit h, toNat_of_isDigit h⟩
  · have hall : decimalMarks.all (fun c => decide (Quiet c ∧ c.toNat < 0x80)) = true := by decide
    exact of_decide_eq_true (List.all_eq_true.1 hall c h)

theorem keeps_intDigits (i : Int) : Keeps .plain 0 (Number.intDigits i).toList .plain 0 := by
  rw [toList_intDigits]
  refine .quiet (List.forall_mem_append.2 ⟨?_, ?_⟩)
  · unfold signChars
    split
    · exact fun c hc => List.mem_singleton.1 hc ▸ by decide
    · nofun
  · exact fun c hc => quiet_of_numeric (numeric_digits _ c hc)

theorem keeps_writeFloat (x : Float) : Keeps .plain 0 (writeFloat x).toList .plain 0 :=
  .quiet fun c hc => quiet_of_numeric (numeric_writeFloat x c hc)

end Numbers

theorem keeps_intercalate {parts : List String}
    (h : ∀ part ∈ parts, Keeps .plain 0 part.toList .plain 0) :
    Keeps .plain 0 (", ".intercalate parts).toList .plain 0 := by
  induction parts with
  | nil => exact .nil
  | cons first rest ih =>
    obtain ⟨hfirst, hrest⟩ := List.forall_mem_cons.1 h
    cases rest with
    | nil => simpa using hfirst
    | cons second rest =>
      have hcomma : Keeps .plain 0 ", ".toList .plain 0 := .word (by decide)
      have htext : (", ".intercalate (first :: second :: rest)).toList =
          first.toList ++ ", ".toList ++ (", ".intercalate (second :: rest)).toList := by
        simp [String.toList_intercalate]
      rw [htext]
      exact (hfirst.append hcomma).append (ih hrest)

/-- The text of a list or a table, of which the first and the last character are brackets. -/
theorem toList_enclosed (opening closing inside : String) {d : Char}
    (hc : opening.toList = [c]) (hd : closing.toList = [d]) :
    (opening ++ inside ++ closing).toList = c :: inside.toList ++ [d] := by
  rw [String.toList_append, String.toList_append, hc, hd]
  rfl

mutual

/-- Written data close the brackets that they open, and no others. -/
theorem keeps_write : ∀ d : Datum, Keeps .plain 0 d.write.toList .plain 0
  | .null | .bool true | .bool false => .word (by decide)
  | .int i => keeps_intDigits i
  | .float x => keeps_writeFloat x
  | .str s => keeps_writeText s
  | .list items | .tuple items => by
    rw [write, toList_enclosed _ _ _ rfl rfl]
    exact (keeps_intercalate (keeps_writeItems items)).enclosed (.inl rfl) (.inl rfl)
  | .dict entries => by
    rw [write, toList_enclosed _ _ _ rfl rfl]
    exact (keeps_intercalate (keeps_writeEntries entries)).enclosed (.inr rfl) (.inr rfl)

theorem keeps_writeItems :
    ∀ items : List Datum, ∀ part ∈ writeItems items, Keeps .plain 0 part.toList .plain 0
  | [] => nofun
  | d :: rest => List.forall_mem_cons.2 ⟨keeps_write d, keeps_writeItems rest⟩

theorem keeps_writeEntries : ∀ entries : List (Datum × Datum), ∀ part ∈ writeEntries entries,
    Keeps .plain 0 part.toList .plain 0
  | [] => nofun
  | (k, v) :: rest => by
    have hcolon : Keeps .plain 0 ": ".toList .plain 0 := .word (by decide)
    refine List.forall_mem_cons.2 ⟨?_, keeps_writeEntries rest⟩
    rw [String.toList_append, String.toList_append]
    exact ((keeps_writeText _).append hcolon).append (keeps_write v)

end

/-! ## Cut texts -/

/-- A text of which the first bracket is not closed is not read. -/
theorem read_of_open (hc : c = '[' ∨ c = '{') (h : ∀ k, k ≤ (Place.after ⟨k, .plain⟩ cs).depth) :
    ∃ e, read (String.ofList (c :: cs)) = .error e := by
  cases hread : read (String.ofList (c :: cs)) with
  | error e => exact ⟨e, rfl⟩
  | ok d =>
    have hlevel := level_of_read hread 0
    have hopen := Leads.opening hc 0
    rw [String.toList_ofList, ← List.singleton_append, Place.after_append, hopen] at hlevel
    have hdepth := h 1
    rw [hlevel] at hdepth
    cases hdepth

/-- Data whose text stands between brackets. -/
def Bracketed (d : Datum) : Prop :=
  ∃ c inside e, (c = '[' ∨ c = '{') ∧ Keeps .plain 0 inside .plain 0 ∧
    d.write.toList = c :: inside ++ [e]

theorem bracketed_list (items : List Datum) : Bracketed (.list items) := by
  refine ⟨'[', _, ']', .inl rfl, keeps_intercalate (keeps_writeItems items), ?_⟩
  rw [write]
  exact toList_enclosed _ _ _ rfl rfl

theorem bracketed_dict (entries : List (Datum × Datum)) : Bracketed (.dict entries) := by
  refine ⟨'{', _, '}', .inr rfl, keeps_intercalate (keeps_writeEntries entries), ?_⟩
  rw [write]
  exact toList_enclosed _ _ _ rfl rfl

/-- A list or a table of which the end is missing is not read. -/
theorem read_of_cut (hd : d.Bracketed) (hcut : cs <+: d.write.toList)
    (hne : cs ≠ d.write.toList) : ∃ e, read (String.ofList cs) = .error e := by
  obtain ⟨c, inside, last, hc, hinside, htext⟩ := hd
  rw [htext] at hcut hne
  cases cs with
  | nil => exact ⟨_, rfl⟩
  | cons b cs =>
    obtain ⟨rfl, hrest⟩ := List.cons_prefix_cons.1 hcut
    refine read_of_open hc fun k => ?_
    have hfront : cs <+: inside := by
      rcases List.prefix_concat_iff.1 hrest with heq | hfront
      · exact absurd (congrArg (b :: ·) heq) hne
      · exact hfront
    rw [List.prefix_iff_eq_take.1 hfront]
    exact hinside.kept k _

end Datum

end StackScript
