import Mathlib.Algebra.Group.Nat.Defs
import StackScript.Datum.Writer
import StackScript.Proofs.Datum.Span

/-!
# Written data are read back

A datum is storable if it is made of nothing, truth values, whole numbers within the limit for
conversions, decimal numbers whose own text is read back, texts, lists, and tables whose keys are
distinct texts. Main statement:

* `Datum.Storable.read_write`: the text of a storable datum is read as that datum.

The parts of a text are read one after the other, so that each lemma speaks of a written part with
characters after it. Offsets serve only for refusals; that there is one is all that is said of them.
-/

namespace StackScript.Datum

/-! ## Escapes -/

variable {fields : List (String × Datum)} {d : Datum} {ds rest : List Char} {c : Char}
  {items : List Datum} {n : Nat} {p : Char → Bool} {i : Int}

theorem hexValue?_digitChar (h : n < 16) : hexValue? n.digitChar = some n := by
  have hall : ∀ k : Fin 16, hexValue? (Nat.digitChar k) = some k.val := by decide
  exact hall ⟨n, h⟩

/-- The escape of a code unit has four digits, whose value is the unit. -/
theorem unitEscape_eq (h : n < 0x10000) : ∃ a b c d,
    unitEscape n = ['\\', 'u', a, b, c, d] ∧ hexUnit? a b c d = some n := by
  refine ⟨(n / 4096).digitChar, (n / 256 % 16).digitChar, (n / 16 % 16).digitChar,
    (n % 16).digitChar, ?_, ?_⟩
  · have hzero : Nat.digitChar 0 = '0' := rfl
    have hdigits (m : Nat) : Nat.toDigits 16 m =
        if m < 16 then [m.digitChar] else Nat.toDigits 16 (m / 16) ++ [(m % 16).digitChar] :=
      Nat.toDigits_eq_if (by decide)
    unfold unitEscape
    rcases Nat.lt_or_ge n 16 with h₁ | h₁
    · rw [hdigits n, if_pos h₁, show n / 4096 = 0 by omega, show n / 256 % 16 = 0 by omega,
        show n / 16 % 16 = 0 by omega, show n % 16 = n by omega]
      rfl
    rw [hdigits n, if_neg (by omega)]
    rcases Nat.lt_or_ge n 256 with h₂ | h₂
    · rw [hdigits (n / 16), if_pos (by omega), show n / 4096 = 0 by omega,
        show n / 256 % 16 = 0 by omega, show n / 16 % 16 = n / 16 by omega]
      rfl
    rw [hdigits (n / 16), if_neg (by omega)]
    rcases Nat.lt_or_ge n 4096 with h₃ | h₃
    · rw [hdigits (n / 16 / 16), if_pos (by omega), show n / 4096 = 0 by omega,
        show n / 256 % 16 = n / 16 / 16 by omega]
      rfl
    rw [hdigits (n / 16 / 16), if_neg (by omega), hdigits (n / 16 / 16 / 16), if_pos (by omega),
      show n / 4096 = n / 16 / 16 / 16 by omega, show n / 256 % 16 = n / 16 / 16 % 16 by omega]
    rfl
  · rw [hexUnit?, hexValue?_digitChar (by omega), hexValue?_digitChar (by omega),
      hexValue?_digitChar (by omega), hexValue?_digitChar (by omega)]
    show some (((n / 4096 * 16 + n / 256 % 16) * 16 + n / 16 % 16) * 16 + n % 16) = some n
    congr 1
    omega

section Text

variable {start offset : Nat} {done : List Char}

theorem readText_letter {c e : Char} (hc : letterEscape? c = some e) (hu : c ≠ 'u')
    (tail : List Char) :
    readText start offset done ('\\' :: c :: tail) = readText start (offset + 2) (e :: done) tail := by
  rw [readText.eq_def]
  split <;> grind

theorem readText_plain (hquote : c ≠ '"') (hslash : c ≠ '\\') (hc : 0x20 ≤ c.toNat)
    (tail : List Char) :
    readText start offset done (c :: tail) = readText start (offset + 1) (c :: done) tail := by
  conv => lhs; rw [readText.eq_def]
  split <;> simp_all

variable {tail : List Char}

theorem readText_unit (hn : n < 0xD800 ∨ 0xDFFF < n ∧ n < 0x10000) (ht : tail ≠ []) :
    readText start offset done (unitEscape n ++ tail) =
      readText start (offset + 6) (Char.ofNat n :: done) tail := by
  obtain ⟨a, b, c, d, hescape, hvalue⟩ := unitEscape_eq (n := n) (by omega)
  obtain ⟨e, tail, rfl⟩ := List.exists_cons_of_ne_nil ht
  have hsurrogate : ¬ (55296 ≤ n ∧ n < 56320) := by omega
  have hhalf : ¬ (55296 ≤ n ∧ n < 57344) := by omega
  rw [hescape]
  conv => lhs; rw [readText.eq_def]
  simp [hvalue, hsurrogate, unitChar, hhalf]

theorem readText_pair {high low : Nat} (hhigh : 0xD800 ≤ high ∧ high < 0xDC00)
    (hlow : 0xDC00 ≤ low ∧ low < 0xE000) (ht : tail ≠ []) :
    readText start offset done (unitEscape high ++ unitEscape low ++ tail) =
      readText start (offset + 12)
        (Char.ofNat (0x10000 + (high - 0xD800) * 0x400 + (low - 0xDC00)) :: done) tail := by
  obtain ⟨a, b, c, d, hescape, hvalue⟩ := unitEscape_eq (n := high) (by omega)
  obtain ⟨a', b', c', d', hescape', hvalue'⟩ := unitEscape_eq (n := low) (by omega)
  obtain ⟨e, tail, rfl⟩ := List.exists_cons_of_ne_nil ht
  rw [hescape, hescape']
  conv => lhs; rw [readText.eq_def]
  simp [hvalue, hvalue', hhigh, hlow]

theorem readText_escapeChar (start offset : Nat) (done : List Char) (c : Char)
    (ht : tail ≠ []) : ∃ offset',
    readText start offset done (escapeChar c ++ tail) = readText start offset' (c :: done) tail := by
  have hvalid : c.toNat < 0xD800 ∨ 0xDFFF < c.toNat ∧ c.toNat < 0x110000 := c.valid
  have hof : Char.ofNat c.toNat = c := Char.ofNat_toNat c
  unfold escapeChar
  iterate 5
    split
    · subst c; exact ⟨_, readText_letter (by decide) (by decide) tail⟩
  iterate 2
    split
    · rename_i h
      rw [← hof, h]
      exact ⟨_, readText_letter (by decide) (by decide) tail⟩
  split
  · rename_i hquote hslash _ _ _ _ _ hc
    simp only [Bool.and_eq_true, decide_eq_true_eq] at hc
    exact ⟨_, readText_plain hquote hslash hc.1 tail⟩
  split
  · refine ⟨offset + 6, ?_⟩
    rw [readText_unit (by omega) ht, hof]
  · refine ⟨offset + 12, ?_⟩
    dsimp only
    rw [readText_pair (by omega) (by omega) ht, show 0x10000
      + (0xD800 + (c.toNat - 0x10000) / 0x400 - 0xD800) * 0x400
      + (0xDC00 + (c.toNat - 0x10000) % 0x400 - 0xDC00) = c.toNat by omega, hof]

theorem readText_escape (start offset : Nat) (done cs rest : List Char) : ∃ offset',
    readText start offset done (cs.flatMap escapeChar ++ '"' :: rest) =
      .ok (String.ofList (done.reverse ++ cs), ⟨offset', rest⟩) := by
  induction cs generalizing offset done with
  | nil =>
    refine ⟨offset + 1, ?_⟩
    rw [readText.eq_def]
    simp
  | cons c cs ih =>
    have htail : cs.flatMap escapeChar ++ '"' :: rest ≠ [] := by simp
    obtain ⟨offset₁, h₁⟩ := readText_escapeChar start offset done c htail
    obtain ⟨offset₂, h₂⟩ := ih offset₁ (c :: done)
    refine ⟨offset₂, ?_⟩
    rw [List.flatMap_cons, List.append_assoc, h₁, h₂]
    simp

end Text

theorem readText_writeText (s : String) (start offset : Nat) (rest : List Char) :
    ∃ cs offset', (writeText s).toList ++ rest = '"' :: cs ∧
      readText start offset [] cs = .ok (s, ⟨offset', rest⟩) := by
  obtain ⟨offset', h⟩ := readText_escape start offset [] s.toList rest
  refine ⟨_, offset', ?_, h.trans ?_⟩
  · simp [writeText]
  · simp

/-! ## Numbers -/

/-- The first digit of a number is zero only if there is no other. -/
theorem toDigits_zero (h : Nat.toDigits 10 n = '0' :: ds) : ds = [] := by
  induction n using Nat.strongRecOn generalizing ds with
  | ind n ih =>
    rw [Nat.toDigits_eq_if (by decide)] at h
    split at h
    · simp_all
    · rename_i hn
      obtain ⟨d, ds', hd⟩ := List.exists_cons_of_ne_nil (Nat.toDigits_ne_nil (b := 10) (n := n / 10))
      rw [hd, List.cons_append, List.cons.injEq] at h
      obtain ⟨rfl, -⟩ := h
      have hnil := ih (n / 10) (by omega) hd
      subst hnil
      -- a number whose only digit is zero is zero, but this one has another digit
      have hvalue := Nat.ofDigitChars_ten_toDigits (n := n / 10)
      rw [hd] at hvalue
      have : n / 10 = 0 := hvalue.symm
      omega

theorem isDigit_toDigits (n : Nat) : ∀ c ∈ Nat.toDigits 10 n, c.isDigit = true :=
  fun _ hc => Nat.isDigit_of_mem_toDigits (by decide) (by decide) hc

/-- The span of a sign and digits of which the first is no idle zero. -/
theorem numberSpan_digits {sign : List Char} (hsign : sign = [] ∨ sign = ['-']) {d : Char}
    (hdigits : ∀ c ∈ d :: ds, c.isDigit = true) (hzero : d = '0' → ds = []) (hr : Closes rest) :
    numberSpan (sign ++ (d :: ds ++ rest)) = some (sign.length + (d :: ds).length, false) := by
  have htake : (d :: ds ++ rest).takeWhile Char.isDigit = d :: ds := by
    rw [List.takeWhile_append_of_pos hdigits, hr.takeWhile_isDigit, List.append_nil]
  have hcount : (if (d == '0') = true then 1 else (d :: ds).length) = (d :: ds).length := by
    split
    · rename_i h
      rw [hzero (beq_iff_eq.1 h)]
      rfl
    · rfl
  have hminus : d ≠ '-' := by
    rintro rfl
    simpa using hdigits '-' (by simp)
  have hhead : (if ((sign ++ (d :: ds ++ rest)).head? == some '-') = true then 1 else 0) =
      sign.length := by
    rcases hsign with rfl | rfl <;> simp [hminus]
  have hsigned : (sign ++ (d :: ds ++ rest)).drop sign.length = d :: ds ++ rest := List.drop_left
  have hafter : (sign ++ (d :: ds ++ rest)).drop (sign.length + (d :: ds).length) = rest := by
    rw [← List.drop_drop, hsigned, List.drop_left]
  unfold numberSpan
  simp only [hhead, hsigned, htake, hcount, hafter]
  cases rest with
  | nil => simp
  | cons c rest => rcases hr c rfl with rfl | rfl | rfl <;> simp

/-- The sign of a written number. -/
def signChars (i : Int) : List Char := if i < 0 then ['-'] else []

theorem toList_intDigits (i : Int) :
    (Number.intDigits i).toList = signChars i ++ Nat.toDigits 10 i.natAbs := by
  unfold Number.intDigits signChars
  split <;> simp [Nat.toList_repr]

theorem ne_of_isDigit {d c : Char} (hd : d.isDigit = true) (hc : c.isDigit = false) : d ≠ c := by
  rintro rfl
  rw [hd] at hc
  cases hc

theorem takeSign_signChars (i : Int) {d : Char} (hd : d.isDigit = true) :
    Number.takeSign (signChars i ++ d :: ds) = (decide (i < 0), d :: ds) := by
  have hplus : d ≠ '+' := ne_of_isDigit hd rfl
  have hminus : d ≠ '-' := ne_of_isDigit hd rfl
  unfold signChars
  split
  · rename_i h
    simp [Number.takeSign, h]
  · rename_i h
    simp only [List.nil_append, h, decide_false]
    unfold Number.takeSign
    split <;> simp_all

theorem find?_words (i : Int) {d : Char} (hd : d.isDigit = true) :
    words.find? (fun word => word.1.toList.isPrefixOf (signChars i ++ d :: ds)) = none := by
  have hne {c : Char} (hc : c.isDigit = false) : c ≠ d := (ne_of_isDigit hd hc).symm
  rw [List.find?_eq_none]
  intro word hword
  unfold signChars
  simp only [words, List.mem_cons, List.not_mem_nil, or_false] at hword
  rcases hword with rfl | rfl | rfl | rfl | rfl | rfl <;> split <;>
    simp (disch := decide) [List.isPrefixOf, hne]

/-- A written number within the limit is read as that number. -/
theorem readAtom_intDigits (hi : i.natAbs < 10 ^ Number.digitLimit) (offset : Nat)
    (hr : Closes rest) : ∃ offset',
    readAtom ⟨offset, (Number.intDigits i).toList ++ rest⟩ = .ok (.int i, ⟨offset', rest⟩) := by
  obtain ⟨d, ds, hd⟩ :=
    List.exists_cons_of_ne_nil (Nat.toDigits_ne_nil (b := 10) (n := i.natAbs))
  have hdigits : ∀ c ∈ d :: ds, c.isDigit = true := hd ▸ isDigit_toDigits i.natAbs
  have hzero : d = '0' → ds = [] := by
    rintro rfl
    exact toDigits_zero hd
  have hlength : (d :: ds).length ≤ Number.digitLimit := by
    rw [← hd, Nat.length_toDigits_le_iff (by decide) (by decide)]
    exact hi
  have hvalue : Number.digitsValue (d :: ds) = i.natAbs := by
    rw [← hd]
    exact Nat.ofDigitChars_ten_toDigits
  have hsign : signChars i = [] ∨ signChars i = ['-'] := by
    unfold signChars
    split <;> simp
  refine ⟨offset + ((signChars i).length + (d :: ds).length), ?_⟩
  rw [toList_intDigits, hd, List.append_assoc, readAtom, List.cons_append,
    find?_words i (hdigits d (by simp)), ← List.cons_append]
  simp only [readNumber, numberSpan_digits hsign hdigits hzero hr]
  have htake : (signChars i ++ (d :: ds ++ rest)).take ((signChars i).length + (d :: ds).length) =
      signChars i ++ d :: ds := by
    rw [← List.append_assoc, ← List.length_append, List.take_left]
  have hdrop : (signChars i ++ (d :: ds ++ rest)).drop ((signChars i).length + (d :: ds).length) =
      rest := by
    rw [← List.append_assoc, ← List.length_append, List.drop_left]
  rw [htake, hdrop, takeSign_signChars i (hdigits d (by simp))]
  simp only [Bool.false_eq_true, if_false, if_neg (Nat.not_lt.2 hlength), hvalue]
  congr 3
  rcases Int.lt_or_le i 0 with h | h
  · simp only [h, decide_true, if_true]
    omega
  · simp only [Int.not_lt.2 h, decide_false, Bool.false_eq_true, if_false]
    omega

/-! ## Values -/

/-- Data whose text is read back as they are. -/
inductive Storable : Datum → Prop
  | null : Storable .null
  | bool (b : Bool) : Storable (.bool b)
  | int {i : Int} (h : i.natAbs < 10 ^ Number.digitLimit) : Storable (.int i)
  | float {x : Float} (h : read (write (.float x)) = .ok (.float x)) : Storable (.float x)
  | str (s : String) : Storable (.str s)
  | list {items : List Datum} (h : ∀ d ∈ items, Storable d) : Storable (.list items)
  | dict {fields : List (String × Datum)} (hnames : (fields.map (·.1)).Nodup)
      (h : ∀ f ∈ fields, Storable f.2) : Storable (.dict (fields.map fun f => (.str f.1, f.2)))

theorem Input.skip_of_not (hc : p c = false) (offset : Nat)
    (cs : List Char) : Input.skip p ⟨offset, c :: cs⟩ = ⟨offset, c :: cs⟩ := by
  simp [Input.skip, hc]

theorem Input.skip_of {b : Char} (hb : p b = true) (hc : p c = false)
    (offset : Nat) (cs : List Char) :
    Input.skip p ⟨offset, b :: c :: cs⟩ = ⟨offset + 1, c :: cs⟩ := by
  simp [Input.skip, hb, hc]

/-- A character with which a written value may start. -/
def Starts (c : Char) : Prop := isGap c = false ∧ c ≠ ']' ∧ c ≠ Char.ofNat 0xFEFF

instance : DecidablePred Starts := fun c =>
  inferInstanceAs (Decidable (isGap c = false ∧ c ≠ ']' ∧ c ≠ Char.ofNat 0xFEFF))

theorem starts_digit (hc : c.isDigit = true) : Starts c := by
  have hne {x : Char} (hx : x.isDigit = false) : c ≠ x := ne_of_isDigit hc hx
  refine ⟨?_, hne rfl, hne rfl⟩
  simp (disch := decide) [isGap, hne]

/-! ## Decimal numbers -/

/-- The characters of written decimal numbers. -/
def decimalMarks : List Char := ".e+-NaInfity".toList

/-- A character of written decimal numbers. -/
def Numeric (c : Char) : Prop := c.isDigit = true ∨ c ∈ decimalMarks

theorem numeric_digits (n : Nat) : ∀ c ∈ Nat.toDigits 10 n, Numeric c :=
  fun c hc => .inl (isDigit_toDigits n c hc)

theorem numeric_zeros (n : Nat) : ∀ c ∈ List.replicate n '0', Numeric c :=
  fun c hc => .inl (by rw [List.eq_of_mem_replicate hc]; rfl)

theorem numeric_text (d : Number.Decimal) : ∀ c ∈ d.text, Numeric c := by
  intro c hc
  unfold Number.Decimal.text at hc
  dsimp only at hc
  split at hc
  · rw [List.mem_singleton.1 hc]
    exact .inl rfl
  · have hkept := (List.dropWhile_sublist _).subset (List.mem_reverse.1 hc)
    exact numeric_digits _ c (List.mem_reverse.1 hkept)

theorem numeric_exponentText (width : Nat) (e : Int) :
    ∀ c ∈ Number.exponentText width e, Numeric c := by
  unfold Number.exponentText
  simp only [List.forall_mem_cons, List.forall_mem_append]
  refine ⟨?_, numeric_zeros _, numeric_digits _⟩
  split <;> exact .inr (by decide)

theorem numeric_write (style : Number.Layout) {digits : List Char} (h : ∀ c ∈ digits, Numeric c)
    (point : Int) : ∀ c ∈ style.write digits point, Numeric c := by
  have hpoint : Numeric '.' := .inr (by decide)
  have hzero : Numeric '0' := .inl rfl
  have htake (n : Nat) : ∀ c ∈ digits.take n, Numeric c := fun c hc => h c (List.mem_of_mem_take hc)
  have hdrop (n : Nat) : ∀ c ∈ digits.drop n, Numeric c := fun c hc => h c (List.mem_of_mem_drop hc)
  have hexponent := numeric_exponentText style.exponentWidth (point - 1)
  have happend {xs ys : List Char} (hx : ∀ c ∈ xs, Numeric c) (hy : ∀ c ∈ ys, Numeric c) :
      ∀ c ∈ xs ++ ys, Numeric c := List.forall_mem_append.2 ⟨hx, hy⟩
  have hcons {d : Char} {xs : List Char} (hd : Numeric d) (hx : ∀ c ∈ xs, Numeric c) :
      ∀ c ∈ d :: xs, Numeric c := List.forall_mem_cons.2 ⟨hd, hx⟩
  unfold Number.Layout.write
  split
  · split
    · exact hcons hzero (hcons hpoint (happend (numeric_zeros _) h))
    · dsimp only
      have hpadded := happend (htake point.toNat)
        (numeric_zeros (point.toNat - (digits.take point.toNat).length))
      split
      · exact happend hpadded (hcons hpoint (hdrop _))
      · split
        · exact happend hpadded (hcons hpoint (hcons hzero (by simp)))
        · exact hpadded
  · dsimp only
    refine happend ?_ (hcons (.inr (by decide)) hexponent)
    split
    · exact htake 1
    · exact happend (htake 1) (hcons hpoint (hdrop 1))

theorem numeric_writeFloat (x : Float) : ∀ c ∈ (writeFloat x).toList, Numeric c := by
  have hword {s : String} (h : s.toList.all decimalMarks.contains = true) :
      ∀ c ∈ s.toList, Numeric c :=
    fun c hc => .inr (List.contains_iff_mem.1 (List.all_eq_true.1 h c hc))
  unfold writeFloat
  split
  · exact hword (by decide)
  · rename_i hnan
    split
    · split <;> exact hword (by decide)
    · rename_i hinf
      simp only [Number.floatText, if_neg hnan, if_neg hinf, String.toList_ofList]
      have hbody := numeric_write Number.Layout.plain (numeric_text (Number.shortest x))
      split
      · exact List.forall_mem_cons.2 ⟨.inr (by decide), hbody _⟩
      · exact hbody _

/-- A character of a written decimal number starts no text, list or table, and is no blank. -/
theorem Numeric.starts (h : Numeric c) : Starts c ∧ c ≠ '"' ∧ c ≠ '[' ∧ c ≠ '{' := by
  rcases h with h | h
  · refine ⟨starts_digit h, ?_, ?_, ?_⟩ <;> rintro rfl <;> simp at h
  · have hall : decimalMarks.all (fun c => decide (Starts c ∧ c ≠ '"' ∧ c ≠ '[' ∧ c ≠ '{')) =
        true := by decide
    exact of_decide_eq_true (List.all_eq_true.1 hall c h)

theorem numeric_writeInt (i : Int) : ∃ c cs, (write (.int i)).toList = c :: cs ∧ Numeric c := by
  obtain ⟨d, ds, hd⟩ :=
    List.exists_cons_of_ne_nil (Nat.toDigits_ne_nil (b := 10) (n := i.natAbs))
  rw [write, toList_intDigits, hd, signChars]
  split
  · exact ⟨'-', _, rfl, .inr (by decide)⟩
  · exact ⟨d, ds, rfl, .inl (isDigit_toDigits i.natAbs d (by simp [hd]))⟩

/-- A decimal number whose text alone is read back is read back wherever its text stands. -/
theorem readAtom_writeFloat {x : Float} (h : read (write (.float x)) = .ok (.float x)) :
    (∃ c cs, (write (.float x)).toList = c :: cs ∧ Numeric c) ∧
      ∀ offset rest, Closes rest → ∃ offset',
        readAtom ⟨offset, (write (.float x)).toList ++ rest⟩ = .ok (.float x, ⟨offset', rest⟩) := by
  have hnumeric := numeric_writeFloat x
  have hwrite : (write (.float x)).toList = (writeFloat x).toList := rfl
  unfold read at h
  rw [hwrite] at h ⊢
  generalize (writeFloat x).toList = cs at *
  have hskip (offset n : Nat) : Input.skip isGap ⟨offset, cs.drop n⟩ = ⟨offset, cs.drop n⟩ := by
    cases hd : cs.drop n with
    | nil => rfl
    | cons c rest =>
      have hc : c ∈ cs := List.mem_of_mem_drop (hd ▸ List.mem_cons_self)
      exact Input.skip_of_not (hnumeric c hc).starts.1.1 offset rest
  cases cs with
  | nil => cases h
  | cons c cs =>
    have hc := (hnumeric c (by simp)).starts
    refine ⟨⟨c, cs, rfl, hnumeric c (by simp)⟩, fun offset rest hr => ?_⟩
    have hvalue (fuel : Nat) : readValue (fuel + 1) ⟨0, c :: cs⟩ = readAtom ⟨0, c :: cs⟩ := by
      rw [readValue.eq_def]
      split <;> simp_all
    have hmark : ((c :: cs).head? == some (Char.ofNat 0xFEFF)) = false := by
      simp [hc.1.2.2]
    have hstart : Input.skip isGap ⟨0, c :: cs⟩ = ⟨0, c :: cs⟩ := hskip 0 0
    simp only [hmark, hstart, hvalue] at h
    cases hatom : readAtom ⟨0, c :: cs⟩ with
    | error e =>
      simp only [hatom] at h
      cases e <;> cases h
    | ok found =>
      obtain ⟨d, start, left⟩ := found
      obtain ⟨n, hn⟩ := rest_readAtom hatom
      have hn : left = (c :: cs).drop n := hn
      have hafter : Input.skip isGap ⟨start, left⟩ = ⟨start, left⟩ := by
        rw [hn, hskip]
      simp only [hatom, bind, Except.bind, hafter] at h
      cases left with
      | cons l left => cases h
      | nil =>
        cases h
        exact hr.readAtom_append hatom offset

/-! ## Parts of a text -/

theorem Storable.write_starts (h : Storable d) : ∃ c cs, d.write.toList = c :: cs ∧ Starts c := by
  cases h with
  | null => exact ⟨'n', ['u', 'l', 'l'], by decide, by decide⟩
  | bool b =>
    cases b
    · exact ⟨'f', ['a', 'l', 's', 'e'], by decide, by decide⟩
    · exact ⟨'t', ['r', 'u', 'e'], by decide, by decide⟩
  | @int i h =>
    obtain ⟨c, cs, htext, hc⟩ := numeric_writeInt i
    exact ⟨c, cs, htext, hc.starts.1⟩
  | float h =>
    obtain ⟨c, cs, htext, hc⟩ := (readAtom_writeFloat h).1
    exact ⟨c, cs, htext, hc.starts.1⟩
  | str s =>
    refine ⟨'"', s.toList.flatMap escapeChar ++ ['"'], ?_, by decide⟩
    simp [write, writeText]
  | @list items h =>
    refine ⟨'[', (", ".intercalate (writeItems items)).toList ++ [']'], ?_, by decide⟩
    simp [write]
  | @dict fields hnames h =>
    exact ⟨'{', _, by rw [write, String.append_assoc, String.toList_append]; rfl, by decide⟩

/-- A datum is read back wherever its text stands. -/
def ReadsBack (d : Datum) : Prop :=
  ∀ (fuel offset : Nat) (rest : List Char), Closes rest → 2 * d.write.toList.length ≤ fuel →
    ∃ offset', readValue fuel ⟨offset, d.write.toList ++ rest⟩ = .ok (d, ⟨offset', rest⟩)

/-- The text of the items of a list, without the brackets. -/
def itemsText (items : List Datum) : List Char := (", ".intercalate (writeItems items)).toList

@[simp]
theorem itemsText_singleton (d : Datum) : itemsText [d] = d.write.toList := by
  simp [itemsText, writeItems]

@[simp]
theorem itemsText_cons (d e : Datum) (items : List Datum) :
    itemsText (d :: e :: items) = d.write.toList ++ ',' :: ' ' :: itemsText (e :: items) := by
  simp [itemsText, writeItems, String.toList_intercalate]

theorem itemsText_starts (h : Storable d) (items : List Datum) :
    ∃ c cs, itemsText (d :: items) = c :: cs ∧ Starts c := by
  obtain ⟨c, cs, hd, hc⟩ := h.write_starts
  cases items with
  | nil => exact ⟨c, cs, by simp [hd], hc⟩
  | cons e items => exact ⟨c, _, by rw [itemsText_cons, hd, List.cons_append], hc⟩

section Items

variable {fuel offset : Nat} {input : Input} {d : Datum} {done : List Datum} {rest : List Char}

theorem readItems_last (h : readValue fuel input = .ok (d, ⟨offset, ']' :: rest⟩)) :
    readItems (fuel + 1) done input = .ok (.list (done.reverse ++ [d]), ⟨offset + 1, rest⟩) := by
  simp [readItems, h, bind, Except.bind, Input.skip_of_not (rfl : isGap ']' = false),
    pure, Except.pure]

theorem readItems_next (hc : isGap c = false)
    (h : readValue fuel input = .ok (d, ⟨offset, ',' :: ' ' :: c :: rest⟩)) :
    readItems (fuel + 1) done input = readItems fuel (d :: done) ⟨offset + 2, c :: rest⟩ := by
  simp [readItems, h, bind, Except.bind, Input.skip_of_not (rfl : isGap ',' = false),
    Input.skip_of (rfl : isGap ' ' = true) hc]

end Items

theorem readItems_itemsText (h : ∀ e ∈ d :: items, Storable e)
    (hreads : ∀ e ∈ d :: items, ReadsBack e) (fuel offset : Nat) (done : List Datum)
    (rest : List Char) (hfuel : 2 * (itemsText (d :: items)).length + 1 ≤ fuel) : ∃ offset',
    readItems fuel done ⟨offset, itemsText (d :: items) ++ ']' :: rest⟩ =
      .ok (.list (done.reverse ++ d :: items), ⟨offset', rest⟩) := by
  induction items generalizing d fuel offset done with
  | nil =>
    obtain ⟨fuel, rfl⟩ : ∃ k, fuel = k + 1 := ⟨fuel - 1, by omega⟩
    rw [itemsText_singleton] at hfuel ⊢
    obtain ⟨offset₁, h₁⟩ := hreads d (by simp) fuel offset (']' :: rest)
      (closes_cons (by simp) rest) (by omega)
    exact ⟨offset₁ + 1, readItems_last h₁⟩
  | cons e items ih =>
    obtain ⟨fuel, rfl⟩ : ∃ k, fuel = k + 1 := ⟨fuel - 1, by omega⟩
    rw [itemsText_cons] at hfuel ⊢
    simp only [List.length_append, List.length_cons] at hfuel
    rw [List.append_assoc]
    obtain ⟨offset₁, h₁⟩ := hreads d (by simp) fuel offset
      (',' :: ' ' :: itemsText (e :: items) ++ ']' :: rest) (closes_cons (by simp) _) (by omega)
    obtain ⟨offset₂, h₂⟩ := ih (d := e) (fun x hx => h x (List.mem_cons_of_mem _ hx))
      (fun x hx => hreads x (List.mem_cons_of_mem _ hx)) fuel (offset₁ + 2) (d :: done) (by omega)
    obtain ⟨c, cs, hc, hstarts⟩ := itemsText_starts (h e (by simp)) items
    refine ⟨offset₂, ?_⟩
    rw [hc] at h₁ h₂ ⊢
    rw [readItems_next hstarts.1 h₁]
    refine h₂.trans ?_
    simp

/-- The text of the fields of a table, without the braces. -/
def fieldsText (fields : List (String × Datum)) : List Char :=
  (", ".intercalate (writeEntries (fields.map fun f => (.str f.1, f.2)))).toList

@[simp]
theorem fieldsText_singleton (f : String × Datum) :
    fieldsText [f] = (writeText f.1).toList ++ ':' :: ' ' :: f.2.write.toList := by
  simp [fieldsText, writeEntries, keyText]

@[simp]
theorem fieldsText_cons (f g : String × Datum) (fields : List (String × Datum)) :
    fieldsText (f :: g :: fields) = (writeText f.1).toList ++ ':' :: ' ' :: (f.2.write.toList ++
      ',' :: ' ' :: fieldsText (g :: fields)) := by
  simp [fieldsText, writeEntries, keyText]

theorem fieldsText_starts (f : String × Datum) (fields : List (String × Datum)) :
    ∃ cs, fieldsText (f :: fields) = '"' :: cs := by
  cases fields with
  | nil => exact ⟨_, by rw [fieldsText_singleton, writeText]; simp; rfl⟩
  | cons g fields => exact ⟨_, by rw [fieldsText_cons, writeText]; simp; rfl⟩

theorem enter_new {name : String} {value : Datum} (h : name ∉ fields.map (·.1)) :
    enter (.str name) value (fields.map fun f => (.str f.1, f.2)) =
      (fields ++ [(name, value)]).map fun f => (.str f.1, f.2) := by
  induction fields with
  | nil => rfl
  | cons f fields ih =>
    simp only [List.map_cons, List.mem_cons, not_or] at h
    have hne : same (.str f.1) (.str name) = false := by
      simp [same, sameLeaf, Ne.symm h.1]
    simp only [List.map_cons, enter, hne, List.cons_append, Bool.false_eq_true, if_false, ih h.2]

section Fields

variable {fuel offset offset' start : Nat} {name : String} {d : Datum}
  {done : List (Datum × Datum)} {cs rest : List Char}

variable {rest' : List Char}

theorem readFields_last (hc : isGap c = false)
    (hname : readText start (start + 1) [] cs = .ok (name, ⟨offset, ':' :: ' ' :: c :: rest⟩))
    (h : readValue fuel ⟨offset + 2, c :: rest⟩ = .ok (d, ⟨offset', '}' :: rest'⟩)) :
    readFields (fuel + 1) done ⟨start, '"' :: cs⟩ =
      .ok (.dict (enter (.str name) d done), ⟨offset' + 1, rest'⟩) := by
  simp [readFields, hname, h, bind, Except.bind, pure, Except.pure,
    Input.skip_of_not (rfl : isGap ':' = false),
    Input.skip_of (rfl : isGap ' ' = true) hc,
    Input.skip_of_not (rfl : isGap '}' = false)]

theorem readFields_next {c b : Char} (hc : isGap c = false) (hb : isGap b = false)
    (hname : readText start (start + 1) [] cs = .ok (name, ⟨offset, ':' :: ' ' :: c :: rest⟩))
    (h : readValue fuel ⟨offset + 2, c :: rest⟩ = .ok (d, ⟨offset', ',' :: ' ' :: b :: rest'⟩)) :
    readFields (fuel + 1) done ⟨start, '"' :: cs⟩ =
      readFields fuel (enter (.str name) d done) ⟨offset' + 2, b :: rest'⟩ := by
  simp [readFields, hname, h, bind, Except.bind,
    Input.skip_of_not (rfl : isGap ':' = false),
    Input.skip_of (rfl : isGap ' ' = true) hc,
    Input.skip_of_not (rfl : isGap ',' = false),
    Input.skip_of (rfl : isGap ' ' = true) hb]

end Fields

theorem new_of_nodup {f : String × Datum} {done : List (String × Datum)}
    (h : ((done ++ f :: fields).map (·.1)).Nodup) : f.1 ∉ done.map (·.1) := by
  rw [List.map_append, List.nodup_append] at h
  exact fun hmem => h.2.2 _ hmem f.1 (by simp) rfl

theorem readFields_fieldsText {f : String × Datum}
    (done : List (String × Datum)) (hnames : ((done ++ f :: fields).map (·.1)).Nodup)
    (h : ∀ g ∈ f :: fields, Storable g.2) (hreads : ∀ g ∈ f :: fields, ReadsBack g.2) (fuel offset : Nat) (rest : List Char)
    (hfuel : 2 * (fieldsText (f :: fields)).length + 1 ≤ fuel) : ∃ offset',
    readFields fuel (done.map fun f => (.str f.1, f.2))
        ⟨offset, fieldsText (f :: fields) ++ '}' :: rest⟩ =
      .ok (.dict ((done ++ f :: fields).map fun f => (.str f.1, f.2)), ⟨offset', rest⟩) := by
  induction fields generalizing f fuel offset done with
  | nil =>
    obtain ⟨fuel, rfl⟩ : ∃ k, fuel = k + 1 := ⟨fuel - 1, by omega⟩
    have hnew := new_of_nodup hnames
    rw [fieldsText_singleton] at hfuel ⊢
    simp only [List.length_append, List.length_cons] at hfuel
    obtain ⟨c, cs, hvalue, hstarts⟩ := (h f (by simp)).write_starts
    obtain ⟨text, offset₁, htext, hname⟩ := readText_writeText f.1 offset (offset + 1)
      (':' :: ' ' :: (f.2.write.toList ++ '}' :: rest))
    obtain ⟨offset₂, h₂⟩ := hreads f (by simp) fuel (offset₁ + 2) ('}' :: rest)
      (closes_cons (by simp) rest) (by omega)
    rw [hvalue, List.cons_append] at hname h₂
    refine ⟨offset₂ + 1, ?_⟩
    rw [List.append_assoc, List.cons_append, List.cons_append, htext,
      readFields_last hstarts.1 hname h₂, enter_new hnew]
  | cons g fields ih =>
    obtain ⟨fuel, rfl⟩ : ∃ k, fuel = k + 1 := ⟨fuel - 1, by omega⟩
    have hnew := new_of_nodup hnames
    rw [fieldsText_cons] at hfuel ⊢
    simp only [List.length_append, List.length_cons] at hfuel
    obtain ⟨c, cs, hvalue, hstarts⟩ := (h f (by simp)).write_starts
    obtain ⟨more, hmore⟩ := fieldsText_starts g fields
    obtain ⟨text, offset₁, htext, hname⟩ := readText_writeText f.1 offset (offset + 1)
      (':' :: ' ' :: (f.2.write.toList ++ ',' :: ' ' :: (fieldsText (g :: fields) ++ '}' :: rest)))
    obtain ⟨offset₂, h₂⟩ := hreads f (by simp) fuel (offset₁ + 2)
      (',' :: ' ' :: (fieldsText (g :: fields) ++ '}' :: rest)) (closes_cons (by simp) _) (by omega)
    obtain ⟨offset₃, h₃⟩ := ih (f := g) (done ++ [f]) (by simpa using hnames)
      (fun x hx => h x (List.mem_cons_of_mem _ hx))
      (fun x hx => hreads x (List.mem_cons_of_mem _ hx)) fuel (offset₂ + 2) (by omega)
    refine ⟨offset₃, ?_⟩
    have hshape : (writeText f.1).toList ++ ':' :: ' ' :: (f.2.write.toList ++
        ',' :: ' ' :: fieldsText (g :: fields)) ++ '}' :: rest = '"' :: text := by
      rw [← htext]
      simp
    rw [hvalue, List.cons_append] at hname h₂
    rw [hmore, List.cons_append] at hname h₂ h₃
    rw [hshape, readFields_next hstarts.1 (rfl : isGap '"' = false) hname h₂,
      enter_new hnew, h₃]
    simp

/-- A value that starts with neither a quote nor a bracket is a word or a number. -/
theorem readsBack_atom (hfirst : ∃ c cs, d.write.toList = c :: cs ∧ c ≠ '"' ∧ c ≠ '[' ∧ c ≠ '{')
    (h : ∀ offset rest, Closes rest → ∃ offset',
      readAtom ⟨offset, d.write.toList ++ rest⟩ = .ok (d, ⟨offset', rest⟩)) : ReadsBack d := by
  intro fuel offset rest hr hfuel
  obtain ⟨c, cs, hd, hquote, hbracket, hbrace⟩ := hfirst
  rw [hd, List.length_cons] at hfuel
  obtain ⟨fuel, rfl⟩ : ∃ k, fuel = k + 1 := ⟨fuel - 1, by omega⟩
  obtain ⟨offset', h'⟩ := h offset rest hr
  refine ⟨offset', ?_⟩
  rw [← h', hd, List.cons_append, readValue.eq_def]
  split <;> simp_all

theorem readsBack_int (hi : i.natAbs < 10 ^ Number.digitLimit) : ReadsBack (.int i) := by
  obtain ⟨c, cs, htext, hc⟩ := numeric_writeInt i
  exact readsBack_atom ⟨c, cs, htext, hc.starts.2⟩ fun offset rest hr =>
    readAtom_intDigits hi offset hr

theorem readsBack_str (s : String) : ReadsBack (.str s) := by
  intro fuel offset rest hr hfuel
  obtain ⟨cs, offset', htext, hread⟩ := readText_writeText s offset (offset + 1) rest
  have hne : (write (.str s)).toList ≠ [] := by simp [write, writeText]
  obtain ⟨fuel, rfl⟩ : ∃ k, fuel = k + 1 :=
    ⟨fuel - 1, by have := List.length_pos_iff.2 hne; omega⟩
  refine ⟨offset', ?_⟩
  rw [write, htext]
  simp [readValue, hread, bind, Except.bind, pure, Except.pure]

theorem readsBack_list (h : ∀ d ∈ items, Storable d)
    (hreads : ∀ d ∈ items, ReadsBack d) : ReadsBack (.list items) := by
  intro fuel offset rest hr hfuel
  have htext : (write (.list items)).toList = '[' :: (itemsText items ++ [']']) := by
    simp [write, itemsText]
  rw [htext] at hfuel ⊢
  simp only [List.length_cons, List.length_append, List.length_nil] at hfuel
  obtain ⟨fuel, rfl⟩ : ∃ k, fuel = k + 1 := ⟨fuel - 1, by omega⟩
  rw [List.cons_append, List.append_assoc, List.singleton_append]
  cases items with
  | nil =>
    refine ⟨offset + 2, ?_⟩
    simp [readValue, itemsText, writeItems, pure, Except.pure,
      Input.skip_of_not (rfl : isGap ']' = false)]
  | cons d items =>
    obtain ⟨c, cs, hc, hstarts⟩ := itemsText_starts (h d (by simp)) items
    obtain ⟨offset', h'⟩ := readItems_itemsText h hreads fuel (offset + 1) [] rest (by omega)
    refine ⟨offset', ?_⟩
    rw [hc, List.cons_append] at h' ⊢
    simp only [readValue, Input.skip_of_not hstarts.1]
    split
    · rename_i heq
      exact absurd (List.cons.inj heq).1 hstarts.2.1
    · exact h'

theorem readsBack_dict (hnames : (fields.map (·.1)).Nodup)
    (h : ∀ f ∈ fields, Storable f.2) (hreads : ∀ f ∈ fields, ReadsBack f.2) :
    ReadsBack (.dict (fields.map fun f => (.str f.1, f.2))) := by
  intro fuel offset rest hr hfuel
  have htext : (write (.dict (fields.map fun f => (.str f.1, f.2)))).toList =
      '{' :: (fieldsText fields ++ ['}']) := by
    simp [write, fieldsText]
  rw [htext] at hfuel ⊢
  simp only [List.length_cons, List.length_append, List.length_nil] at hfuel
  obtain ⟨fuel, rfl⟩ : ∃ k, fuel = k + 1 := ⟨fuel - 1, by omega⟩
  rw [List.cons_append, List.append_assoc, List.singleton_append]
  cases fields with
  | nil =>
    refine ⟨offset + 2, ?_⟩
    simp [readValue, fieldsText, writeEntries, pure, Except.pure,
      Input.skip_of_not (rfl : isGap '}' = false)]
  | cons f fields =>
    obtain ⟨cs, hc⟩ := fieldsText_starts f fields
    obtain ⟨offset', h'⟩ := readFields_fieldsText [] hnames h hreads fuel (offset + 1)
      rest (by omega)
    refine ⟨offset', ?_⟩
    rw [hc, List.cons_append] at h' ⊢
    simp only [readValue, Input.skip_of_not (rfl : isGap '"' = false)]
    exact h'

theorem Storable.readsBack (h : Storable d) : ReadsBack d := by
  induction h with
  | null =>
    refine readsBack_atom ⟨'n', ['u', 'l', 'l'], by decide, by decide, by decide, by decide⟩ ?_
    exact fun offset rest _ => ⟨offset + 4, rfl⟩
  | bool b =>
    cases b
    · refine readsBack_atom ⟨'f', ['a', 'l', 's', 'e'], by decide, by decide, by decide, by decide⟩ ?_
      exact fun offset rest _ => ⟨offset + 5, rfl⟩
    · refine readsBack_atom ⟨'t', ['r', 'u', 'e'], by decide, by decide, by decide, by decide⟩ ?_
      exact fun offset rest _ => ⟨offset + 4, rfl⟩
  | int hi => exact readsBack_int hi
  | float h =>
    obtain ⟨⟨c, cs, htext, hc⟩, hreads⟩ := readAtom_writeFloat h
    exact readsBack_atom ⟨c, cs, htext, hc.starts.2⟩ hreads
  | str s => exact readsBack_str s
  | list h ih => exact readsBack_list h ih
  | dict hnames h ih => exact readsBack_dict hnames h ih

theorem Storable.read_write (h : Storable d) : read d.write = .ok d := by
  obtain ⟨c, cs, hd, hstarts⟩ := h.write_starts
  obtain ⟨offset, hread⟩ := h.readsBack (2 * d.write.toList.length + 2) 0 [] closes_nil (by omega)
  rw [List.append_nil] at hread
  have hmark : (d.write.toList.head? == some (Char.ofNat 0xFEFF)) = false := by
    simp [hd, hstarts.2.2]
  have hskip : Input.skip isGap ⟨0, d.write.toList⟩ = ⟨0, d.write.toList⟩ := by
    rw [hd, Input.skip_of_not hstarts.1]
  unfold read
  simp only [hmark, hskip, hread]
  rfl

end StackScript.Datum
