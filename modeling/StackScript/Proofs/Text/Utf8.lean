import StackScript.Text.Utf8

/-!
# Bytes of a text are read back

`decodeUtf8_encodeUtf8`: the bytes of any text are read as that text. For each length that a character
may have, the first byte tells the length and the others pass for what may follow it.
-/

namespace StackScript.Text

/-- The number of a character lies outside the surrogates and below the last code point. -/
theorem toNat_valid (c : Char) : c.toNat < 0xD800 ∨ 0xDFFF < c.toNat ∧ c.toNat < 0x110000 :=
  c.valid

variable {n : Nat}

theorem toNat_byte (h : n < 256) : (UInt8.ofNat n).toNat = n := by
  rw [UInt8.toNat_ofNat']
  omega

theorem isTail_iff (b : UInt8) : isTail b = true ↔ 0x80 ≤ b.toNat ∧ b.toNat < 0xC0 := by
  simp [isTail, UInt8.lt_iff_toNat_lt, UInt8.le_iff_toNat_le]

theorem mayFollow_iff (a b : UInt8) : mayFollow a b = true ↔
    (0x80 ≤ b.toNat ∧ b.toNat < 0xC0) ∧ (a.toNat ≠ 0xE0 ∨ 0xA0 ≤ b.toNat) ∧
      (a.toNat ≠ 0xED ∨ b.toNat < 0xA0) ∧ (a.toNat ≠ 0xF0 ∨ 0x90 ≤ b.toNat) ∧
      (a.toNat ≠ 0xF4 ∨ b.toNat < 0x90) := by
  simp [mayFollow, isTail_iff, UInt8.lt_iff_toNat_lt, UInt8.le_iff_toNat_le, ← UInt8.toNat_inj,
    and_assoc]

theorem tailBits_byte : tailBits (UInt8.ofNat (0x80 + n % 0x40)) = n % 0x40 := by
  rw [tailBits, toNat_byte (by omega)]
  omega

theorem isTail_byte : isTail (UInt8.ofNat (0x80 + n % 0x40)) = true := by
  rw [isTail_iff, toNat_byte (by omega)]
  omega

/-- The bytes of one character are read as that character. -/
theorem decodeFrom_encodeChar (x : Char) (position : Nat) (read : List Char) (rest : List UInt8) :
    ∃ position', decodeFrom position read (encodeChar x ++ rest) =
      decodeFrom position' (x :: read) rest := by
  have hx := toNat_valid x
  have hof {n : Nat} (h : n = x.toNat) : Char.ofNat n = x := h ▸ Char.ofNat_toNat x
  unfold encodeChar
  dsimp only
  split
  · refine ⟨position + 1, ?_⟩
    have ha : (UInt8.ofNat x.toNat).toNat = x.toNat := toNat_byte (by omega)
    rw [List.singleton_append]
    conv => lhs; unfold decodeFrom
    simp (disch := omega) [UInt8.lt_iff_toNat_lt, ha, if_pos, hof]
  · split
    · refine ⟨position + 2, ?_⟩
      have ha : (UInt8.ofNat (0xC0 + x.toNat / 0x40)).toNat = 0xC0 + x.toNat / 0x40 :=
        toNat_byte (by omega)
      rw [List.cons_append, List.singleton_append]
      conv => lhs; unfold decodeFrom
      simp (disch := omega) [-UInt8.ofNat_add, -Nat.reducePow, UInt8.lt_iff_toNat_lt,
        UInt8.le_iff_toNat_le, ha, isTail_byte, tailBits_byte, if_neg, if_pos, hof]
    · split
      · refine ⟨position + 3, ?_⟩
        have ha : (UInt8.ofNat (0xE0 + x.toNat / 0x1000)).toNat = 0xE0 + x.toNat / 0x1000 :=
          toNat_byte (by omega)
        have hb : mayFollow (UInt8.ofNat (0xE0 + x.toNat / 0x1000))
            (UInt8.ofNat (0x80 + x.toNat / 0x40 % 0x40)) := by
          rw [mayFollow_iff, ha, toNat_byte (by omega)]
          omega
        rw [List.cons_append, List.cons_append, List.singleton_append]
        conv => lhs; unfold decodeFrom
        simp (disch := omega) [-UInt8.ofNat_add, -Nat.reducePow, UInt8.lt_iff_toNat_lt,
          UInt8.le_iff_toNat_le, ha, hb, isTail_byte, tailBits_byte, if_neg, if_pos, hof]
      · refine ⟨position + 4, ?_⟩
        have ha : (UInt8.ofNat (0xF0 + x.toNat / 0x40000)).toNat = 0xF0 + x.toNat / 0x40000 :=
          toNat_byte (by omega)
        have hb : mayFollow (UInt8.ofNat (0xF0 + x.toNat / 0x40000))
            (UInt8.ofNat (0x80 + x.toNat / 0x1000 % 0x40)) := by
          rw [mayFollow_iff, ha, toNat_byte (by omega)]
          omega
        rw [List.cons_append, List.cons_append, List.cons_append, List.singleton_append]
        conv => lhs; unfold decodeFrom
        simp (disch := omega) [-UInt8.ofNat_add, -Nat.reducePow, UInt8.lt_iff_toNat_lt,
          UInt8.le_iff_toNat_le, ha, hb, isTail_byte, tailBits_byte, if_neg, hof]

theorem decodeFrom_encode (cs : List Char) (position : Nat) (read : List Char) :
    decodeFrom position read (cs.flatMap encodeChar) = .ok (read.reverse ++ cs) := by
  induction cs generalizing position read with
  | nil => simp [decodeFrom]
  | cons x cs ih =>
    rw [List.flatMap_cons]
    obtain ⟨position', h⟩ := decodeFrom_encodeChar x position read (cs.flatMap encodeChar)
    rw [h, ih]
    simp

theorem decodeUtf8_encodeUtf8 (s : String) : decodeUtf8 (encodeUtf8 s) = .ok s := by
  rw [decodeUtf8, encodeUtf8, decodeFrom_encode]
  simp [Except.map]

end StackScript.Text
