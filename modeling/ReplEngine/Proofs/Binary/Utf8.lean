import ReplEngine.Text.Utf8
set_option autoImplicit false

/-!
# UTF-8 has one form for every text

`decode` accepts exactly what `encode` produces: overlong forms, surrogates, numbers past the last
character and lone tail bytes are refused, so a text can be written in one way only.
-/

namespace ReplEngine.Text.Utf8

/-! ## The bytes of one character -/

/-- A number that is the code of a character stays what it is. -/
theorem toNat_ofNat_of_valid {n : Nat} (h : n.isValidChar) : (Char.ofNat n).toNat = n := by
  rw [Char.ofNat, dif_pos h]
  rfl

theorem encodeChar_one {c : Char} (h : c.toNat < 0x80) :
    String.utf8EncodeChar c = [UInt8.ofNat c.toNat] := by
  have h' : c.val.toNat ≤ 0x7f := Nat.le_of_lt_succ h
  rw [String.utf8EncodeChar, if_pos h']
  rfl

theorem encodeChar_two {c : Char} (h : 0x80 ≤ c.toNat) (h' : c.toNat < 0x800) :
    String.utf8EncodeChar c =
      [UInt8.ofNat (c.toNat / 64 % 32 + 0xC0), UInt8.ofNat (c.toNat % 64 + 0x80)] := by
  have h₁ : ¬ c.val.toNat ≤ 0x7f := Nat.not_le_of_lt h
  have h₂ : c.val.toNat ≤ 0x7ff := Nat.le_of_lt_succ h'
  rw [String.utf8EncodeChar, if_neg h₁, if_pos h₂]
  rfl

theorem encodeChar_three {c : Char} (h : 0x800 ≤ c.toNat) (h' : c.toNat < 0x10000) :
    String.utf8EncodeChar c =
      [UInt8.ofNat (c.toNat / 4096 % 16 + 0xE0), UInt8.ofNat (c.toNat / 64 % 64 + 0x80),
        UInt8.ofNat (c.toNat % 64 + 0x80)] := by
  have h₁ : ¬ c.val.toNat ≤ 0x7f := Nat.not_le_of_lt (Nat.lt_of_lt_of_le (by decide) h)
  have h₂ : ¬ c.val.toNat ≤ 0x7ff := Nat.not_le_of_lt h
  have h₃ : c.val.toNat ≤ 0xffff := Nat.le_of_lt_succ h'
  rw [String.utf8EncodeChar, if_neg h₁, if_neg h₂, if_pos h₃]
  rfl

theorem encodeChar_four {c : Char} (h : 0x10000 ≤ c.toNat) :
    String.utf8EncodeChar c =
      [UInt8.ofNat (c.toNat / 262144 % 8 + 0xF0), UInt8.ofNat (c.toNat / 4096 % 64 + 0x80),
        UInt8.ofNat (c.toNat / 64 % 64 + 0x80), UInt8.ofNat (c.toNat % 64 + 0x80)] := by
  have h₁ : ¬ c.val.toNat ≤ 0x7f := Nat.not_le_of_lt (Nat.lt_of_lt_of_le (by decide) h)
  have h₂ : ¬ c.val.toNat ≤ 0x7ff := Nat.not_le_of_lt (Nat.lt_of_lt_of_le (by decide) h)
  have h₃ : ¬ c.val.toNat ≤ 0xffff := Nat.not_le_of_lt h
  rw [String.utf8EncodeChar, if_neg h₁, if_neg h₂, if_neg h₃]
  rfl

/-- The codes of characters: no surrogate, and none past the last one. -/
theorem toNat_valid (c : Char) : c.toNat < 0xD800 ∨ (0xDFFF < c.toNat ∧ c.toNat < 0x110000) :=
  c.valid

/-! ## What was read is what would be written -/

theorem isTail_iff {b : UInt8} : isTail b = true ↔ 0x80 ≤ b.toNat ∧ b.toNat ≤ 0xBF := by
  simp [isTail, UInt8.le_iff_toNat_le]

/-- A tail byte is determined by its low six bits. -/
theorem ofNat_tail {n : Nat} {b : UInt8} (hb : isTail b = true) (h : n % 64 = tailBits b) :
    UInt8.ofNat (n % 64 + 0x80) = b := by
  rw [isTail_iff] at hb
  rw [← UInt8.toNat_inj, UInt8.toNat_ofNat']
  simp only [tailBits] at h
  omega

/-- A second byte is a tail byte that rules out overlong forms and surrogates. -/
theorem isSecondOf3_iff {a b : UInt8} : isSecondOf3 a b = true ↔
    isTail b = true ∧ (a.toNat = 0xE0 → 0xA0 ≤ b.toNat) ∧ (a.toNat = 0xED → b.toNat ≤ 0x9F) := by
  have e0 : a = 0xE0 ↔ a.toNat = 0xE0 := UInt8.toNat_inj.symm
  have ed : a = 0xED ↔ a.toNat = 0xED := UInt8.toNat_inj.symm
  simp only [isSecondOf3, isTail_iff, e0, ed]
  split
  · simp [UInt8.le_iff_toNat_le]; omega
  split
  · simp [UInt8.le_iff_toNat_le]; omega
  · rw [isTail_iff]; omega

/-- A second byte is a tail byte that rules out overlong forms and codes past the last one. -/
theorem isSecondOf4_iff {a b : UInt8} : isSecondOf4 a b = true ↔
    isTail b = true ∧ (a.toNat = 0xF0 → 0x90 ≤ b.toNat) ∧ (a.toNat = 0xF4 → b.toNat ≤ 0x8F) := by
  have f0 : a = 0xF0 ↔ a.toNat = 0xF0 := UInt8.toNat_inj.symm
  have f4 : a = 0xF4 ↔ a.toNat = 0xF4 := UInt8.toNat_inj.symm
  simp only [isSecondOf4, isTail_iff, f0, f4]
  split
  · simp [UInt8.le_iff_toNat_le]; omega
  split
  · simp [UInt8.le_iff_toNat_le]; omega
  · rw [isTail_iff]; omega

theorem encodeChar_of_one {a : UInt8} (ha : a < 0x80) :
    String.utf8EncodeChar (Char.ofNat a.toNat) = [a] := by
  have ha' : a.toNat < 0x80 := UInt8.lt_iff_toNat_lt.1 ha
  have hn := toNat_ofNat_of_valid (n := a.toNat) (Or.inl (by omega))
  rw [encodeChar_one (by omega), hn, UInt8.ofNat_toNat]

theorem encodeChar_of_two {a b : UInt8} (ha : 0xC2 ≤ a ∧ a ≤ 0xDF) (hb : isTail b = true) :
    String.utf8EncodeChar (Char.ofNat (a.toNat % 32 * 64 + tailBits b)) = [a, b] := by
  have ha₁ : 0xC2 ≤ a.toNat := UInt8.le_iff_toNat_le.1 ha.1
  have ha₂ : a.toNat ≤ 0xDF := UInt8.le_iff_toNat_le.1 ha.2
  have hb' : tailBits b < 64 := Nat.mod_lt _ (by decide)
  have hn := toNat_ofNat_of_valid (n := a.toNat % 32 * 64 + tailBits b) (Or.inl (by omega))
  rw [encodeChar_two (by omega) (by omega), hn, ofNat_tail hb (by omega)]
  have hlead : UInt8.ofNat ((a.toNat % 32 * 64 + tailBits b) / 64 % 32 + 0xC0) = a := by
    rw [← UInt8.toNat_inj, UInt8.toNat_ofNat']
    omega
  rw [hlead]

theorem encodeChar_of_three {a b c : UInt8} (ha : 0xE0 ≤ a ∧ a ≤ 0xEF)
    (hb : isSecondOf3 a b = true) (hc : isTail c = true) :
    String.utf8EncodeChar
      (Char.ofNat (a.toNat % 16 * 4096 + tailBits b * 64 + tailBits c)) = [a, b, c] := by
  have ha₁ : 0xE0 ≤ a.toNat := UInt8.le_iff_toNat_le.1 ha.1
  have ha₂ : a.toNat ≤ 0xEF := UInt8.le_iff_toNat_le.1 ha.2
  obtain ⟨hbt, hlow, hhigh⟩ := isSecondOf3_iff.1 hb
  have hbt' := isTail_iff.1 hbt
  have hb' : tailBits b = b.toNat - 0x80 := by simp only [tailBits]; omega
  have hc' : tailBits c < 64 := Nat.mod_lt _ (by decide)
  have hv : (a.toNat % 16 * 4096 + tailBits b * 64 + tailBits c).isValidChar := by
    simp only [Nat.isValidChar]
    omega
  have hn := toNat_ofNat_of_valid hv
  rw [encodeChar_three (by omega) (by omega), hn]
  generalize hcode : a.toNat % 16 * 4096 + tailBits b * 64 + tailBits c = code
  have hlead : UInt8.ofNat (code / 4096 % 16 + 0xE0) = a := by
    rw [← UInt8.toNat_inj, UInt8.toNat_ofNat']
    omega
  rw [hlead, ofNat_tail (n := code / 64) hbt (by omega), ofNat_tail (n := code) hc (by omega)]

theorem encodeChar_of_four {a b c d : UInt8} (ha : 0xF0 ≤ a ∧ a ≤ 0xF4)
    (hb : isSecondOf4 a b = true) (hc : isTail c = true) (hd : isTail d = true) :
    String.utf8EncodeChar (Char.ofNat
      (a.toNat % 8 * 262144 + tailBits b * 4096 + tailBits c * 64 + tailBits d)) =
      [a, b, c, d] := by
  have ha₁ : 0xF0 ≤ a.toNat := UInt8.le_iff_toNat_le.1 ha.1
  have ha₂ : a.toNat ≤ 0xF4 := UInt8.le_iff_toNat_le.1 ha.2
  obtain ⟨hbt, hlow, hhigh⟩ := isSecondOf4_iff.1 hb
  have hbt' := isTail_iff.1 hbt
  have hb' : tailBits b = b.toNat - 0x80 := by simp only [tailBits]; omega
  have hc' : tailBits c < 64 := Nat.mod_lt _ (by decide)
  have hd' : tailBits d < 64 := Nat.mod_lt _ (by decide)
  have hv : (a.toNat % 8 * 262144 + tailBits b * 4096 + tailBits c * 64
      + tailBits d).isValidChar := by
    simp only [Nat.isValidChar]
    omega
  have hn := toNat_ofNat_of_valid hv
  rw [encodeChar_four (by omega), hn]
  generalize hcode :
    a.toNat % 8 * 262144 + tailBits b * 4096 + tailBits c * 64 + tailBits d = code
  have hlead : UInt8.ofNat (code / 262144 % 8 + 0xF0) = a := by
    rw [← UInt8.toNat_inj, UInt8.toNat_ofNat']
    omega
  rw [hlead, ofNat_tail (n := code / 4096) hbt (by omega),
    ofNat_tail (n := code / 64) hc (by omega), ofNat_tail (n := code) hd (by omega)]

/-- A character in front of what a reader gives, split off again. -/
theorem cons_map_eq_ok {x : Except Error (List Char)} {c : Char} {cs : List Char}
    (h : (c :: ·) <$> x = .ok cs) : ∃ cs', x = .ok cs' ∧ cs = c :: cs' := by
  cases x with
  | error e => cases h
  | ok cs' => exact ⟨cs', rfl, (Except.ok.inj h).symm⟩

/-- Bytes that can be read are those that would be written. -/
theorem eq_encode_of_decodeFrom {index : Nat} {bytes : List UInt8} {cs : List Char}
    (h : decodeFrom index bytes = .ok cs) : bytes = encode cs := by
  -- the cases that read a character are 2, 4, 8 and 14, by its number of bytes
  fun_induction decodeFrom index bytes generalizing cs
  case case1 => cases h; rfl
  case case2 ha ih =>
    obtain ⟨cs', h', rfl⟩ := cons_map_eq_ok h
    rw [encode, List.flatMap_cons, encodeChar_of_one ha, ih h']
    rfl
  case case4 ha _ _ hb ih =>
    obtain ⟨cs', h', rfl⟩ := cons_map_eq_ok h
    rw [encode, List.flatMap_cons, encodeChar_of_two ha hb, ih h']
    rfl
  case case8 ha _ hb _ _ hc ih =>
    obtain ⟨cs', h', rfl⟩ := cons_map_eq_ok h
    rw [encode, List.flatMap_cons, encodeChar_of_three ha hb hc, ih h']
    rfl
  case case14 ha _ hb _ hc _ _ hd ih =>
    obtain ⟨cs', h', rfl⟩ := cons_map_eq_ok h
    rw [encode, List.flatMap_cons, encodeChar_of_four ha hb hc hd, ih h']
    rfl
  all_goals cases h

/-! ## What was written is read back -/

theorem isTail_ofNat (n : Nat) : isTail (UInt8.ofNat (n % 64 + 0x80)) = true := by
  rw [isTail_iff, UInt8.toNat_ofNat']
  omega

theorem tailBits_ofNat (n : Nat) : tailBits (UInt8.ofNat (n % 64 + 0x80)) = n % 64 := by
  rw [tailBits, UInt8.toNat_ofNat']
  omega

theorem decodeFrom_one {index : Nat} {a : UInt8} {rest : List UInt8} (ha : a.toNat < 0x80) :
    decodeFrom index (a :: rest) = (Char.ofNat a.toNat :: ·) <$> decodeFrom (index + 1) rest := by
  have h : a < 0x80 := UInt8.lt_iff_toNat_lt.2 ha
  rw [decodeFrom.eq_def]
  simp only [h, if_true]

theorem decodeFrom_two {index : Nat} {a b : UInt8} {rest : List UInt8}
    (ha : 0xC2 ≤ a.toNat ∧ a.toNat ≤ 0xDF) (hb : isTail b = true) :
    decodeFrom index (a :: b :: rest) =
      (Char.ofNat (a.toNat % 32 * 64 + tailBits b) :: ·) <$> decodeFrom (index + 2) rest := by
  have h₁ : ¬ a < 0x80 := by rw [UInt8.lt_iff_toNat_lt]; simp; omega
  have h₂ : 0xC2 ≤ a ∧ a ≤ 0xDF := ⟨UInt8.le_iff_toNat_le.2 ha.1, UInt8.le_iff_toNat_le.2 ha.2⟩
  rw [decodeFrom.eq_def]
  simp only [h₁, h₂, hb, and_self, if_true, if_false]

theorem decodeFrom_three {index : Nat} {a b c : UInt8} {rest : List UInt8}
    (ha : 0xE0 ≤ a.toNat ∧ a.toNat ≤ 0xEF) (hb : isSecondOf3 a b = true) (hc : isTail c = true) :
    decodeFrom index (a :: b :: c :: rest) =
      (Char.ofNat (a.toNat % 16 * 4096 + tailBits b * 64 + tailBits c) :: ·) <$>
        decodeFrom (index + 3) rest := by
  have h₁ : ¬ a < 0x80 := by rw [UInt8.lt_iff_toNat_lt]; simp; omega
  have h₂ : ¬ (0xC2 ≤ a ∧ a ≤ 0xDF) := by simp only [UInt8.le_iff_toNat_le]; simp; omega
  have h₃ : 0xE0 ≤ a ∧ a ≤ 0xEF := ⟨UInt8.le_iff_toNat_le.2 ha.1, UInt8.le_iff_toNat_le.2 ha.2⟩
  rw [decodeFrom.eq_def]
  simp only [h₁, h₂, h₃, hb, hc, and_self, if_true, if_false]

theorem decodeFrom_four {index : Nat} {a b c d : UInt8} {rest : List UInt8}
    (ha : 0xF0 ≤ a.toNat ∧ a.toNat ≤ 0xF4) (hb : isSecondOf4 a b = true) (hc : isTail c = true)
    (hd : isTail d = true) :
    decodeFrom index (a :: b :: c :: d :: rest) =
      (Char.ofNat (a.toNat % 8 * 262144 + tailBits b * 4096 + tailBits c * 64 + tailBits d) :: ·)
        <$> decodeFrom (index + 4) rest := by
  have h₁ : ¬ a < 0x80 := by rw [UInt8.lt_iff_toNat_lt]; simp; omega
  have h₂ : ¬ (0xC2 ≤ a ∧ a ≤ 0xDF) := by simp only [UInt8.le_iff_toNat_le]; simp; omega
  have h₃ : ¬ (0xE0 ≤ a ∧ a ≤ 0xEF) := by simp only [UInt8.le_iff_toNat_le]; simp; omega
  have h₄ : 0xF0 ≤ a ∧ a ≤ 0xF4 := ⟨UInt8.le_iff_toNat_le.2 ha.1, UInt8.le_iff_toNat_le.2 ha.2⟩
  rw [decodeFrom.eq_def]
  simp only [h₁, h₂, h₃, h₄, hb, hc, hd, and_self, if_true, if_false]

/-- A reader takes a written character off the front. -/
theorem decodeFrom_encodeChar (index : Nat) (c : Char) (rest : List UInt8) :
    ∃ next, decodeFrom index (String.utf8EncodeChar c ++ rest) =
      (c :: ·) <$> decodeFrom next rest := by
  have hv := toNat_valid c
  by_cases h₁ : c.toNat < 0x80
  · have ha : (UInt8.ofNat c.toNat).toNat = c.toNat := by rw [UInt8.toNat_ofNat']; omega
    refine ⟨index + 1, ?_⟩
    rw [encodeChar_one h₁, List.singleton_append, decodeFrom_one (by omega), ha, Char.ofNat_toNat]
  by_cases h₂ : c.toNat < 0x800
  · have ha : (UInt8.ofNat (c.toNat / 64 % 32 + 0xC0)).toNat = c.toNat / 64 % 32 + 0xC0 := by
      rw [UInt8.toNat_ofNat']; omega
    have hcode : (c.toNat / 64 % 32 + 0xC0) % 32 * 64 + c.toNat % 64 = c.toNat := by omega
    refine ⟨index + 2, ?_⟩
    rw [encodeChar_two (by omega) h₂, List.cons_append, List.singleton_append,
      decodeFrom_two (by omega) (isTail_ofNat _), ha, tailBits_ofNat, hcode, Char.ofNat_toNat]
  by_cases h₃ : c.toNat < 0x10000
  · have ha : (UInt8.ofNat (c.toNat / 4096 % 16 + 0xE0)).toNat = c.toNat / 4096 % 16 + 0xE0 := by
      rw [UInt8.toNat_ofNat']; omega
    have hb : (UInt8.ofNat (c.toNat / 64 % 64 + 0x80)).toNat = c.toNat / 64 % 64 + 0x80 := by
      rw [UInt8.toNat_ofNat']; omega
    have hsecond := isSecondOf3_iff.2 ⟨isTail_ofNat (c.toNat / 64),
      fun e => by rw [ha] at e; omega, fun e => by rw [ha] at e; omega⟩
    have hcode : (c.toNat / 4096 % 16 + 0xE0) % 16 * 4096 + c.toNat / 64 % 64 * 64
        + c.toNat % 64 = c.toNat := by omega
    refine ⟨index + 3, ?_⟩
    rw [encodeChar_three (by omega) h₃, List.cons_append, List.cons_append, List.singleton_append,
      decodeFrom_three (by omega) hsecond (isTail_ofNat _), ha, tailBits_ofNat, tailBits_ofNat,
      hcode, Char.ofNat_toNat]
  · have ha : (UInt8.ofNat (c.toNat / 262144 % 8 + 0xF0)).toNat = c.toNat / 262144 % 8 + 0xF0 := by
      rw [UInt8.toNat_ofNat']; omega
    have hb : (UInt8.ofNat (c.toNat / 4096 % 64 + 0x80)).toNat = c.toNat / 4096 % 64 + 0x80 := by
      rw [UInt8.toNat_ofNat']; omega
    have hsecond := isSecondOf4_iff.2 ⟨isTail_ofNat (c.toNat / 4096),
      fun e => by rw [ha] at e; omega, fun e => by rw [ha] at e; omega⟩
    have hcode : (c.toNat / 262144 % 8 + 0xF0) % 8 * 262144 + c.toNat / 4096 % 64 * 4096
        + c.toNat / 64 % 64 * 64 + c.toNat % 64 = c.toNat := by omega
    refine ⟨index + 4, ?_⟩
    rw [encodeChar_four (by omega), List.cons_append, List.cons_append, List.cons_append,
      List.singleton_append, decodeFrom_four (by omega) hsecond (isTail_ofNat _) (isTail_ofNat _),
      ha, tailBits_ofNat, tailBits_ofNat, tailBits_ofNat, hcode, Char.ofNat_toNat]

/-- What was written is read back. -/
theorem decodeFrom_encode (index : Nat) (cs : List Char) :
    decodeFrom index (encode cs) = .ok cs := by
  induction cs generalizing index with
  | nil => rfl
  | cons c cs ih =>
    obtain ⟨next, h⟩ := decodeFrom_encodeChar index c (encode cs)
    rw [encode, List.flatMap_cons]
    exact h.trans (by rw [ih next]; rfl)

/-- The bytes that read as a text are its bytes, and no others. -/
theorem decode_eq_ok_iff {bytes : List UInt8} {cs : List Char} :
    decode bytes = .ok cs ↔ bytes = encode cs :=
  ⟨eq_encode_of_decodeFrom, fun h => h ▸ decodeFrom_encode 0 cs⟩

end ReplEngine.Text.Utf8
