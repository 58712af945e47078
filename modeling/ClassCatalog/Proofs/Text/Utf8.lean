import ClassCatalog.Text.Utf8

/-!
# UTF-8 there and back

`decode_encode`: reading the bytes of a string gives the string. The step is one character:
`decodeFrom_encodeChar` takes the bytes of a character off the front, whatever follows them. The
lemmas before it say what a well-formed sequence of each width is read as; they ask for the bounds
of the bytes only, so that they serve every text that is known to be well formed. The other way round,
the bytes of each width are what the character read from them is written as, so that a byte string is
read as a string exactly if it is what that string is written as (`decode_eq_ok_iff`).
-/

namespace ClassCatalog.Utf8

variable {a b c d : UInt8} {rest : Bytes}

theorem isContinuation_iff : isContinuation b = true ↔ 0x80 ≤ b.toNat ∧ b.toNat ≤ 0xBF := by
  simp [isContinuation, UInt8.le_iff_toNat_le]

theorem secondOfThree_iff :
    secondOfThree a b = true ↔
      (0x80 ≤ b.toNat ∧ b.toNat ≤ 0xBF) ∧ (a.toNat = 0xE0 → 0xA0 ≤ b.toNat) ∧
        (a.toNat = 0xED → b.toNat ≤ 0x9F) := by
  have he : a = 0xE0 ↔ a.toNat = 0xE0 := by rw [← UInt8.toNat_inj]; rfl
  have hd : a = 0xED ↔ a.toNat = 0xED := by rw [← UInt8.toNat_inj]; rfl
  unfold secondOfThree
  simp only [he, hd]
  split
  · simp only [Bool.and_eq_true, decide_eq_true_eq, UInt8.le_iff_toNat_le, UInt8.reduceToNat]
    omega
  · split
    · simp only [Bool.and_eq_true, decide_eq_true_eq, UInt8.le_iff_toNat_le, UInt8.reduceToNat]
      omega
    · rw [isContinuation_iff]
      omega

theorem secondOfFour_iff :
    secondOfFour a b = true ↔
      (0x80 ≤ b.toNat ∧ b.toNat ≤ 0xBF) ∧ (a.toNat = 0xF0 → 0x90 ≤ b.toNat) ∧
        (a.toNat = 0xF4 → b.toNat ≤ 0x8F) := by
  have h0 : a = 0xF0 ↔ a.toNat = 0xF0 := by rw [← UInt8.toNat_inj]; rfl
  have h4 : a = 0xF4 ↔ a.toNat = 0xF4 := by rw [← UInt8.toNat_inj]; rfl
  unfold secondOfFour
  simp only [h0, h4]
  split
  · simp only [Bool.and_eq_true, decide_eq_true_eq, UInt8.le_iff_toNat_le, UInt8.reduceToNat]
    omega
  · split
    · simp only [Bool.and_eq_true, decide_eq_true_eq, UInt8.le_iff_toNat_le, UInt8.reduceToNat]
      omega
    · rw [isContinuation_iff]
      omega

/-! ### Sequences of each width -/

theorem decodeFrom_one (valid : Nat) (ha : a.toNat < 0x80) :
    decodeFrom valid (a :: rest) = (decodeFrom (valid + 1) rest).map (Char.ofNat a.toNat :: ·) := by
  have h : a < 0x80 := UInt8.lt_iff_toNat_lt.mpr ha
  rw [decodeFrom.eq_def]
  simp only [if_pos h]

theorem decodeFrom_two (valid : Nat) (ha : 0xC2 ≤ a.toNat ∧ a.toNat ≤ 0xDF)
    (hb : isContinuation b = true) :
    decodeFrom valid (a :: b :: rest) =
      (decodeFrom (valid + 2) rest).map (Char.ofNat (a.toNat % 32 * 64 + payload b) :: ·) := by
  have h1 : ¬ a < 0x80 := by rw [UInt8.lt_iff_toNat_lt]; simp; omega
  have h2 : 0xC2 ≤ a ∧ a ≤ 0xDF := by simpa [UInt8.le_iff_toNat_le] using ha
  rw [decodeFrom.eq_def]
  simp only [if_neg h1, if_pos h2, if_pos hb]

theorem decodeFrom_three (valid : Nat) (ha : 0xE0 ≤ a.toNat ∧ a.toNat ≤ 0xEF)
    (hb : secondOfThree a b = true) (hc : isContinuation c = true) :
    decodeFrom valid (a :: b :: c :: rest) =
      (decodeFrom (valid + 3) rest).map
        (Char.ofNat ((a.toNat % 16 * 64 + payload b) * 64 + payload c) :: ·) := by
  have h1 : ¬ a < 0x80 := by rw [UInt8.lt_iff_toNat_lt]; simp; omega
  have h2 : ¬ (0xC2 ≤ a ∧ a ≤ 0xDF) := by simp [UInt8.le_iff_toNat_le]; omega
  have h3 : 0xE0 ≤ a ∧ a ≤ 0xEF := by simpa [UInt8.le_iff_toNat_le] using ha
  rw [decodeFrom.eq_def]
  simp only [if_neg h1, if_neg h2, if_pos h3, if_pos hb, if_pos hc]

theorem decodeFrom_four (valid : Nat) (ha : 0xF0 ≤ a.toNat ∧ a.toNat ≤ 0xF4)
    (hb : secondOfFour a b = true) (hc : isContinuation c = true) (hd : isContinuation d = true) :
    decodeFrom valid (a :: b :: c :: d :: rest) =
      (decodeFrom (valid + 4) rest).map
        (Char.ofNat (((a.toNat % 8 * 64 + payload b) * 64 + payload c) * 64 + payload d) :: ·) := by
  have h1 : ¬ a < 0x80 := by rw [UInt8.lt_iff_toNat_lt]; simp; omega
  have h2 : ¬ (0xC2 ≤ a ∧ a ≤ 0xDF) := by simp [UInt8.le_iff_toNat_le]; omega
  have h3 : ¬ (0xE0 ≤ a ∧ a ≤ 0xEF) := by simp [UInt8.le_iff_toNat_le]; omega
  have h4 : 0xF0 ≤ a ∧ a ≤ 0xF4 := by simpa [UInt8.le_iff_toNat_le] using ha
  rw [decodeFrom.eq_def]
  simp only [if_neg h1, if_neg h2, if_neg h3, if_pos h4, if_pos hb, if_pos hc, if_pos hd]

/-! ### Characters and strings -/

/-- No character lies between the surrogates, and none above the last plane. -/
theorem toNat_bounds (ch : Char) :
    ch.toNat < 0xD800 ∨ 0xDFFF < ch.toNat ∧ ch.toNat < 0x110000 := ch.valid

/-- The bytes of a character are read as the character. -/
theorem decodeFrom_encodeChar (valid : Nat) (ch : Char) (rest : Bytes) :
    decodeFrom valid (String.utf8EncodeChar ch ++ rest) =
      (decodeFrom (valid + ch.utf8Size) rest).map (ch :: ·) := by
  have hbounds := toNat_bounds ch
  have hval : ch.val.toNat = ch.toNat := rfl
  rw [← String.length_utf8EncodeChar]
  unfold String.utf8EncodeChar
  simp only [hval]
  split
  · rw [List.cons_append, List.nil_append, decodeFrom_one valid (by simp; omega)]
    simp only [UInt8.toNat_ofNat', List.length_cons, List.length_nil]
    rw [Nat.mod_eq_of_lt (by omega), Char.ofNat_toNat]
  · split
    · simp only [List.cons_append, List.nil_append]
      rw [decodeFrom_two valid (by simp; omega) (by rw [isContinuation_iff]; simp; omega)]
      simp only [UInt8.toNat_ofNat', payload, List.length_cons, List.length_nil]
      rw [show (ch.toNat / 64 % 32 + 192) % 2 ^ 8 % 32 * 64 + (ch.toNat % 64 + 128) % 2 ^ 8 % 64 =
        ch.toNat by omega, Char.ofNat_toNat]
    · split
      · simp only [List.cons_append, List.nil_append]
        rw [decodeFrom_three valid (by simp; omega) (by rw [secondOfThree_iff]; simp; omega)
          (by rw [isContinuation_iff]; simp; omega)]
        simp only [UInt8.toNat_ofNat', payload, List.length_cons, List.length_nil]
        rw [show ((ch.toNat / 4096 % 16 + 224) % 2 ^ 8 % 16 * 64 +
            (ch.toNat / 64 % 64 + 128) % 2 ^ 8 % 64) * 64 + (ch.toNat % 64 + 128) % 2 ^ 8 % 64 =
          ch.toNat by omega, Char.ofNat_toNat]
      · simp only [List.cons_append, List.nil_append]
        rw [decodeFrom_four valid (by simp; omega) (by rw [secondOfFour_iff]; simp; omega)
          (by rw [isContinuation_iff]; simp; omega) (by rw [isContinuation_iff]; simp; omega)]
        simp only [UInt8.toNat_ofNat', payload, List.length_cons, List.length_nil]
        rw [show (((ch.toNat / 262144 % 8 + 240) % 2 ^ 8 % 8 * 64 +
              (ch.toNat / 4096 % 64 + 128) % 2 ^ 8 % 64) * 64 +
            (ch.toNat / 64 % 64 + 128) % 2 ^ 8 % 64) * 64 + (ch.toNat % 64 + 128) % 2 ^ 8 % 64 =
          ch.toNat by omega, Char.ofNat_toNat]

theorem decodeFrom_encodeChars (valid : Nat) (chars : List Char) :
    decodeFrom valid (chars.flatMap String.utf8EncodeChar) = .ok chars := by
  induction chars generalizing valid with
  | nil => rfl
  | cons ch chars ih => rw [List.flatMap_cons, decodeFrom_encodeChar, ih]; rfl

/-- The bytes of a string are read as the string. -/
theorem decode_encode (s : String) : decode (encode s) = .ok s := by
  rw [decode, encode, decodeFrom_encodeChars]
  simp [Except.map]

/-- The first byte of a character tells how many there are. -/
theorem charWidth_head (ch : Char) :
    ∃ first others, String.utf8EncodeChar ch = first :: others ∧
      charWidth first = others.length + 1 := by
  have hbounds := toNat_bounds ch
  have hval : ch.val.toNat = ch.toNat := rfl
  unfold String.utf8EncodeChar
  simp only [hval]
  split
  · refine ⟨_, _, rfl, ?_⟩
    rw [charWidth, if_pos (by rw [UInt8.lt_iff_toNat_lt]; simp; omega)]
    rfl
  · split
    · refine ⟨_, _, rfl, ?_⟩
      rw [charWidth, if_neg (by rw [UInt8.lt_iff_toNat_lt]; simp; omega),
        if_pos (by simp only [UInt8.le_iff_toNat_le]; simp; omega)]
      rfl
    · split
      · refine ⟨_, _, rfl, ?_⟩
        rw [charWidth, if_neg (by rw [UInt8.lt_iff_toNat_lt]; simp; omega),
          if_neg (by simp only [UInt8.le_iff_toNat_le]; simp; omega),
          if_pos (by simp only [UInt8.le_iff_toNat_le]; simp; omega)]
        rfl
      · refine ⟨_, _, rfl, ?_⟩
        rw [charWidth, if_neg (by rw [UInt8.lt_iff_toNat_lt]; simp; omega),
          if_neg (by simp only [UInt8.le_iff_toNat_le]; simp; omega),
          if_neg (by simp only [UInt8.le_iff_toNat_le]; simp; omega),
          if_pos (by simp only [UInt8.le_iff_toNat_le]; simp; omega)]
        rfl

/-! ### What is read is what is written -/

theorem toNat_ofNat {n : Nat} (h : n < 0xD800 ∨ 0xDFFF < n ∧ n < 0x110000) :
    (Char.ofNat n).toNat = n := by
  rw [Char.ofNat, dif_pos h]
  rfl

theorem encodeChar_one (ha : a.toNat < 0x80) :
    String.utf8EncodeChar (Char.ofNat a.toNat) = [a] := by
  have hn : (Char.ofNat a.toNat).val.toNat = a.toNat := toNat_ofNat (by omega)
  unfold String.utf8EncodeChar
  simp only [hn]
  rw [if_pos (by omega), UInt8.ofNat_toNat]

theorem encodeChar_two (ha : 0xC2 ≤ a.toNat ∧ a.toNat ≤ 0xDF) (hb : isContinuation b = true) :
    String.utf8EncodeChar (Char.ofNat (a.toNat % 32 * 64 + payload b)) = [a, b] := by
  rw [isContinuation_iff] at hb
  unfold payload
  have hn : (Char.ofNat (a.toNat % 32 * 64 + b.toNat % 64)).val.toNat =
      a.toNat % 32 * 64 + b.toNat % 64 := toNat_ofNat (by omega)
  unfold String.utf8EncodeChar
  simp only [hn]
  rw [if_neg (by omega), if_pos (by omega)]
  simp only [List.cons.injEq, ← UInt8.toNat_inj, UInt8.toNat_ofNat', and_true]
  omega

theorem encodeChar_three (ha : 0xE0 ≤ a.toNat ∧ a.toNat ≤ 0xEF) (hb : secondOfThree a b = true)
    (hc : isContinuation c = true) :
    String.utf8EncodeChar (Char.ofNat ((a.toNat % 16 * 64 + payload b) * 64 + payload c)) =
      [a, b, c] := by
  rw [secondOfThree_iff] at hb
  rw [isContinuation_iff] at hc
  unfold payload
  have hn : (Char.ofNat ((a.toNat % 16 * 64 + b.toNat % 64) * 64 + c.toNat % 64)).val.toNat =
      (a.toNat % 16 * 64 + b.toNat % 64) * 64 + c.toNat % 64 := toNat_ofNat (by omega)
  unfold String.utf8EncodeChar
  simp only [hn]
  rw [if_neg (by omega), if_neg (by omega), if_pos (by omega)]
  simp only [List.cons.injEq, ← UInt8.toNat_inj, UInt8.toNat_ofNat', and_true]
  omega

theorem encodeChar_four (ha : 0xF0 ≤ a.toNat ∧ a.toNat ≤ 0xF4) (hb : secondOfFour a b = true)
    (hc : isContinuation c = true) (hd : isContinuation d = true) :
    String.utf8EncodeChar
      (Char.ofNat (((a.toNat % 8 * 64 + payload b) * 64 + payload c) * 64 + payload d)) =
      [a, b, c, d] := by
  rw [secondOfFour_iff] at hb
  rw [isContinuation_iff] at hc hd
  unfold payload
  have hn : (Char.ofNat
        (((a.toNat % 8 * 64 + b.toNat % 64) * 64 + c.toNat % 64) * 64 + d.toNat % 64)).val.toNat =
      ((a.toNat % 8 * 64 + b.toNat % 64) * 64 + c.toNat % 64) * 64 + d.toNat % 64 :=
    toNat_ofNat (by omega)
  unfold String.utf8EncodeChar
  simp only [hn]
  rw [if_neg (by omega), if_neg (by omega), if_neg (by omega)]
  simp only [List.cons.injEq, ← UInt8.toNat_inj, UInt8.toNat_ofNat', and_true]
  omega

/-- One character more, of the bytes that were read for it. -/
theorem encode_cons {read : Except Fault (List Char)} {chars : List Char} {ch : Char}
    {taken : Bytes} (h : read.map (ch :: ·) = .ok chars)
    (hread : ∀ {others}, read = .ok others → others.flatMap String.utf8EncodeChar = rest)
    (hch : String.utf8EncodeChar ch = taken) :
    chars.flatMap String.utf8EncodeChar = taken ++ rest := by
  cases read with
  | error fault => cases h
  | ok others =>
    obtain rfl := Except.ok.inj h
    rw [List.flatMap_cons, hch, hread rfl]

/-- A byte string is read as no text but the one it is written as. -/
theorem encode_of_decodeFrom {valid : Nat} {bytes : Bytes} {chars : List Char}
    (h : decodeFrom valid bytes = .ok chars) : chars.flatMap String.utf8EncodeChar = bytes := by
  fun_induction decodeFrom valid bytes generalizing chars with
  | case1 =>
    obtain rfl := Except.ok.inj h
    rfl
  | case2 valid a rest ha ih =>
    exact encode_cons h ih (encodeChar_one (UInt8.lt_iff_toNat_lt.1 ha))
  | case4 valid a _ ha b rest hb ih =>
    exact encode_cons h ih (encodeChar_two (by simpa [UInt8.le_iff_toNat_le] using ha) hb)
  | case8 valid a _ _ ha b hb c rest hc ih =>
    exact encode_cons h ih (encodeChar_three (by simpa [UInt8.le_iff_toNat_le] using ha) hb hc)
  | case14 valid a _ _ _ ha b hb c hc d rest hd ih =>
    exact encode_cons h ih (encodeChar_four (by simpa [UInt8.le_iff_toNat_le] using ha) hb hc hd)
  | _ => cases h

theorem decode_eq_ok_iff {bytes : Bytes} {s : String} : decode bytes = .ok s ↔ encode s = bytes := by
  constructor
  · intro h
    unfold decode at h
    cases hread : decodeFrom 0 bytes with
    | error fault => simp [hread, Except.map] at h
    | ok chars =>
      rw [hread] at h
      obtain rfl := Except.ok.inj h
      rw [encode, String.toList_ofList]
      exact encode_of_decodeFrom hread
  · rintro rfl
    exact decode_encode s

end ClassCatalog.Utf8
