import Mathlib.Algebra.Ring.Nat
import ClassCatalog.Text.ModifiedUtf8
import ClassCatalog.Proofs.Text.Utf8

/-!
# Modified UTF-8 there and back

`decode_encode`: reading the modified form of a string gives the string. Unit by unit this is
`decodeUnits_encodeUnit` for the bytes and `decodeLossy_encodeChar` for the surrogates. Reading takes
a shortcut through plain UTF-8. What it gives there is what reading unit by unit gives, but for the
characters above the basic plane: their four bytes in plain UTF-8 are no sequences of the modified form
(`decode_eq_decodeByUnits_iff`). No modified form of a string has such bytes (`toNat_of_mem_encode`), so
the shortcut does it no harm.
-/

namespace ClassCatalog

namespace Utf16

/-- A unit that is no surrogate is read by itself. -/
theorem decodeLossy_cons {u : UInt16} {rest : List UInt16}
    (hu : u.toNat < 0xD800 ∨ 0xDFFF < u.toNat) :
    decodeLossy (u :: rest) = Char.ofNat u.toNat :: decodeLossy rest := by
  have hhigh : isHigh u = false := by
    simp [isHigh, UInt16.le_iff_toNat_le]
    omega
  have hlow : isLow u = false := by
    simp [isLow, UInt16.le_iff_toNat_le]
    omega
  rw [decodeLossy.eq_def]
  simp [hhigh, hlow]

/-- The units of a character are read as the character. -/
theorem decodeLossy_encodeChar (ch : Char) (rest : List UInt16) :
    decodeLossy (encodeChar ch ++ rest) = ch :: decodeLossy rest := by
  have hbounds := Utf8.toNat_bounds ch
  unfold encodeChar
  split
  next hsmall =>
    have hn : (UInt16.ofNat ch.toNat).toNat = ch.toNat := by
      rw [UInt16.toNat_ofNat', Nat.mod_eq_of_lt hsmall]
    rw [List.singleton_append, decodeLossy_cons (by omega), hn, Char.ofNat_toNat]
  next hlarge =>
    have hn : (UInt16.ofNat (0xD800 + (ch.toNat - 0x10000) / 1024)).toNat =
        0xD800 + (ch.toNat - 0x10000) / 1024 := by
      rw [UInt16.toNat_ofNat', Nat.mod_eq_of_lt (by omega)]
    have hm : (UInt16.ofNat (0xDC00 + (ch.toNat - 0x10000) % 1024)).toNat =
        0xDC00 + (ch.toNat - 0x10000) % 1024 := by
      rw [UInt16.toNat_ofNat', Nat.mod_eq_of_lt (by omega)]
    have hhigh : isHigh (UInt16.ofNat (0xD800 + (ch.toNat - 0x10000) / 1024)) = true := by
      simp [isHigh, UInt16.le_iff_toNat_le]
      omega
    have hlow : isLow (UInt16.ofNat (0xDC00 + (ch.toNat - 0x10000) % 1024)) = true := by
      simp [isLow, UInt16.le_iff_toNat_le]
      omega
    have hpair : ofPair (UInt16.ofNat (0xD800 + (ch.toNat - 0x10000) / 1024))
        (UInt16.ofNat (0xDC00 + (ch.toNat - 0x10000) % 1024)) = ch := by
      rw [ofPair, hn, hm, show 0x10000 + (0xD800 + (ch.toNat - 0x10000) / 1024 - 0xD800) * 1024 +
        (0xDC00 + (ch.toNat - 0x10000) % 1024 - 0xDC00) = ch.toNat by omega, Char.ofNat_toNat]
    rw [List.cons_append, List.singleton_append, decodeLossy.eq_def]
    simp only [hhigh, hlow, hpair, if_true]

theorem decodeLossy_encode (chars : List Char) : decodeLossy (encode chars) = chars := by
  induction chars with
  | nil => rfl
  | cons ch chars ih => rw [encode, List.flatMap_cons, decodeLossy_encodeChar, ← encode, ih]

end Utf16

namespace ModifiedUtf8

variable {a b c : UInt8} {rest : Bytes}

/-! ### Lead bytes -/

theorem lead_one_iff : a &&& 0x80 = 0 ↔ a.toNat < 0x80 := by
  have h : ∀ n < 256, UInt8.ofNat n &&& 0x80 = 0 ↔ n < 0x80 := by decide +kernel
  simpa using h a.toNat a.toNat_lt

theorem lead_two_iff : a &&& 0xE0 = 0xC0 ↔ 0xC0 ≤ a.toNat ∧ a.toNat < 0xE0 := by
  have h : ∀ n < 256, UInt8.ofNat n &&& 0xE0 = 0xC0 ↔ 0xC0 ≤ n ∧ n < 0xE0 := by decide +kernel
  simpa using h a.toNat a.toNat_lt

theorem lead_three_iff : a &&& 0xF0 = 0xE0 ↔ 0xE0 ≤ a.toNat ∧ a.toNat < 0xF0 := by
  have h : ∀ n < 256, UInt8.ofNat n &&& 0xF0 = 0xE0 ↔ 0xE0 ≤ n ∧ n < 0xF0 := by decide +kernel
  simpa using h a.toNat a.toNat_lt

theorem toNat_low6 (b : UInt8) : (low6 b).toNat = b.toNat % 64 := by
  rw [low6, UInt8.toNat_toUInt16, UInt8.toNat_and]
  exact Nat.and_two_pow_sub_one_eq_mod _ 6

theorem toNat_low5 (a : UInt8) : (a &&& 0x1F).toNat = a.toNat % 32 := by
  rw [UInt8.toNat_and]
  exact Nat.and_two_pow_sub_one_eq_mod _ 5

theorem toNat_low4 (a : UInt8) : (a &&& 0x0F).toNat = a.toNat % 16 := by
  rw [UInt8.toNat_and]
  exact Nat.and_two_pow_sub_one_eq_mod _ 4

/-- Bits put together without overlap add up. -/
theorem toNat_shiftLeft_or {x y : UInt16} {k : Nat} (hk : k < 16) (hx : x.toNat * 2 ^ k < 2 ^ 16)
    (hy : y.toNat < 2 ^ k) : (x <<< UInt16.ofNat k ||| y).toNat = x.toNat * 2 ^ k + y.toNat := by
  have hshift : (x <<< UInt16.ofNat k).toNat = x.toNat <<< k := by
    rw [UInt16.toNat_shiftLeft, UInt16.toNat_ofNat', Nat.mod_eq_of_lt (by omega : k < 2 ^ 16),
      Nat.mod_eq_of_lt hk, Nat.shiftLeft_eq, Nat.mod_eq_of_lt hx]
  rw [UInt16.toNat_or, hshift, ← Nat.shiftLeft_add_eq_or_of_lt hy, Nat.shiftLeft_eq]

/-! ### Sequences of each width -/

theorem decodeUnits_one (ha : a.toNat < 0x80) :
    decodeUnits (a :: rest) = UInt16.ofNat a.toNat :: decodeUnits rest := by
  have hunit : a.toUInt16 = UInt16.ofNat a.toNat := by simp
  rw [decodeUnits.eq_def]
  simp only [if_pos (lead_one_iff.2 ha), hunit]

theorem decodeUnits_two (ha : 0xC0 ≤ a.toNat ∧ a.toNat < 0xE0) :
    decodeUnits (a :: b :: rest) =
      UInt16.ofNat (a.toNat % 32 * 64 + b.toNat % 64) :: decodeUnits rest := by
  have h1 : ¬ a &&& 0x80 = 0 := by rw [lead_one_iff]; omega
  have hunit : ((a &&& 0x1F).toUInt16 <<< 6) ||| low6 b =
      UInt16.ofNat (a.toNat % 32 * 64 + b.toNat % 64) := by
    have hhigh : (a &&& 0x1F).toUInt16.toNat = a.toNat % 32 := by
      rw [UInt8.toNat_toUInt16, toNat_low5]
    have hlow := toNat_low6 b
    rw [← UInt16.toNat_inj, UInt16.toNat_ofNat']
    refine (toNat_shiftLeft_or (k := 6) (by omega) (by omega) (by omega)).trans ?_
    omega
  rw [decodeUnits.eq_def]
  simp only [if_neg h1, if_pos (lead_two_iff.2 ha), hunit]

theorem decodeUnits_three (ha : 0xE0 ≤ a.toNat ∧ a.toNat < 0xF0) :
    decodeUnits (a :: b :: c :: rest) =
      UInt16.ofNat ((a.toNat % 16 * 64 + b.toNat % 64) * 64 + c.toNat % 64) :: decodeUnits rest := by
  have h1 : ¬ a &&& 0x80 = 0 := by rw [lead_one_iff]; omega
  have h2 : ¬ a &&& 0xE0 = 0xC0 := by rw [lead_two_iff]; omega
  have hunit : ((a &&& 0x0F).toUInt16 <<< 12) ||| (low6 b <<< 6) ||| low6 c =
      UInt16.ofNat ((a.toNat % 16 * 64 + b.toNat % 64) * 64 + c.toNat % 64) := by
    have hhigh : (a &&& 0x0F).toUInt16.toNat = a.toNat % 16 := by
      rw [UInt8.toNat_toUInt16, toNat_low4]
    have hmiddle := toNat_low6 b
    have hlow := toNat_low6 c
    have hpair : (low6 b <<< 6 ||| low6 c).toNat = b.toNat % 64 * 64 + c.toNat % 64 := by
      rw [← hmiddle, ← hlow]
      exact toNat_shiftLeft_or (k := 6) (by omega) (by omega) (by omega)
    rw [← UInt16.toNat_inj, UInt16.toNat_ofNat', UInt16.or_assoc]
    refine (toNat_shiftLeft_or (k := 12) (by omega) (by omega) (by omega)).trans ?_
    omega
  rw [decodeUnits.eq_def]
  simp only [if_neg h1, if_neg h2, if_pos (lead_three_iff.2 ha), hunit]

/-- A byte that begins no sequence is replaced by itself. -/
theorem decodeUnits_other (ha : 0x80 ≤ a.toNat ∧ a.toNat < 0xC0 ∨ 0xF0 ≤ a.toNat) :
    decodeUnits (a :: rest) = 0xFFFD :: decodeUnits rest := by
  have h1 : ¬ a &&& 0x80 = 0 := by rw [lead_one_iff]; omega
  have h2 : ¬ a &&& 0xE0 = 0xC0 := by rw [lead_two_iff]; omega
  have h3 : ¬ a &&& 0xF0 = 0xE0 := by rw [lead_three_iff]; omega
  rw [decodeUnits.eq_def]
  simp only [if_neg h1, if_neg h2, if_neg h3]

/-! ### Units -/

/-- Marks put on the front of a byte add up with what is behind them. -/
theorem toNat_or_mark {x : UInt8} :
    (x.toNat < 0x40 → (x ||| 0x80).toNat = x.toNat + 0x80) ∧
    (x.toNat < 0x20 → (x ||| 0xC0).toNat = x.toNat + 0xC0) ∧
    (x.toNat < 0x10 → (x ||| 0xE0).toNat = x.toNat + 0xE0) := by
  have h : ∀ n < 0x40, (n ||| 0x80 = n + 0x80) ∧ (n < 0x20 → n ||| 0xC0 = n + 0xC0) ∧
      (n < 0x10 → n ||| 0xE0 = n + 0xE0) := by decide +kernel
  refine ⟨fun hx => ?_, fun hx => ?_, fun hx => ?_⟩
  · exact (h x.toNat hx).1
  · exact (h x.toNat (by omega)).2.1 hx
  · exact (h x.toNat (by omega)).2.2 hx

theorem toNat_shiftRight (u : UInt16) {k : Nat} (hk : k < 16) :
    (u >>> UInt16.ofNat k).toNat = u.toNat / 2 ^ k := by
  rw [UInt16.toNat_shiftRight, UInt16.toNat_ofNat', Nat.mod_eq_of_lt (by omega : k < 2 ^ 16),
    Nat.mod_eq_of_lt hk, Nat.shiftRight_eq_div_pow]

theorem toNat_low6_toUInt8 (u : UInt16) : (u &&& 0x3F).toUInt8.toNat = u.toNat % 64 := by
  have hand : (u &&& 0x3F).toNat = u.toNat % 64 := by
    rw [UInt16.toNat_and]
    exact Nat.and_two_pow_sub_one_eq_mod _ 6
  rw [UInt16.toNat_toUInt8, hand]
  omega

theorem encodeUnit_eq (u : UInt16) :
    encodeUnit u =
      if 1 ≤ u.toNat ∧ u.toNat ≤ 0x7F then [UInt8.ofNat u.toNat]
      else if u.toNat ≤ 0x7FF then [UInt8.ofNat (u.toNat / 64 + 0xC0), UInt8.ofNat (u.toNat % 64 + 0x80)]
      else [UInt8.ofNat (u.toNat / 4096 + 0xE0), UInt8.ofNat (u.toNat / 64 % 64 + 0x80),
        UInt8.ofNat (u.toNat % 64 + 0x80)] := by
  have hu := u.toNat_lt
  have hlow : (u &&& 0x3F).toUInt8 ||| 0x80 = UInt8.ofNat (u.toNat % 64 + 0x80) := by
    have hx := toNat_low6_toUInt8 u
    rw [← UInt8.toNat_inj, toNat_or_mark.1 (by omega), hx, UInt8.toNat_ofNat']
    omega
  have hone : (1 ≤ u ∧ u ≤ 0x7F) ↔ 1 ≤ u.toNat ∧ u.toNat ≤ 0x7F := by
    simp [UInt16.le_iff_toNat_le]
  have htwo : u ≤ 0x7FF ↔ u.toNat ≤ 0x7FF := by simp [UInt16.le_iff_toNat_le]
  unfold encodeUnit
  simp only [hone, htwo, hlow]
  split
  · simp
  · split
    next hsmall =>
      have hx : (u >>> 6).toUInt8.toNat = u.toNat / 64 % 256 := by
        rw [UInt16.toNat_toUInt8]
        exact congrArg (· % 256) (toNat_shiftRight u (k := 6) (by decide))
      have hhigh : (u >>> 6).toUInt8 ||| 0xC0 = UInt8.ofNat (u.toNat / 64 + 0xC0) := by
        rw [← UInt8.toNat_inj, toNat_or_mark.2.1 (by omega), hx, UInt8.toNat_ofNat']
        omega
      rw [hhigh]
    next =>
      have hx : (u >>> 12).toUInt8.toNat = u.toNat / 4096 % 256 := by
        rw [UInt16.toNat_toUInt8]
        exact congrArg (· % 256) (toNat_shiftRight u (k := 12) (by decide))
      have hhigh : (u >>> 12).toUInt8 ||| 0xE0 = UInt8.ofNat (u.toNat / 4096 + 0xE0) := by
        rw [← UInt8.toNat_inj, toNat_or_mark.2.2 (by omega), hx, UInt8.toNat_ofNat']
        omega
      have hmiddle : ((u >>> 6) &&& 0x3F).toUInt8 ||| 0x80 = UInt8.ofNat (u.toNat / 64 % 64 + 0x80) := by
        have hshift : (u >>> 6).toNat = u.toNat / 64 := toNat_shiftRight u (k := 6) (by decide)
        have hy := toNat_low6_toUInt8 (u >>> 6)
        rw [← UInt8.toNat_inj, toNat_or_mark.1 (by omega), hy, hshift, UInt8.toNat_ofNat']
        omega
      rw [hhigh, hmiddle]

/-- The bytes of a unit are read as the unit. -/
theorem decodeUnits_encodeUnit (u : UInt16) (rest : Bytes) :
    decodeUnits (encodeUnit u ++ rest) = u :: decodeUnits rest := by
  have hu := u.toNat_lt
  rw [encodeUnit_eq]
  split
  · rw [List.singleton_append, decodeUnits_one (by simp; omega)]
    simp only [UInt8.toNat_ofNat']
    rw [Nat.mod_eq_of_lt (by omega), UInt16.ofNat_toNat]
  · split
    · rw [List.cons_append, List.singleton_append, decodeUnits_two (by simp; omega)]
      simp only [UInt8.toNat_ofNat']
      rw [show (u.toNat / 64 + 0xC0) % 2 ^ 8 % 32 * 64 + (u.toNat % 64 + 0x80) % 2 ^ 8 % 64 = u.toNat by
        omega, UInt16.ofNat_toNat]
    · rw [List.cons_append, List.cons_append, List.singleton_append, decodeUnits_three (by simp; omega)]
      simp only [UInt8.toNat_ofNat']
      rw [show ((u.toNat / 4096 + 0xE0) % 2 ^ 8 % 16 * 64 + (u.toNat / 64 % 64 + 0x80) % 2 ^ 8 % 64) * 64 +
        (u.toNat % 64 + 0x80) % 2 ^ 8 % 64 = u.toNat by omega, UInt16.ofNat_toNat]

theorem decodeUnits_encodeUnits (us : List UInt16) : decodeUnits (us.flatMap encodeUnit) = us := by
  induction us with
  | nil => rfl
  | cons u us ih => rw [List.flatMap_cons, decodeUnits_encodeUnit, ih]

theorem decodeByUnits_encode (s : String) : decodeByUnits (encode s) = s := by
  rw [decodeByUnits, encode, decodeUnits_encodeUnits, Utf16.decodeLossy_encode, String.ofList_toList]

theorem toNat_of_mem_encodeUnit {u : UInt16} (hb : b ∈ encodeUnit u) :
    1 ≤ b.toNat ∧ b.toNat ≤ 0xEF := by
  have hu := u.toNat_lt
  rw [encodeUnit_eq] at hb
  split at hb
  · obtain rfl := List.mem_singleton.1 hb
    rw [UInt8.toNat_ofNat']
    omega
  · split at hb
    · simp only [List.mem_cons, List.not_mem_nil, or_false] at hb
      rcases hb with rfl | rfl <;> rw [UInt8.toNat_ofNat'] <;> omega
    · simp only [List.mem_cons, List.not_mem_nil, or_false] at hb
      rcases hb with rfl | rfl | rfl <;> rw [UInt8.toNat_ofNat'] <;> omega

theorem toNat_of_mem_encode {s : String} (hb : b ∈ encode s) : 1 ≤ b.toNat ∧ b.toNat ≤ 0xEF := by
  obtain ⟨u, -, hb⟩ := List.mem_flatMap.1 hb
  exact toNat_of_mem_encodeUnit hb

/-! ### The shortcut -/

/-- What is read, unit by unit, from the plain form of a character: a character above the basic plane
has four bytes there, and none of them begins a sequence. -/
def byUnits (ch : Char) : List Char :=
  if ch.toNat < 0x10000 then [ch] else List.replicate 4 Utf16.replacement

theorem decodeLossy_plainChar {ch : Char} (hlead : 0xED ∉ String.utf8EncodeChar ch) :
    Utf16.decodeLossy (decodeUnits (String.utf8EncodeChar ch ++ rest)) =
      byUnits ch ++ Utf16.decodeLossy (decodeUnits rest) := by
  have hval : ch.val.toNat = ch.toNat := rfl
  have hbounds := Utf8.toNat_bounds ch
  have hunit {n : Nat} (hn : n = ch.toNat) (hsmall : n < 0x10000) (hplain : n < 0xD800 ∨ 0xDFFF < n) :
      Utf16.decodeLossy (UInt16.ofNat n :: decodeUnits rest) =
        byUnits ch ++ Utf16.decodeLossy (decodeUnits rest) := by
    have hu : (UInt16.ofNat n).toNat = n := by rw [UInt16.toNat_ofNat', Nat.mod_eq_of_lt hsmall]
    rw [Utf16.decodeLossy_cons (by omega), hu, hn, Char.ofNat_toNat, byUnits, if_pos (by omega)]
    rfl
  unfold String.utf8EncodeChar at hlead ⊢
  simp only [hval] at hlead ⊢
  split
  · rw [List.singleton_append, decodeUnits_one (by simp; omega)]
    exact hunit (by simp; omega) (by simp; omega) (by simp; omega)
  · split
    · rw [List.cons_append, List.singleton_append, decodeUnits_two (by simp; omega)]
      exact hunit (by simp; omega) (by simp; omega) (by simp; omega)
    · split
      next h1 h2 h3 =>
        have hne : ch.toNat / 4096 % 16 + 224 ≠ 0xED := by
          intro heq
          rw [if_neg h1, if_neg h2, if_pos h3, heq] at hlead
          exact hlead List.mem_cons_self
        rw [List.cons_append, List.cons_append, List.singleton_append,
          decodeUnits_three (by simp; omega)]
        exact hunit (by simp; omega) (by simp; omega) (by simp; omega)
      next =>
        simp only [List.cons_append, List.nil_append]
        rw [decodeUnits_other (.inr (by simp; omega)), decodeUnits_other (.inl (by simp; omega)),
          decodeUnits_other (.inl (by simp; omega)), decodeUnits_other (.inl (by simp; omega)),
          byUnits, if_neg (by omega)]
        simp [Utf16.decodeLossy_cons, Utf16.replacement, List.replicate]

theorem decodeLossy_plainChars {chars : List Char}
    (hlead : 0xED ∉ chars.flatMap String.utf8EncodeChar) :
    Utf16.decodeLossy (decodeUnits (chars.flatMap String.utf8EncodeChar)) = chars.flatMap byUnits := by
  induction chars with
  | nil => rfl
  | cons ch chars ih =>
    rw [List.flatMap_cons, List.mem_append, not_or] at hlead
    rw [List.flatMap_cons, List.flatMap_cons, decodeLossy_plainChar hlead.1, ih hlead.2]

theorem decodeByUnits_of_plain {bytes : Bytes} {s : String} (h : Utf8.decode bytes = .ok s)
    (hlead : 0xED ∉ bytes) : decodeByUnits bytes = String.ofList (s.toList.flatMap byUnits) := by
  obtain rfl := Utf8.decode_eq_ok_iff.1 h
  rw [decodeByUnits, Utf8.encode, decodeLossy_plainChars hlead]

theorem decode_of_plain {bytes : Bytes} {s : String} (h : Utf8.decode bytes = .ok s)
    (hlead : 0xED ∉ bytes) : decode bytes = s := by
  have hcontains : bytes.contains 0xED = false := by simpa using hlead
  simp only [decode, h, hcontains, Bool.false_eq_true, if_false]

theorem decode_of_not_plain {bytes : Bytes}
    (h : 0xED ∈ bytes ∨ ∀ s, Utf8.decode bytes ≠ .ok s) : decode bytes = decodeByUnits bytes := by
  unfold decode
  split
  next s hs =>
    rcases h with hlead | hnone
    · exact if_pos (List.contains_iff_mem.2 hlead)
    · exact absurd hs (hnone s)
  next => rfl

/-- Only characters above the basic plane have a byte of four-byte sequences. -/
theorem forall_mem_plainChar_iff {ch : Char} :
    (∀ b ∈ String.utf8EncodeChar ch, b.toNat < 0xF0) ↔ ch.toNat < 0x10000 := by
  have hval : ch.val.toNat = ch.toNat := rfl
  unfold String.utf8EncodeChar
  simp only [hval]
  split
  · simp; omega
  · split
    · simp; omega
    · split
      · simp; omega
      · simp; omega

theorem flatMap_byUnits_eq_self_iff {chars : List Char} :
    chars.flatMap byUnits = chars ↔ ∀ ch ∈ chars, ch.toNat < 0x10000 := by
  constructor
  · intro h ch hch
    rw [← h] at hch
    obtain ⟨d, -, hd⟩ := List.mem_flatMap.1 hch
    unfold byUnits at hd
    split at hd
    · obtain rfl := List.mem_singleton.1 hd
      assumption
    · obtain rfl := List.eq_of_mem_replicate hd
      decide
  · intro h
    induction chars with
    | nil => rfl
    | cons ch chars ih =>
      obtain ⟨hch, hchars⟩ := List.forall_mem_cons.1 h
      rw [List.flatMap_cons, ih hchars, byUnits, if_pos hch]
      rfl

/-- The shortcut does no harm but to four-byte sequences, which are no modified form. -/
theorem decode_eq_decodeByUnits_iff {bytes : Bytes} :
    decode bytes = decodeByUnits bytes ↔
      0xED ∈ bytes ∨ (∀ s, Utf8.decode bytes ≠ .ok s) ∨ ∀ b ∈ bytes, b.toNat < 0xF0 := by
  by_cases hlead : 0xED ∈ bytes
  · exact iff_of_true (decode_of_not_plain (.inl hlead)) (.inl hlead)
  by_cases hplain : ∃ s, Utf8.decode bytes = .ok s
  · obtain ⟨s, hs⟩ := hplain
    have hnot : ¬ ∀ s, Utf8.decode bytes ≠ .ok s := fun h => h s hs
    have hbytes : (∀ b ∈ bytes, b.toNat < 0xF0) ↔ ∀ ch ∈ s.toList, ch.toNat < 0x10000 := by
      rw [← Utf8.decode_eq_ok_iff.1 hs, Utf8.encode, List.forall_mem_flatMap]
      simp only [forall_mem_plainChar_iff]
    rw [decode_of_plain hs hlead, decodeByUnits_of_plain hs hlead, hbytes,
      ← flatMap_byUnits_eq_self_iff, ← String.toList_inj, String.toList_ofList]
    simp only [hlead, hnot, false_or]
    exact eq_comm
  · have hnone : ∀ s, Utf8.decode bytes ≠ .ok s := fun s hs => hplain ⟨s, hs⟩
    exact iff_of_true (decode_of_not_plain (.inr hnone)) (.inr (.inl hnone))

/-- The modified form of a string is read as the string. -/
theorem decode_encode (s : String) : decode (encode s) = s := by
  have hbytes : ∀ b ∈ encode s, b.toNat < 0xF0 := by
    intro b hb
    have hle := (toNat_of_mem_encode hb).2
    omega
  rw [decode_eq_decodeByUnits_iff.2 (.inr (.inr hbytes)), decodeByUnits_encode]

/-- No two strings have one modified form, and no byte of it is zero or above those that lead three. -/
theorem modified_form_is_faithful :
    (∀ s, decode (encode s) = s) ∧ (∀ s, ∀ b ∈ encode s, b ≠ 0 ∧ b ≤ 0xEF) ∧
      ∀ s t, encode s = encode t → s = t := by
  refine ⟨decode_encode, fun s b hb => ?_, fun s t heq => ?_⟩
  · have hbounds := toNat_of_mem_encode hb
    constructor
    · rintro rfl
      exact absurd hbounds.1 (by decide)
    · exact UInt8.le_iff_toNat_le.2 hbounds.2
  · rw [← decode_encode s, heq, decode_encode]

/-- Where the shortcut is taken the plain text is the result, and reading unit by unit would replace
just its characters above the basic plane. -/
theorem shortcut_matters_above_basic_plane (bytes : Bytes) :
    (decode bytes = decodeByUnits bytes ↔
      0xED ∈ bytes ∨ (∀ s, Utf8.decode bytes ≠ .ok s) ∨ ∀ b ∈ bytes, b.toNat < 0xF0) ∧
    ∀ s, Utf8.decode bytes = .ok s → 0xED ∉ bytes →
      decode bytes = s ∧ decodeByUnits bytes = String.ofList (s.toList.flatMap byUnits) := by
  refine ⟨decode_eq_decodeByUnits_iff, fun s hs hlead => ?_⟩
  exact ⟨decode_of_plain hs hlead, decodeByUnits_of_plain hs hlead⟩

theorem shortcut_changes_four_byte_sequence :
    decode [0xF0, 0x9F, 0x98, 0x80] = String.ofList [Char.ofNat 0x1F600] ∧
      decodeByUnits [0xF0, 0x9F, 0x98, 0x80] = "\uFFFD\uFFFD\uFFFD\uFFFD" ∧
      decode [0xF0, 0x9F, 0x98, 0x80] ≠ decodeByUnits [0xF0, 0x9F, 0x98, 0x80] := by
  decide +kernel

end ModifiedUtf8

end ClassCatalog
