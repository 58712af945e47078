import Mathlib.Data.List.Basic
import ClassCatalog.Proofs.Text.ModifiedUtf8

/-!
# What shows of broken modified UTF-8

`WellFormed`: a byte string is a row of sequences, each a byte below 0x80 or a lead byte and as many
continuation bytes as it asks for. What is written always is (`wellFormed_encode`). Reading unit by unit
takes a lead byte and the bytes behind it together (`Taken`) and asks only that there are enough of
them, not that they are continuation bytes. Thus of a broken byte string either a replacement shows,
namely for a byte that begins no sequence or whose sequence is cut off by the end
(`taken_or_replaced`); or everything was taken, some of it amiss; or the shortcut has let four-byte
sequences pass. A byte below 0x80 is lost only if it is taken amiss (`asciiChars_decodeByUnits`).
-/

namespace ClassCatalog.ModifiedUtf8

/-- A byte below 0x80, or a lead byte and as many bytes as it asks for. -/
inductive Taken : Bytes → Prop
  | one {a : UInt8} (ha : a.toNat < 0x80) : Taken [a]
  | two {a b : UInt8} (ha : 0xC0 ≤ a.toNat ∧ a.toNat < 0xE0) : Taken [a, b]
  | three {a b c : UInt8} (ha : 0xE0 ≤ a.toNat ∧ a.toNat < 0xF0) : Taken [a, b, c]

/-- What may be taken and has only continuation bytes behind the first byte. -/
def IsSequence (p : Bytes) : Prop := Taken p ∧ ∀ b ∈ p.tail, Utf8.isContinuation b = true

/-- A byte that begins no sequence. -/
def IsStray (p : Bytes) : Prop := ∃ a, p = [a] ∧ (0x80 ≤ a.toNat ∧ a.toNat < 0xC0 ∨ 0xF0 ≤ a.toNat)

inductive Row (P : Bytes → Prop) : Bytes → Prop
  | nil : Row P []
  | cons {p rest : Bytes} (hp : P p) (hrest : Row P rest) : Row P (p ++ rest)

/-- Modified UTF-8 in its byte structure. -/
def WellFormed (bytes : Bytes) : Prop := Row IsSequence bytes

/-- Where reading comes to, there are bytes to be taken, but they are no sequence. -/
def TakesAmiss (bytes : Bytes) : Prop :=
  ∃ front p rest, bytes = front ++ (p ++ rest) ∧ Row (fun q => Taken q ∨ IsStray q) front ∧
    Taken p ∧ ¬ IsSequence p

def asciiBytes (bytes : Bytes) : Bytes := bytes.filter fun b => b.toNat < 0x80

/-- The characters of the bytes below 0x80. -/
def asciiChars (bytes : Bytes) : List Char := (asciiBytes bytes).map fun b => Char.ofNat b.toNat

variable {a b : UInt8} {bytes p rest : Bytes} {P : Bytes → Prop}

theorem Row.flatMap {α : Type} {f : α → Bytes} {xs : List α} (h : ∀ x ∈ xs, P (f x)) :
    Row P (xs.flatMap f) := by
  induction xs with
  | nil => exact .nil
  | cons x xs ih =>
    obtain ⟨hx, hxs⟩ := List.forall_mem_cons.1 h
    exact .cons hx (ih hxs)

/-! ### Well-formed byte strings -/

theorem WellFormed.cases_cons (h : WellFormed (a :: rest)) :
    (a.toNat < 0x80 ∧ WellFormed rest) ∨
      (0xC0 ≤ a.toNat ∧ a.toNat < 0xF0 ∧ ∃ b others, rest = b :: others ∧ Utf8.isContinuation b = true) := by
  unfold WellFormed at h
  generalize hbytes : a :: rest = bytes at h
  cases h with
  | nil => cases hbytes
  | cons hp hrest =>
    obtain ⟨htaken, htail⟩ := hp
    cases htaken with
    | one ha =>
      obtain ⟨rfl, rfl⟩ := List.cons.inj hbytes
      exact .inl ⟨ha, hrest⟩
    | two ha =>
      obtain ⟨rfl, rfl⟩ := List.cons.inj hbytes
      exact .inr ⟨ha.1, by omega, _, _, rfl, htail _ List.mem_cons_self⟩
    | three ha =>
      obtain ⟨rfl, rfl⟩ := List.cons.inj hbytes
      exact .inr ⟨by omega, ha.2, _, _, rfl, htail _ List.mem_cons_self⟩

theorem isSequence_encodeUnit (u : UInt16) : IsSequence (encodeUnit u) := by
  have hu := u.toNat_lt
  rw [encodeUnit_eq]
  split
  · exact ⟨.one (by simp; omega), by simp⟩
  · split
    · exact ⟨.two (by simp; omega), by simp [Utf8.isContinuation_iff]; omega⟩
    · exact ⟨.three (by simp; omega), by simp [Utf8.isContinuation_iff]; omega⟩

theorem wellFormed_encode (s : String) : WellFormed (encode s) :=
  Row.flatMap fun u _ => isSequence_encodeUnit u

theorem isSequence_plainChar {ch : Char} (h : ch.toNat < 0x10000) :
    IsSequence (String.utf8EncodeChar ch) := by
  have hval : ch.val.toNat = ch.toNat := rfl
  unfold String.utf8EncodeChar
  simp only [hval]
  split
  · exact ⟨.one (by simp; omega), by simp⟩
  · split
    · exact ⟨.two (by simp; omega), by simp [Utf8.isContinuation_iff]; omega⟩
    · rw [if_pos (by omega)]
      exact ⟨.three (by simp; omega), by simp [Utf8.isContinuation_iff]; omega⟩

/-- Plain UTF-8 without four-byte sequences has the structure of the modified form. -/
theorem wellFormed_of_plain {s : String} (h : Utf8.decode bytes = .ok s)
    (hsmall : ∀ b ∈ bytes, b.toNat < 0xF0) : WellFormed bytes := by
  obtain rfl := Utf8.decode_eq_ok_iff.1 h
  rw [Utf8.encode, List.forall_mem_flatMap] at hsmall
  exact Row.flatMap fun ch hch => isSequence_plainChar (forall_mem_plainChar_iff.1 (hsmall ch hch))

/-! ### Replacements -/

theorem taken_or_replaced (bytes : Bytes) : Row Taken bytes ∨ 0xFFFD ∈ decodeUnits bytes := by
  fun_induction decodeUnits bytes with
  | case1 => exact .inl .nil
  | case2 a rest ha ih =>
    exact ih.imp (Row.cons (Taken.one (lead_one_iff.1 ha))) (List.mem_cons_of_mem _)
  | case3 a _ _ => exact .inr List.mem_cons_self
  | case4 a _ ha b rest ih =>
    exact ih.imp (Row.cons (Taken.two (lead_two_iff.1 ha))) (List.mem_cons_of_mem _)
  | case5 a _ _ _ => exact .inr List.mem_cons_self
  | case6 a _ _ _ b ih => exact .inr List.mem_cons_self
  | case7 a _ _ ha b c rest ih =>
    exact ih.imp (Row.cons (Taken.three (lead_three_iff.1 ha))) (List.mem_cons_of_mem _)
  | case8 a rest _ _ _ ih => exact .inr List.mem_cons_self

theorem replacement_mem {us : List UInt16} (h : 0xFFFD ∈ us) :
    Utf16.replacement ∈ Utf16.decodeLossy us := by
  fun_induction Utf16.decodeLossy us with
  | case1 => cases h
  | case2 u hhigh => exact List.mem_cons_self
  | case3 u hhigh v rest hlow ih =>
    rcases List.mem_cons.1 h with rfl | h
    · exact absurd hhigh (by decide)
    rcases List.mem_cons.1 h with rfl | h
    · exact absurd hlow (by decide)
    exact List.mem_cons_of_mem _ (ih h)
  | case4 u hhigh v rest hlow ih => exact List.mem_cons_self
  | case5 u rest hhigh hlow ih => exact List.mem_cons_self
  | case6 u rest hhigh hlow ih =>
    rcases List.mem_cons.1 h with rfl | h
    · exact List.mem_cons_self
    · exact List.mem_cons_of_mem _ (ih h)

/-! ### Bytes below 0x80 -/

theorem TakesAmiss.here (hp : Taken p) (hnot : ¬ IsSequence p) : TakesAmiss (p ++ rest) :=
  ⟨[], p, rest, rfl, .nil, hp, hnot⟩

theorem TakesAmiss.behind (hp : Taken p ∨ IsStray p) (h : TakesAmiss rest) : TakesAmiss (p ++ rest) := by
  obtain ⟨front, q, others, rfl, hfront, hq, hnot⟩ := h
  exact ⟨p ++ front, q, others, by rw [List.append_assoc], .cons hp hfront, hq, hnot⟩

theorem not_takesAmiss_single : ¬ TakesAmiss [b] := by
  rintro ⟨front, q, others, hbytes, -, hq, hnot⟩
  have hlength := congrArg List.length hbytes
  cases hq with
  | one ha => exact hnot ⟨.one ha, nofun⟩
  | two ha => simp at hlength; omega
  | three ha => simp at hlength; omega

/-- If everything is taken and nothing amiss, all of it is sequences. -/
theorem takesAmiss_of_taken (htaken : Row Taken bytes) (hbroken : ¬ WellFormed bytes) :
    TakesAmiss bytes := by
  induction htaken with
  | nil => exact absurd .nil hbroken
  | @cons p rest hp hrest ih =>
    by_cases hseq : IsSequence p
    · exact .behind (.inl hp) (ih fun hrest => hbroken (.cons hseq hrest))
    · exact .here hp hseq

/-- Where nothing is taken amiss, what is taken goes through as a sequence. -/
theorem isSequence_of_not_takesAmiss (hp : Taken p) (h : ¬ TakesAmiss (p ++ rest)) : IsSequence p := by
  by_contra hnot
  exact h (.here hp hnot)

theorem asciiBytes_cons_of_lt (hb : b.toNat < 0x80) : asciiBytes (b :: bytes) = b :: asciiBytes bytes :=
  List.filter_cons_of_pos (by simpa using hb)

theorem asciiBytes_cons_of_le (hb : 0x80 ≤ b.toNat) : asciiBytes (b :: bytes) = asciiBytes bytes :=
  List.filter_cons_of_neg (by simpa using hb)

theorem asciiBytes_append (front rest : Bytes) :
    asciiBytes (front ++ rest) = asciiBytes front ++ asciiBytes rest :=
  List.filter_append ..

theorem asciiBytes_eq_nil (h : ∀ b ∈ bytes, 0x80 ≤ b.toNat) : asciiBytes bytes = [] :=
  List.filter_eq_nil_iff.2 fun b hb => by simpa using h b hb

theorem asciiBytes_sublist (h : ¬ TakesAmiss bytes) :
    ((asciiBytes bytes).map UInt8.toUInt16).Sublist (decodeUnits bytes) := by
  fun_induction decodeUnits bytes with
  | case1 => exact .slnil
  | case2 a rest ha ih =>
    rw [lead_one_iff] at ha
    have hrest := ih fun hrest => h (.behind (.inl (.one ha)) hrest)
    rw [asciiBytes_cons_of_lt ha]
    exact hrest.cons_cons _
  | case3 a _ ha =>
    rw [lead_two_iff] at ha
    rw [asciiBytes_cons_of_le (by omega)]
    exact List.nil_sublist _
  | case4 a _ ha b rest ih =>
    rw [lead_two_iff] at ha
    have hp : Taken [a, b] := .two ha
    have hseq : IsSequence [a, b] :=
      isSequence_of_not_takesAmiss hp (show ¬ TakesAmiss ([a, b] ++ rest) from h)
    have hb := Utf8.isContinuation_iff.1 (hseq.2 b List.mem_cons_self)
    have hrest := ih fun hrest => h (.behind (.inl hp) hrest)
    rw [asciiBytes_cons_of_le (by omega), asciiBytes_cons_of_le hb.1]
    exact hrest.cons _
  | case5 a _ _ ha =>
    rw [lead_three_iff] at ha
    rw [asciiBytes_cons_of_le (by omega)]
    exact List.nil_sublist _
  | case6 a _ _ ha b ih =>
    rw [lead_three_iff] at ha
    rw [asciiBytes_cons_of_le (by omega)]
    exact (ih not_takesAmiss_single).cons _
  | case7 a _ _ ha b c rest ih =>
    rw [lead_three_iff] at ha
    have hp : Taken [a, b, c] := .three ha
    have hseq : IsSequence [a, b, c] :=
      isSequence_of_not_takesAmiss hp (show ¬ TakesAmiss ([a, b, c] ++ rest) from h)
    have hb := Utf8.isContinuation_iff.1 (hseq.2 b List.mem_cons_self)
    have hc := Utf8.isContinuation_iff.1 (hseq.2 c (List.mem_cons_of_mem _ List.mem_cons_self))
    have hrest := ih fun hrest => h (.behind (.inl hp) hrest)
    rw [asciiBytes_cons_of_le (by omega), asciiBytes_cons_of_le hb.1, asciiBytes_cons_of_le hc.1]
    exact hrest.cons _
  | case8 a rest h1 h2 h3 ih =>
    rw [lead_one_iff] at h1
    rw [lead_two_iff] at h2
    rw [lead_three_iff] at h3
    have hstray : IsStray [a] := ⟨a, rfl, by omega⟩
    have hrest := ih fun hrest => h (.behind (.inr hstray) hrest)
    rw [asciiBytes_cons_of_le (by omega)]
    exact hrest.cons _

/-- Units below 0x80 are read by themselves, also between surrogates without their partners. -/
theorem asciiUnits_sublist (us : List UInt16) :
    ((us.filter fun u => u.toNat < 0x80).map fun u => Char.ofNat u.toNat).Sublist
      (Utf16.decodeLossy us) := by
  have hsurrogate {u : UInt16} (hu : Utf16.isHigh u = true ∨ Utf16.isLow u = true) : ¬ u.toNat < 0x80 := by
    simp only [Utf16.isHigh, Utf16.isLow, Bool.and_eq_true, decide_eq_true_eq, UInt16.le_iff_toNat_le,
      UInt16.reduceToNat] at hu
    omega
  fun_induction Utf16.decodeLossy us with
  | case1 => exact .slnil
  | case2 u hhigh =>
    rw [List.filter_cons_of_neg (by simpa using hsurrogate (.inl hhigh))]
    exact List.nil_sublist _
  | case3 u hhigh v rest hlow ih =>
    rw [List.filter_cons_of_neg (by simpa using hsurrogate (.inl hhigh)),
      List.filter_cons_of_neg (by simpa using hsurrogate (.inr hlow))]
    exact ih.cons _
  | case4 u hhigh v rest hlow ih =>
    rw [List.filter_cons_of_neg (by simpa using hsurrogate (.inl hhigh))]
    exact ih.cons _
  | case5 u rest hhigh hlow ih =>
    rw [List.filter_cons_of_neg (by simpa using hsurrogate (.inr hlow))]
    exact ih.cons _
  | case6 u rest hhigh hlow ih =>
    rw [List.filter_cons]
    split
    · exact ih.cons_cons _
    · exact ih.cons _

theorem asciiChars_decodeByUnits (h : ¬ TakesAmiss bytes) :
    (asciiChars bytes).Sublist (decodeByUnits bytes).toList := by
  have hunits := (asciiBytes_sublist h).filter fun u => decide (u.toNat < 0x80)
  have hkept : ((asciiBytes bytes).map UInt8.toUInt16).filter (fun u => decide (u.toNat < 0x80)) =
      (asciiBytes bytes).map UInt8.toUInt16 := by
    rw [List.filter_eq_self]
    intro u hu
    obtain ⟨b, hb, rfl⟩ := List.mem_map.1 hu
    simpa using (List.mem_filter.1 hb).2
  rw [hkept] at hunits
  have hchars := (hunits.map fun u => Char.ofNat u.toNat).trans (asciiUnits_sublist _)
  rw [List.map_map] at hchars
  rw [decodeByUnits, String.toList_ofList]
  exact hchars

theorem asciiChars_plainChar (ch : Char) : (asciiChars (String.utf8EncodeChar ch)).Sublist [ch] := by
  have hval : ch.val.toNat = ch.toNat := rfl
  have hbounds := Utf8.toNat_bounds ch
  have hnone {bs : Bytes} (h : ∀ b ∈ bs, 0x80 ≤ b.toNat) : (asciiChars bs).Sublist [ch] := by
    rw [asciiChars, asciiBytes_eq_nil h]
    exact List.nil_sublist _
  unfold String.utf8EncodeChar
  simp only [hval]
  split
  next hone =>
    have hn : (UInt8.ofNat ch.toNat).toNat = ch.toNat := by rw [UInt8.toNat_ofNat']; omega
    rw [asciiChars, asciiBytes_cons_of_lt (by omega)]
    simp [asciiBytes, hn, Char.ofNat_toNat]
  next =>
    split
    · exact hnone (by simp; omega)
    · split
      · exact hnone (by simp; omega)
      · exact hnone (by simp; omega)

theorem asciiChars_plain {s : String} (h : Utf8.decode bytes = .ok s) :
    (asciiChars bytes).Sublist s.toList := by
  obtain rfl := Utf8.decode_eq_ok_iff.1 h
  rw [Utf8.encode]
  induction s.toList with
  | nil => exact .slnil
  | cons ch chars ih =>
    rw [List.flatMap_cons, asciiChars, asciiBytes_append, List.map_append]
    exact (asciiChars_plainChar ch).append ih

/-! ### What shows -/

/-- Of a byte string that is not well formed a replacement shows, but where the shortcut lets four-byte
sequences pass, or where everything was taken and some of it amiss; and unless something is taken
amiss, every byte below 0x80 is read as itself. -/
theorem broken_sequences_show (bytes : Bytes) :
    (¬ WellFormed bytes →
      Utf16.replacement ∈ (decode bytes).toList ∨
      (0xED ∉ bytes ∧ (∃ s, Utf8.decode bytes = .ok s) ∧ ∃ b ∈ bytes, 0xF0 ≤ b.toNat) ∨
      (Row Taken bytes ∧ TakesAmiss bytes)) ∧
    (¬ TakesAmiss bytes → (asciiChars bytes).Sublist (decode bytes).toList) := by
  by_cases hplain : 0xED ∉ bytes ∧ ∃ s, Utf8.decode bytes = .ok s
  · obtain ⟨hlead, s, hs⟩ := hplain
    refine ⟨fun hbroken => .inr (.inl ⟨hlead, ⟨s, hs⟩, ?_⟩), fun _ => ?_⟩
    · by_contra hsmall
      push Not at hsmall
      exact hbroken (wellFormed_of_plain hs hsmall)
    · rw [decode_of_plain hs hlead]
      exact asciiChars_plain hs
  · have hunits : decode bytes = decodeByUnits bytes := by
      refine decode_of_not_plain ?_
      by_cases hlead : 0xED ∈ bytes
      · exact .inl hlead
      · exact .inr fun s hs => hplain ⟨hlead, s, hs⟩
    rw [hunits]
    refine ⟨fun hbroken => ?_, asciiChars_decodeByUnits⟩
    rcases taken_or_replaced bytes with htaken | hreplaced
    · exact .inr (.inr ⟨htaken, takesAmiss_of_taken htaken hbroken⟩)
    · left
      rw [decodeByUnits, String.toList_ofList]
      exact replacement_mem hreplaced

-- A sequence that the end cuts off: the slash behind its first byte is kept.
example : decode [0x61, 0xE2, 0x2F] = "a\uFFFD/" := by decide +kernel

/-- A slash behind a lead byte makes another letter of it, and a four-byte sequence is read as UTF-8. -/
theorem broken_sequences_read_clean :
    (¬ WellFormed [0x61, 0xC1, 0x2F, 0x42] ∧ decode [0x61, 0xC1, 0x2F, 0x42] = "aoB" ∧
      Utf16.replacement ∉ (decode [0x61, 0xC1, 0x2F, 0x42]).toList) ∧
    (¬ WellFormed [0xF0, 0x9F, 0x98, 0x80] ∧
      decode [0xF0, 0x9F, 0x98, 0x80] = String.ofList [Char.ofNat 0x1F600] ∧
      Utf16.replacement ∉ (decode [0xF0, 0x9F, 0x98, 0x80]).toList) := by
  refine ⟨⟨fun h => ?_, by decide +kernel, by decide +kernel⟩,
    fun h => ?_, by decide +kernel, by decide +kernel⟩
  · rcases h.cases_cons with ⟨-, h⟩ | ⟨hlead, -⟩
    · rcases h.cases_cons with ⟨hone, -⟩ | ⟨-, -, b, others, heq, hb⟩
      · exact absurd hone (by decide)
      · obtain ⟨rfl, -⟩ := List.cons.inj heq
        exact absurd hb (by decide)
    · exact absurd hlead (by decide)
  · rcases h.cases_cons with ⟨hone, -⟩ | ⟨-, hlead, -⟩
    · exact absurd hone (by decide)
    · exact absurd hlead (by decide)

end ClassCatalog.ModifiedUtf8
