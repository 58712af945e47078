import ClassCatalog.Proofs.Text.Utf8

/-!
# The order of strings is the order of their bytes

`encode_lt_encode_iff`: of two strings the one with the smaller code point at the first difference
has the smaller UTF-8 bytes. The step is one character. A character of more bytes has the greater
first byte; in two characters of one width every byte is a digit of the code point, the highest
first (`digit_cons_lt`).
-/

namespace ClassCatalog.Utf8

theorem lead_cons_lt {a b : Nat} {as bs : Bytes} (h : a < b) (hb : b < 256) :
    UInt8.ofNat a :: as < UInt8.ofNat b :: bs := by
  rw [List.cons_lt_cons_iff]
  left
  rw [UInt8.lt_iff_toNat_lt, UInt8.toNat_ofNat', UInt8.toNat_ofNat']
  omega

/-- Each byte is the last digit of a number, and the digits before are the same: the smaller number
has the smaller byte, and what follows decides only between equal numbers. -/
theorem digit_cons_lt {a b base mark : Nat} {as bs : Bytes} (hbase : 0 < base)
    (hbyte : base + mark ≤ 256) (hle : a ≤ b) (hhigh : a / base = b / base)
    (hrest : a = b → as < bs) :
    UInt8.ofNat (a % base + mark) :: as < UInt8.ofNat (b % base + mark) :: bs := by
  rcases Nat.lt_or_eq_of_le hle with hlt | rfl
  · have ha := Nat.div_add_mod a base
    have hb := Nat.div_add_mod b base
    have hbound := Nat.mod_lt b hbase
    rw [hhigh] at ha
    exact lead_cons_lt (by omega) (by omega)
  · rw [List.cons_lt_cons_iff]
    exact .inr ⟨rfl, hrest rfl⟩

theorem encodeChar_append_lt {c d : Char} (h : c < d) (x y : Bytes) :
    String.utf8EncodeChar c ++ x < String.utf8EncodeChar d ++ y := by
  have hc := toNat_bounds c
  have hd := toNat_bounds d
  have hlt : c.toNat < d.toNat := h
  have hcval : c.val.toNat = c.toNat := rfl
  have hdval : d.val.toNat = d.toNat := rfl
  unfold String.utf8EncodeChar
  simp only [hcval, hdval]
  generalize c.toNat = m at *
  generalize d.toNat = n at *
  -- The widths of both, the wider of them second: all other pairs are against the order.
  split
  · split
    · exact lead_cons_lt hlt (by omega)
    · split
      · exact lead_cons_lt (by omega) (by omega)
      · split <;> exact lead_cons_lt (by omega) (by omega)
  · rw [if_neg (show ¬ n ≤ 127 by omega)]
    split
    · split
      · refine digit_cons_lt (by omega) (by omega) (by omega) (by omega) fun _ => ?_
        exact digit_cons_lt (by omega) (by omega) (by omega) (by omega) fun heq => by omega
      · split <;> exact lead_cons_lt (by omega) (by omega)
    · rw [if_neg (show ¬ n ≤ 2047 by omega)]
      split
      · split
        · refine digit_cons_lt (by omega) (by omega) (by omega) (by omega) fun _ => ?_
          refine digit_cons_lt (by omega) (by omega) (by omega) (by omega) fun _ => ?_
          exact digit_cons_lt (by omega) (by omega) (by omega) (by omega) fun heq => by omega
        · exact lead_cons_lt (by omega) (by omega)
      · rw [if_neg (show ¬ n ≤ 65535 by omega)]
        refine digit_cons_lt (by omega) (by omega) (by omega) (by omega) fun _ => ?_
        refine digit_cons_lt (by omega) (by omega) (by omega) (by omega) fun _ => ?_
        refine digit_cons_lt (by omega) (by omega) (by omega) (by omega) fun _ => ?_
        exact digit_cons_lt (by omega) (by omega) (by omega) (by omega) fun heq => by omega

theorem encodeChars_lt {s t : List Char} (h : s < t) :
    s.flatMap String.utf8EncodeChar < t.flatMap String.utf8EncodeChar := by
  induction s generalizing t with
  | nil =>
    cases t with
    | nil => exact absurd h (List.lt_irrefl _)
    | cons d t =>
      obtain ⟨first, others, hbytes, -⟩ := charWidth_head d
      rw [List.flatMap_nil, List.flatMap_cons, hbytes]
      exact List.nil_lt_cons ..
  | cons c s ih =>
    cases t with
    | nil => exact absurd h (List.not_lt_nil _)
    | cons d t =>
      rw [List.flatMap_cons, List.flatMap_cons]
      rcases List.cons_lt_cons_iff.mp h with hlt | ⟨rfl, hrest⟩
      · exact encodeChar_append_lt hlt _ _
      · exact List.append_left_lt (ih hrest)

theorem encode_lt_encode_iff {s t : String} : encode s < encode t ↔ s < t := by
  constructor
  · intro h
    rcases Decidable.em (s < t) with hlt | hnot
    · exact hlt
    · rcases Decidable.em (s = t) with rfl | hne
      · exact absurd h (List.lt_irrefl _)
      · have hgt : t < s := Std.lt_of_le_of_ne (String.not_lt.mp hnot) (Ne.symm hne)
        exact absurd h (List.lt_asymm (encodeChars_lt (String.lt_iff.mp hgt)))
  · intro h
    exact encodeChars_lt (String.lt_iff.mp h)

theorem encode_le_encode_iff {s t : String} : encode s ≤ encode t ↔ s ≤ t := by
  rw [← List.not_lt, ← String.not_lt, encode_lt_encode_iff]

end ClassCatalog.Utf8
