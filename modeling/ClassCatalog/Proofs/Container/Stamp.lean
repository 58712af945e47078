import ClassCatalog.Bytes.Numbers
import ClassCatalog.Container.Entry
import ClassCatalog.Container.Identity
import ClassCatalog.Proofs.Text.Utf8

/-!
# Identities that have a stamp

A stamp shows the start of the digest and is there unless that ends inside a character
(`Identity.hasStamp_iff`). ASCII characters are one byte each, so a digest in hexadecimal digits can be cut
anywhere.
-/

namespace ClassCatalog

namespace Utf8

theorem length_encodeChar_of_ascii {c : Char} (h : c.toNat < 128) : (String.utf8EncodeChar c).length = 1 := by
  rw [String.length_utf8EncodeChar, Char.utf8Size_eq_one_iff, UInt32.le_iff_toNat_le]
  exact Nat.le_of_lt_succ h

theorem take_encodeChars {chars : List Char} (h : ∀ c ∈ chars, c.toNat < 128) (n : Nat) :
    (chars.flatMap String.utf8EncodeChar).take n = (chars.take n).flatMap String.utf8EncodeChar := by
  induction chars generalizing n with
  | nil => simp
  | cons c chars ih =>
    obtain ⟨hc, hchars⟩ := List.forall_mem_cons.1 h
    cases n with
    | zero => rfl
    | succ n =>
      have hone := length_encodeChar_of_ascii hc
      rw [List.flatMap_cons, List.take_append, hone, List.take_succ_cons, List.flatMap_cons, ← ih hchars n,
        List.take_of_length_le (by omega)]
      rfl

end Utf8

namespace Identity

/-- The identity has a short form. -/
def HasStamp (i : Identity) : Prop := i.stamp?.isSome = true

instance (i : Identity) : Decidable i.HasStamp := inferInstanceAs (Decidable (_ = true))

/-- A digest can be cut where a stamp ends. -/
def Cuttable (digest : String) : Prop := (cut? stampDigestBytes digest).isSome = true

theorem hasStamp_iff {i : Identity} : i.HasStamp ↔ ∀ digest, i.digest = some digest → Cuttable digest := by
  unfold HasStamp stamp? Cuttable
  cases i.digest with
  | none => simp
  | some digest => simp

theorem cuttable_of_ascii {digest : String} (h : ∀ c ∈ digest.toList, c.toNat < 128) : Cuttable digest := by
  have hcut : cut? stampDigestBytes digest = some (String.ofList (digest.toList.take stampDigestBytes)) := by
    unfold cut? Utf8.encode Utf8.decode?
    rw [Utf8.take_encodeChars h]
    have hdecode := Utf8.decode_encode (String.ofList (digest.toList.take stampDigestBytes))
    rw [Utf8.encode, String.toList_ofList] at hdecode
    rw [hdecode]
    rfl
  rw [Cuttable, hcut]
  rfl

theorem cuttable_hex (bytes : Bytes) : Cuttable (Bytes.hex bytes) := by
  refine cuttable_of_ascii fun c hc => ?_
  rw [Bytes.hex, String.toList_ofList] at hc
  obtain ⟨n, hn, rfl⟩ := Bytes.exists_digitChar_of_mem_hexDigits hc
  have hdigit : ∀ n < 16, (Nat.digitChar n).toNat < 128 := by decide
  exact hdigit n hn

end Identity

theorem ClassEntry.cuttable_digest (entries : List ClassEntry) : Identity.Cuttable (digest entries) :=
  Identity.cuttable_hex _

end ClassCatalog
