import ClassCatalog.Proofs.Blob.RoundTrip
import ClassCatalog.Proofs.Blob.Takes

/-!
# Damaged blobs

A blob that was cut short is refused, also where the cut leaves the closing mark at its end
(`torn_blob_is_refused`): a reader that stops early has taken a payload, and would have stopped there in the whole
blob too. Bytes that were added between the payload and the closing mark are not noticed (`garbage_is_passed_over`).
-/

namespace ClassCatalog.Blob

theorem length_putIndex_lt {index : Index} (hfits : (encode index).length < addressable) :
    (putIndex index).length < addressable := by
  change (frame (putIndex index)).length < addressable at hfits
  rw [length_frame] at hfits
  omega

theorem exists_more_of_take_frame {payload payload' : Bytes} {n : Nat} (hn : n < (frame payload').length)
    (h : (frame payload').take n = frame payload) : ∃ more, more ≠ [] ∧ payload' = payload ++ more := by
  have hlength := congrArg List.length h
  simp only [List.length_take, length_frame] at hlength hn
  have hcut : frame payload' = frame payload ++ (frame payload').drop n := by rw [← h, List.take_append_drop]
  have hbody : payload' ++ closingMark = payload ++ (closingMark ++ (frame payload').drop n) := by
    generalize (frame payload').drop n = others at hcut ⊢
    simpa only [frame, List.append_assoc, List.append_cancel_left_eq] using hcut
  rcases List.append_eq_append_iff.1 hbody with ⟨others, rfl, -⟩ | ⟨more, rfl, -⟩
  · simp at hlength
    omega
  · refine ⟨more, ?_, rfl⟩
    rintro rfl
    rw [List.append_nil] at hn hlength
    omega

/-- A blob of which the end is missing is no index, whatever its last bytes are. -/
theorem torn_blob_is_refused (index : Index) (hfits : (encode index).length < addressable) {n : Nat}
    (hn : n < (encode index).length) : ∃ fault, decode ((encode index).take n) = .error fault := by
  cases hdecode : decode ((encode index).take n) with
  | error fault => exact ⟨fault, rfl⟩
  | ok other =>
    exfalso
    obtain ⟨payload, rest, htorn, hread⟩ := decode_eq_ok_iff.1 hdecode
    obtain ⟨more, hmore, hwhole⟩ := exists_more_of_take_frame hn htorn
    obtain ⟨taken, rfl, htaken⟩ := Get.exact_index.exists_taken hread
    -- The whole payload is read as the other index too, but leaves the missing bytes over.
    have hearly := htaken taken.length (Nat.le_refl _) (rest ++ more)
    rw [← List.append_assoc, ← hwhole] at hearly
    have hlate := Get.reads_index index (length_putIndex_lt hfits) []
    rw [List.append_nil, hearly] at hlate
    simp [hmore] at hlate

/-- The size of the container ends in the closing mark, and the blob is cut there. -/
theorem torn_blob_of_marked_size :
    let index : Index := { identity := ⟨"a.jar", 0xA0A0CAC000000000, 2, none⟩ }
    (encode index).length < addressable ∧ 27 < (encode index).length ∧
      ((encode index).take 27).drop 23 = closingMark ∧ ∃ fault, decode ((encode index).take 27) = .error fault := by
  intro index
  have hlength : (encode index).length < addressable ∧ 27 < (encode index).length := by decide +kernel
  exact ⟨hlength.1, hlength.2, by decide +kernel, torn_blob_is_refused index hlength.1 hlength.2⟩

theorem decode_padded {index : Index} (hfits : (encode index).length < addressable) (garbage : Bytes) :
    decode (frame (putIndex index ++ garbage)) = .ok index :=
  decode_eq_ok_iff.2 ⟨_, garbage, rfl, Get.reads_index index (length_putIndex_lt hfits) garbage⟩

/-- Whatever stands between the payload and the closing mark, the index is read, so nothing but the blob without
garbage is dealt with as it should be. And what is read as an index is always a payload, of which it is read whatever
comes behind it, and perhaps other bytes. -/
theorem garbage_is_passed_over (index : Index) (hfits : (encode index).length < addressable) (garbage : Bytes) :
    decode (frame (putIndex index ++ garbage)) = .ok index ∧
      ((garbage ≠ [] → ∃ fault, decode (frame (putIndex index ++ garbage)) = .error fault) ↔ garbage = []) ∧
      ∀ bytes other, decode bytes = .ok other ↔ ∃ payload rest, bytes = frame (payload ++ rest) ∧
        ∀ more, Get.index (payload ++ more) = .ok (other, more) := by
  have hread := decode_padded hfits garbage
  refine ⟨hread, ⟨fun hrefused => ?_, fun hnone hsome => absurd hnone hsome⟩, fun bytes other => ?_⟩
  · by_contra hsome
    obtain ⟨fault, hfault⟩ := hrefused hsome
    nomatch hfault.symm.trans hread
  · rw [decode_eq_ok_iff]
    constructor
    · rintro ⟨payload, rest, rfl, hread⟩
      obtain ⟨taken, rfl, htaken⟩ := Get.exact_index.exists_taken hread
      exact ⟨taken, rest, rfl, htaken taken.length (Nat.le_refl _)⟩
    · rintro ⟨payload, rest, rfl, hread⟩
      exact ⟨_, rest, rfl, hread rest⟩

/-- Behind the payload of an index without classes stands another closing mark. -/
theorem garbage_of_second_mark :
    let index : Index := { identity := ⟨"a.jar", 1, 2, none⟩ }
    (encode index).length < addressable ∧
      decode (frame (putIndex index ++ closingMark)) = .ok index := by
  intro index
  have hfits : (encode index).length < addressable := by decide +kernel
  obtain ⟨hread, -⟩ := garbage_is_passed_over index hfits closingMark
  exact ⟨hfits, hread⟩

/-- A single byte behind the payload of an index without classes is not noticed. -/
theorem garbage_is_not_refused : ¬ ∀ (index : Index) (garbage : Bytes), garbage ≠ [] →
    ∃ fault, decode (frame (putIndex index ++ garbage)) = .error fault := by
  intro hrefused
  let index : Index := { identity := ⟨"a.jar", 1, 2, none⟩ }
  have hfits : (encode index).length < addressable := by decide +kernel
  obtain ⟨fault, hfault⟩ := hrefused index [0xFF] (by simp)
  nomatch hfault.symm.trans (decode_padded hfits [0xFF])

end ClassCatalog.Blob
