import ClassCatalog.Bytes.Numbers
import ClassCatalog.Index.Blob

/-!
# The frame of a stored index

Bytes are cut into a frame and a payload only if they are long enough (`framed`). They store an index just if
their frame is the one that `frame` puts around a payload, and the payload begins with one (`decode_eq_ok_iff`).
-/

namespace ClassCatalog

namespace Blob

/-- The index between two marks, behind a version. -/
def ofFrame (opening found payload closing : Bytes) : Except BlobError Index :=
  if opening ≠ openingMark ∨ closing ≠ closingMark then .error .badMagic
  else if Bytes.ofBigEndian found ≠ version then .error (.versionMismatch (Bytes.ofBigEndian found))
  else
    match Get.index payload with
    | .ok (index, _) => .ok index
    | .error fault => .error (.payload fault)

/-- Bytes are too short for a frame and refused for that, or every part of a frame is there. -/
def Framed (bytes : Bytes) : Prop :=
  bytes.length < frameLength ∧ decode bytes = .error (.truncated bytes.length) ∨
    ∃ opening found payload closing, bytes = opening ++ found ++ payload ++ closing ∧ opening.length = 4 ∧
      found.length = 2 ∧ closing.length = 4 ∧ decode bytes = ofFrame opening found payload closing

theorem framed (bytes : Bytes) : Framed bytes := by
  by_cases hshort : bytes.length < frameLength
  · exact .inl ⟨hshort, if_pos hshort⟩
  · have hlong : 10 ≤ bytes.length := Nat.le_of_not_lt hshort
    refine .inr ⟨bytes.take 4, (bytes.drop 4).take 2, (bytes.drop 6).take (bytes.length - frameLength),
      bytes.drop (bytes.length - 4), ?_, ?_, ?_, ?_, if_neg hshort⟩
    · have hbody : (bytes.drop 6).take (bytes.length - frameLength) ++ bytes.drop (bytes.length - 4) =
          bytes.drop 6 := by
        have hclosing : bytes.drop (bytes.length - 4) = (bytes.drop 6).drop (bytes.length - frameLength) := by
          rw [List.drop_drop]
          congr 1
          show bytes.length - 4 = 6 + (bytes.length - 10)
          omega
        rw [hclosing, List.take_append_drop]
      have hfound : (bytes.drop 4).take 2 ++ bytes.drop 6 = bytes.drop 4 := by
        have hrest := List.take_append_drop 2 (bytes.drop 4)
        rwa [List.drop_drop] at hrest
      rw [List.append_assoc, List.append_assoc, hbody, hfound, List.take_append_drop]
    · rw [List.length_take]
      omega
    · rw [List.length_take, List.length_drop]
      omega
    · rw [List.length_drop]
      omega

/-- A payload between the marks, behind the version. -/
def frame (payload : Bytes) : Bytes := openingMark ++ Bytes.bigEndian 2 version ++ payload ++ closingMark

@[simp] theorem length_frame (payload : Bytes) : (frame payload).length = payload.length + frameLength := by
  simp [frame, openingMark, closingMark, frameLength]
  omega

theorem ofFrame_eq_ok {opening found payload closing : Bytes} {index : Index} (hlength : found.length = 2)
    (h : ofFrame opening found payload closing = .ok index) :
    opening ++ found ++ payload ++ closing = frame payload ∧ ∃ rest, Get.index payload = .ok (index, rest) := by
  unfold ofFrame at h
  split at h
  · nomatch h
  next hmarks =>
    split at h
    · nomatch h
    next hversion =>
      obtain ⟨hopening, hclosing⟩ := not_or.1 hmarks
      have hfound : found = Bytes.bigEndian 2 version := by
        rw [← not_not.1 hversion, ← hlength, Bytes.bigEndian_ofBigEndian]
      refine ⟨by rw [not_not.1 hopening, not_not.1 hclosing, hfound, frame], ?_⟩
      split at h
      next rest hread =>
        cases h
        exact ⟨rest, hread⟩
      next => nomatch h

theorem decode_frame (payload : Bytes) :
    decode (frame payload) = ofFrame openingMark (Bytes.bigEndian 2 version) payload closingMark := by
  rcases framed (frame payload) with
    ⟨hshort, -⟩ | ⟨opening, found, middle, closing, hbytes, ho, hf, hc, hdecode⟩
  · rw [length_frame] at hshort
    omega
  · have hlengths := congrArg List.length hbytes
    simp only [length_frame, List.length_append, ho, hf, hc, frameLength] at hlengths
    obtain ⟨hbody, rfl⟩ := List.append_inj hbytes (by simp [openingMark, ho, hf]; omega)
    obtain ⟨hhead, rfl⟩ := List.append_inj hbody (by simp [openingMark, ho, hf])
    obtain ⟨rfl, rfl⟩ := List.append_inj hhead (by simp [openingMark, ho])
    exact hdecode

/-- A payload is read from its front, and what it leaves over is dropped. -/
theorem decode_eq_ok_iff {bytes : Bytes} {index : Index} :
    decode bytes = .ok index ↔
      ∃ payload rest, bytes = frame payload ∧ Get.index payload = .ok (index, rest) := by
  constructor
  · intro h
    rcases framed bytes with ⟨-, hshort⟩ | ⟨opening, found, payload, closing, rfl, -, hf, -, hdecode⟩
    · nomatch hshort.symm.trans h
    · obtain ⟨hframe, rest, hread⟩ := ofFrame_eq_ok hf (hdecode.symm.trans h)
      exact ⟨payload, rest, hframe, hread⟩
  · rintro ⟨payload, rest, rfl, hread⟩
    have hversion : Bytes.ofBigEndian (Bytes.bigEndian 2 version) = version := rfl
    rw [decode_frame, ofFrame, if_neg (by simp), hversion, if_neg (not_not_intro rfl), hread]

end Blob

end ClassCatalog
