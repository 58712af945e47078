import ClassCatalog.Proofs.Annotation.Distinct
import ClassCatalog.Proofs.ClassFile.Losses

/-!
# Element names in records

Of an element name that repeats, a record has the first value. Where one repeats anywhere in the file, the record is
partial.
-/

namespace ClassCatalog.ClassFile

/-- In a record, whole or partial, no usage repeats an element name, at any depth: on every bearer are the usages of
the file, in each of them every name where it first occurs and with the value that it has there. The record is whole
only if no usage in the annotation attributes of the file repeats an element name. -/
theorem element_names_are_distinct (bytes : Bytes) :
    (∀ r, recordOf? (decode bytes) = some r →
      ∃ pool header c, readHeader.runAt (Cursor.start bytes) = (.ok (pool, header), c) ∧
        (∀ bearer, List.Forall₂ Usage.KeepsFirsts (r.usagesOn bearer)
          (Visit.gathered (survey pool c).whole bearer)) ∧
        ∀ u ∈ r.usages, ∀ w ∈ u.within, w.names.Nodup) ∧
      ∀ r, decode bytes = .ok r →
        ∃ pool header c c', readHeader.runAt (Cursor.start bytes) = (.ok (pool, header), c) ∧
          (survey pool c).next = .ok c' ∧
          ∀ v ∈ (survey pool c).whole, ∀ u ∈ v.usages, ∀ w ∈ u.within, w.names.Nodup := by
  refine ⟨fun r hrecord => ?_, fun r hdecode => ?_⟩
  · rcases usagesOn_of_recordOf? hrecord with ⟨pool, header, c, hheader, hgathered⟩
    refine ⟨pool, header, c, hheader, fun bearer => ?_, fun u hu => ?_⟩
    · rw [hgathered, List.forall₂_map_left_iff]
      exact List.forall₂_same.2 fun u _ => u.keepsFirsts_distinct
    · rcases ClassRecord.exists_bearer hu with ⟨bearer, hbearer⟩
      rw [hgathered] at hbearer
      rcases List.mem_map.1 hbearer with ⟨raw, -, rfl⟩
      exact nodup_of_mem_within_distinct raw
  · rcases of_decode_eq_ok hdecode with ⟨pool, header, c, c', hheader, hnext, hplain, -⟩
    refine ⟨pool, header, c, c', hheader, hnext, fun v hv u hu => ?_⟩
    exact u.repeatsName_eq_false_iff.1 (Visit.repeatsName_of_mem_usages (hplain v hv) hu)

/-- A usage of two elements inside an array, the first one with the name `size`. -/
def twoValues (second : String) : Blueprint where
  name := "app/Form"
  methods :=
    [{ name := "m", descriptor := "(I)V",
       parameters := [[⟨"app.Outer", .runtime,
         [("all", .array [.nested ⟨"app.Inner", .runtime, [("size", .int 1), (second, .int 2)]⟩])]⟩]] }]

/-- If both elements have one name, the record has a usage, and no usage in it repeats a name. If they have two, the
record is whole, and the file repeats none. -/
theorem element_names_of_twoValues :
    (∃ r, recordOf? (decode (twoValues "size").assemble) = some r ∧ r.usages ≠ [] ∧
      ∀ u ∈ r.usages, ∀ w ∈ u.within, w.names.Nodup) ∧
    ∃ r pool header c, decode (twoValues "count").assemble = .ok r ∧
      readHeader.runAt (Cursor.start (twoValues "count").assemble) = (.ok (pool, header), c) ∧
      ∀ v ∈ (survey pool c).whole, ∀ u ∈ v.usages, ∀ w ∈ u.within, w.names.Nodup := by
  have hpartial : (recordOf? (decode (twoValues "size").assemble)).any (fun r => !r.usages.isEmpty) = true := by
    decide +kernel
  have hwhole : (decode (twoValues "count").assemble).toOption.isSome = true := by decide +kernel
  constructor
  · rcases (Option.any_eq_true _ _).1 hpartial with ⟨r, hrecord, husages⟩
    rcases (element_names_are_distinct (twoValues "size").assemble).1 r hrecord with ⟨pool, header, c, -, -, hnodup⟩
    exact ⟨r, hrecord, by simpa using husages, hnodup⟩
  · cases hdecode : decode (twoValues "count").assemble with
    | error e =>
      rw [hdecode] at hwhole
      nomatch hwhole
    | ok r =>
      rcases (element_names_are_distinct (twoValues "count").assemble).2 r hdecode with
        ⟨pool, header, c, c', hheader, -, hnodup⟩
      exact ⟨r, pool, header, c, rfl, hheader, hnodup⟩

end ClassCatalog.ClassFile
