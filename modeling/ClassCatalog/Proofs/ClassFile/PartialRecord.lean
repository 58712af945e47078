import ClassCatalog.ClassFile.Blueprint
import ClassCatalog.Proofs.ClassFile.Bearers

/-!
# What a partial record holds

A fault in the body leaves a record of the visits before it (`partial_record_holds`). Fields and methods are
entered when all their attributes have been read, so the attributes that were read of the member with the
fault are in no record.
-/

namespace ClassCatalog.ClassFile

variable {bytes : Bytes} {r : ClassRecord}

/-- A partial record has, on every bearer, what the visits before the fault gave for it. So the usages of an attribute
are there if the visit to its owner came to its end and, where they are on parameters, no later visit to a method with
the same key has others. -/
theorem partial_record_holds {fault : ParseError} (h : decode bytes = .error (.incomplete r (.parse fault))) :
    ∃ pool header c, readHeader.runAt (Cursor.start bytes) = (.ok (pool, header), c) ∧
      (survey pool c).next = .error fault ∧
      (∀ bearer, r.usagesOn bearer = (Visit.gathered (survey pool c).whole bearer).map Usage.distinct) ∧
      ∀ (before : List (Visit pool)) (visit : Visit pool) (later : List (Visit pool)),
        (survey pool c).whole = before ++ visit :: later → ∀ sighting ∈ visit.sightings, ∀ bearer,
          ∀ u ∈ sighting.content.usagesOn visit.site bearer,
            (∀ v ∈ later, v.overwrites bearer = false) → u.distinct ∈ r.usagesOn bearer := by
  have hrecord : recordOf? (decode bytes) = some r := by rw [h, recordOf?]
  rcases usagesOn_of_recordOf? hrecord with ⟨pool, header, c, hheader, hgathered⟩
  refine ⟨pool, header, c, hheader, next_of_decode_eq_parse h hheader, hgathered, ?_⟩
  intro before visit later hwhole sighting hsighting bearer u hu hlater
  have hgiven : u ∈ visit.usagesOn bearer :=
    List.mem_flatMap.2 ⟨sighting.content, List.mem_map_of_mem hsighting, hu⟩
  rw [hgathered, hwhole]
  exact List.mem_map_of_mem (mem_surviving visit hgiven hlater before)

/-! ### A member with a fault -/

/-- Whether usages were read on a field with a fault, and the partial record has none on it. -/
def losesField (name : String) (bytes : Bytes) : Bool :=
  match decode bytes, readHeader.runAt (Cursor.start bytes) with
  | .error (.incomplete r (.parse _)), (.ok (pool, _), c) =>
    (r.usagesOn (.field name)).isEmpty &&
      (survey pool c).broken.any fun v => v.sightings.any fun s => !(s.content.usagesOn v.site (.field name)).isEmpty
  | _, _ => false

theorem of_losesField {name : String} (h : losesField name bytes = true) :
    ∃ r fault pool header c, decode bytes = .error (.incomplete r (.parse fault)) ∧
      readHeader.runAt (Cursor.start bytes) = (.ok (pool, header), c) ∧ r.usagesOn (.field name) = [] ∧
      ∃ visit ∈ (survey pool c).broken, ∃ sighting ∈ visit.sightings,
        ∃ u, u ∈ sighting.content.usagesOn visit.site (.field name) := by
  unfold losesField at h
  split at h
  · rename_i r fault pool header c hdecode hheader
    rcases Bool.and_eq_true_iff.1 h with ⟨hnone, hbroken⟩
    rcases (Option.any_eq_true _ _).1 hbroken with ⟨visit, hvisit, hsightings⟩
    rcases List.any_eq_true.1 hsightings with ⟨sighting, hsighting, hread⟩
    refine ⟨r, fault, pool, header, c, hdecode, hheader, List.isEmpty_iff.1 hnone, visit, hvisit, sighting,
      hsighting, List.exists_mem_of_ne_nil _ ?_⟩
    simpa using hread
  · nomatch h

/-- Two fields, the second with two attributes. -/
def seenFields : Blueprint where
  name := "app/Form"
  fields :=
    [{ name := "kept", descriptor := "I", annotations := [⟨"app.Seen", .runtime, []⟩] },
      { name := "lost", descriptor := "I",
        annotations := [⟨"app.Seen", .runtime, []⟩, ⟨"app.Held", .classFile, []⟩] }]

/-- The file ends inside the second attribute of the second field. -/
def cutSeenFields : Bytes := seenFields.assemble.take (seenFields.assemble.length - 5)

/-- Of the second field nothing is left. -/
theorem partial_record_of_cutSeenFields :
    ∃ r pool header c, (∃ fault, decode cutSeenFields = .error (.incomplete r (.parse fault))) ∧
      readHeader.runAt (Cursor.start cutSeenFields) = (.ok (pool, header), c) ∧
      (∀ bearer, r.usagesOn bearer = (Visit.gathered (survey pool c).whole bearer).map Usage.distinct) ∧
      r.usagesOn (.field "lost") = [] := by
  have hloses : losesField "lost" cutSeenFields = true := by decide +kernel
  rcases of_losesField hloses with ⟨r, fault, -, -, -, hdecode, -, hlost, -⟩
  rcases partial_record_holds hdecode with ⟨pool, header, c, hheader, -, hgathered, -⟩
  exact ⟨r, pool, header, c, ⟨fault, hdecode⟩, hheader, hgathered, hlost⟩

/-- What was read of a member before a fault in a later attribute of the member is lost. -/
theorem read_before_fault_is_lost :
    ¬ ∀ (bytes : Bytes) (r : ClassRecord) (fault : ParseError) (pool : ConstantPool) (header : ClassRecord)
        (c : Cursor), decode bytes = .error (.incomplete r (.parse fault)) →
      readHeader.runAt (Cursor.start bytes) = (.ok (pool, header), c) →
      ∀ visit ∈ (survey pool c).whole ++ (survey pool c).broken.toList, ∀ sighting ∈ visit.sightings,
        ∀ bearer, ∀ u ∈ sighting.content.usagesOn visit.site bearer, u.distinct ∈ r.usagesOn bearer := by
  intro h
  have hloses : losesField "lost" cutSeenFields = true := by decide +kernel
  rcases of_losesField hloses with
    ⟨r, fault, pool, header, c, hdecode, hheader, hlost, visit, hvisit, sighting, hsighting, u, hu⟩
  have hseen : visit ∈ (survey pool c).whole ++ (survey pool c).broken.toList :=
    List.mem_append_right _ (Option.mem_toList.2 hvisit)
  have hheld := h _ r fault pool header c hdecode hheader visit hseen sighting hsighting _ u hu
  rw [hlost] at hheld
  nomatch hheld

end ClassCatalog.ClassFile
