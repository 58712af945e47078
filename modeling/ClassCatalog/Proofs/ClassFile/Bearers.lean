import ClassCatalog.Proofs.ClassFile.Survey
import ClassCatalog.Proofs.ClassFile.Truncation

/-!
# What a record has on each bearer

Usages stand on a class, a field, a method or a parameter: a `Bearer` of the record. What a record has on a bearer
is what the visits gave for it, one after the other (`usagesOn_record`), of each repeated element the first value.
Usages on parameters are the exception: a visit to a method takes the place of all earlier visits to methods with
its key, if it puts usages on parameters at all.
-/

namespace ClassCatalog

open ClassFile Read

/-- What usages stand on. Parameters are known by the key of their method and their position. -/
inductive Bearer where
  | classItself
  | field (name : String)
  | method (key : String)
  | parameter (key : String) (position : Nat)
  deriving DecidableEq, Repr

/-- The usages that a record has on a bearer. -/
def ClassRecord.usagesOn (r : ClassRecord) : Bearer → List Usage
  | .classItself => r.classAnnotations
  | .field name => (r.fieldAnnotations.find? name).getD []
  | .method key => (r.methodAnnotations.find? key).getD []
  | .parameter key position => ((r.parameterAnnotations.find? key).getD []).getD position []

theorem ClassRecord.IsBare.usagesOn {r : ClassRecord} (h : r.IsBare) (bearer : Bearer) :
    r.usagesOn bearer = [] := by
  rcases h with ⟨hclass, hfields, hmethods, hparameters⟩
  cases bearer <;> simp only [ClassRecord.usagesOn, hclass, hfields, hmethods, hparameters] <;> rfl

namespace ClassFile

/-- The bearer of the usages on the item itself. -/
def Site.bearer : Site → Bearer
  | field name => .field name
  | method key => .method key
  | classItself => .classItself

namespace Attribute

/-- What an attribute at `site` says of a bearer. -/
def usagesOn (site : Site) : Attribute → Bearer → List Usage
  | annotations us, bearer => if bearer = site.bearer then us else []
  | parameterAnnotations ps, .parameter key position => if site = .method key then ps.getD position [] else []
  | _, _ => []

/-- The usages on parameters, those on the first one first. -/
def parameterUsages : Attribute → List Usage
  | parameterAnnotations ps => ps.flatten
  | _ => []

/-! ### Lists of parameters -/

theorem getD_mergeParameters (ps qs : List (List Usage)) (i : Nat) :
    (mergeParameters ps qs).getD i [] = ps.getD i [] ++ qs.getD i [] := by
  induction ps generalizing qs i with
  | nil => simp [mergeParameters]
  | cons p ps ih =>
    cases qs with
    | nil => simp [mergeParameters]
    | cons q qs =>
      cases i with
      | zero => simp [mergeParameters]
      | succ i => simpa [mergeParameters] using ih qs i

theorem flatten_mergeParameters (ps qs : List (List Usage)) :
    (mergeParameters ps qs).flatten.Perm (ps.flatten ++ qs.flatten) := by
  induction ps generalizing qs with
  | nil => simp [mergeParameters]
  | cons p ps ih =>
    cases qs with
    | nil => simp [mergeParameters]
    | cons q qs =>
      simp only [mergeParameters, List.flatten_cons, List.append_assoc]
      refine .append_left p (((ih qs).append_left q).trans ?_)
      rw [← List.append_assoc, ← List.append_assoc]
      exact List.perm_append_comm.append_right _

/-- At each position stands what the attributes say of it, in their order. -/
theorem getD_mergedParameters (key : String) (i : Nat) (as : List Attribute) :
    (mergedParameters as).getD i [] = as.flatMap (·.usagesOn (.method key) (.parameter key i)) := by
  unfold mergedParameters
  suffices h : ∀ merged : List (List Usage), (as.foldl (fun merged a =>
      match a with
      | parameterAnnotations ps => mergeParameters merged ps
      | _ => merged) merged).getD i [] =
        merged.getD i [] ++ as.flatMap (·.usagesOn (.method key) (.parameter key i)) from h []
  induction as with
  | nil => simp
  | cons a as ih =>
    intro merged
    rw [List.foldl_cons, ih, List.flatMap_cons]
    cases a with
    | parameterAnnotations ps =>
      have hps : usagesOn (.method key) (.parameterAnnotations ps) (.parameter key i) = ps.getD i [] := if_pos rfl
      rw [getD_mergeParameters, hps, List.append_assoc]
    | annotations us => rfl
    | other => rfl

theorem getD_of_all_isEmpty {ps : List (List Usage)} (h : ps.all List.isEmpty = true) (i : Nat) :
    ps[i]?.getD [] = [] := by
  cases hi : ps[i]? with
  | none => rfl
  | some p => exact List.isEmpty_iff.1 (List.all_eq_true.1 h p (List.mem_of_getElem? hi))

/-- No usage on a parameter is lost when lists of different lengths are joined. -/
theorem flatten_mergedParameters (as : List Attribute) :
    (mergedParameters as).flatten.Perm (as.flatMap parameterUsages) := by
  unfold mergedParameters
  suffices h : ∀ merged : List (List Usage), (as.foldl (fun merged a =>
      match a with
      | parameterAnnotations ps => mergeParameters merged ps
      | _ => merged) merged).flatten.Perm (merged.flatten ++ as.flatMap parameterUsages) from h []
  induction as with
  | nil => simp
  | cons a as ih =>
    intro merged
    rw [List.foldl_cons, List.flatMap_cons, ← List.append_assoc]
    refine (ih _).trans (.append_right _ ?_)
    cases a with
    | parameterAnnotations ps => exact flatten_mergeParameters merged ps
    | annotations us => simp [parameterUsages]
    | other => simp [parameterUsages]

end Attribute

namespace Visit

variable {pool : ConstantPool}

/-- What a visit gives for a bearer. -/
def usagesOn (v : Visit pool) (bearer : Bearer) : List Usage := v.contents.flatMap (·.usagesOn v.site bearer)

/-- The usages on the parameters of a method. -/
def parameterUsages (v : Visit pool) : List Usage := v.contents.flatMap Attribute.parameterUsages

/-- Whether there are usages on the parameters of what is visited, and it is this site. -/
def parametrizes (v : Visit pool) (site : Site) : Bool := v.site = site && !v.parameterUsages.isEmpty

/-- Whether a visit takes the place of what earlier ones gave. -/
def overwrites (v : Visit pool) : Bearer → Bool
  | .parameter key _ => v.parametrizes (.method key)
  | _ => false

end Visit

/-- What the items give, those left out that a later one overwrites. -/
def surviving {γ α : Type} (overwrites : γ → Bool) (give : γ → List α) : List γ → List α
  | [] => []
  | x :: later => (if later.any overwrites then [] else give x) ++ surviving overwrites give later

theorem mem_surviving {γ α : Type} {overwrites : γ → Bool} {give : γ → List α} {later : List γ} {a : α} (x : γ)
    (ha : a ∈ give x) (hlater : ∀ y ∈ later, overwrites y = false) (before : List γ) :
    a ∈ surviving overwrites give (before ++ x :: later) := by
  have hany : later.any overwrites = false :=
    List.any_eq_false.2 fun y hy => Bool.not_eq_true _ ▸ hlater y hy
  induction before with
  | nil => simp [surviving, hany, ha]
  | cons y before ih => exact List.mem_append_right _ ih

/-- What all visits give for a bearer. -/
def Visit.gathered {pool : ConstantPool} (visits : List (Visit pool)) (bearer : Bearer) : List Usage :=
  surviving (·.overwrites bearer) (·.usagesOn bearer) visits

/-! ### Adding visits to a record -/

section

variable {γ : Type} {overwrites : γ → Bool} {give : γ → List Usage} {part : γ → Part}

/-- What every visit adds to, and sometimes overwrites, is at the end what the visits have left of it. -/
theorem foldl_surviving (f : ClassRecord → List Usage)
    (hstep : ∀ r x, f (Part.addTo r (part x)) =
      (if overwrites x then [] else f r) ++ (give x).map Usage.distinct) (l : List γ) (r : ClassRecord) :
    f ((l.map part).foldl Part.addTo r) =
      (if l.any overwrites then [] else f r) ++ (surviving overwrites give l).map Usage.distinct := by
  induction l generalizing r with
  | nil => simp [surviving]
  | cons x l ih =>
    rw [List.map_cons, List.foldl_cons, ih, hstep, surviving]
    by_cases hlater : l.any overwrites = true <;> by_cases hx : overwrites x = true <;> simp [hlater, hx]

end

namespace Part

theorem getD_find?_addUsages (m : NameMap (List Usage)) (name other : String) (us : List Usage) :
    ((Part.addUsages m name us).find? other).getD [] =
      (m.find? other).getD [] ++ if other = name then us else [] := by
  unfold Part.addUsages
  cases us with
  | nil => simp
  | cons u us =>
    rw [if_neg (by simp), NameMap.find?_insert]
    by_cases hname : other = name <;> simp [hname]

theorem usagesOn_addTo_field (r : ClassRecord) (name : String) (us : List Usage) (bearer : Bearer) :
    (addTo r (.field name us)).usagesOn bearer =
      r.usagesOn bearer ++ if bearer = .field name then us.map Usage.distinct else [] := by
  cases bearer <;> simp [addTo, ClassRecord.usagesOn, getD_find?_addUsages]

theorem usagesOn_addTo_classAttribute (r : ClassRecord) (us : List Usage) (bearer : Bearer) :
    (addTo r (.classAttribute us)).usagesOn bearer =
      r.usagesOn bearer ++ if bearer = .classItself then us.map Usage.distinct else [] := by
  cases bearer <;> simp [addTo, ClassRecord.usagesOn]

theorem usagesOn_addTo_method (r : ClassRecord) (key : String) (us : List Usage) (ps : List (List Usage))
    {bearer : Bearer} (h : ∀ key i, bearer ≠ .parameter key i) :
    (addTo r (.method key us ps)).usagesOn bearer =
      r.usagesOn bearer ++ if bearer = .method key then us.map Usage.distinct else [] := by
  cases bearer with
  | parameter key i => exact absurd rfl (h key i)
  | classItself | field name | method other =>
    simp only [addTo]
    split <;> simp [ClassRecord.usagesOn, getD_find?_addUsages]

theorem parameters_addTo_method (r : ClassRecord) (key other : String) (us : List Usage) (ps : List (List Usage)) :
    (addTo r (.method key us ps)).parameterAnnotations.find? other =
      if other = key ∧ ps.all List.isEmpty = false then some (ps.map (·.map Usage.distinct))
      else r.parameterAnnotations.find? other := by
  simp only [addTo, any_not_isEmpty]
  cases ps.all List.isEmpty with
  | true => simp
  | false => simp [NameMap.find?_insert]

end Part

namespace Visit

variable {pool : ConstantPool}

theorem isEmpty_parameterUsages (v : Visit pool) :
    v.parameterUsages.isEmpty = (Attribute.mergedParameters v.contents).all List.isEmpty := by
  have hperm := Attribute.flatten_mergedParameters v.contents
  rw [parameterUsages, ← hperm.isEmpty_eq]
  induction Attribute.mergedParameters v.contents with
  | nil => rfl
  | cons p ps ih =>
    rw [List.flatten_cons, List.all_cons, ← ih]
    cases p <;> rfl

/-- What an attribute gives for a bearer that is no parameter. -/
theorem usagesOn_attribute (site : Site) (a : Attribute) {bearer : Bearer}
    (h : ∀ key i, bearer ≠ .parameter key i) :
    a.usagesOn site bearer = if bearer = site.bearer then a.usages else [] := by
  cases a with
  | annotations us => rfl
  | parameterAnnotations ps =>
    cases bearer with
    | parameter key i => exact absurd rfl (h key i)
    | classItself | field name | method key => simp [Attribute.usagesOn, Attribute.usages]
  | other => simp [Attribute.usagesOn, Attribute.usages]

theorem usagesOn_item (v : Visit pool) {bearer : Bearer} (h : ∀ key i, bearer ≠ .parameter key i) :
    v.usagesOn bearer = if bearer = v.site.bearer then v.contents.flatMap Attribute.usages else [] := by
  unfold usagesOn
  simp only [usagesOn_attribute v.site _ h]
  split <;> simp

theorem usagesOn_parameter (v : Visit pool) (key : String) (i : Nat) :
    v.usagesOn (.parameter key i) =
      if v.site = .method key then (Attribute.mergedParameters v.contents).getD i [] else [] := by
  unfold usagesOn
  by_cases hsite : v.site = .method key
  · rw [if_pos hsite, hsite, Attribute.getD_mergedParameters]
  · rw [if_neg hsite, List.flatMap_eq_nil_iff]
    intro a _
    have hbearer : Bearer.parameter key i ≠ v.site.bearer := by
      cases v.site <;> simp [Site.bearer]
    cases a <;> simp [Attribute.usagesOn, hsite, hbearer]

/-- What is under the key of a method after a visit. -/
theorem parameters_addTo (r : ClassRecord) (v : Visit pool) (key : String) :
    ((Part.addTo r v.part).parameterAnnotations.find? key).getD [] =
      if v.parametrizes (.method key) then (Attribute.mergedParameters v.contents).map (·.map Usage.distinct)
      else (r.parameterAnnotations.find? key).getD [] := by
  have hempty := v.isEmpty_parameterUsages
  rw [parametrizes, hempty]
  rcases v with ⟨site, sightings⟩
  cases site with
  | field name => simp [part, Part.addTo]
  | classItself => simp [part, Part.addTo]
  | method other =>
    simp only [part, Part.parameters_addTo_method]
    by_cases hkey : key = other
    · subst hkey
      cases (Attribute.mergedParameters (contents ⟨.method key, sightings⟩)).all List.isEmpty <;> simp
    · simp [hkey, Ne.symm hkey]

/-- Where a visit takes no place, there is nothing in its place. -/
theorem getD_of_not_parametrizes {v : Visit pool} {key : String} (h : v.parametrizes (.method key) = false)
    (i : Nat) : v.usagesOn (.parameter key i) = [] := by
  rw [usagesOn_parameter]
  split
  next hsite =>
    rw [parametrizes, isEmpty_parameterUsages, hsite] at h
    exact Attribute.getD_of_all_isEmpty (by simpa using h) i
  next => rfl

/-- What a record has on a bearer after a visit. -/
theorem usagesOn_addTo (r : ClassRecord) (v : Visit pool) (bearer : Bearer) :
    (Part.addTo r v.part).usagesOn bearer =
      (if v.overwrites bearer then [] else r.usagesOn bearer) ++ (v.usagesOn bearer).map Usage.distinct := by
  cases bearer with
  | parameter key i =>
    rw [ClassRecord.usagesOn, parameters_addTo, overwrites]
    cases hv : v.parametrizes (.method key) with
    | false =>
      rw [getD_of_not_parametrizes hv]
      simp [ClassRecord.usagesOn]
    | true =>
      have hsite : v.site = .method key := of_decide_eq_true (Bool.and_eq_true_iff.1 hv).1
      rw [usagesOn_parameter, if_pos hsite]
      simp only [if_true, List.nil_append, List.getD_eq_getElem?_getD, List.getElem?_map]
      cases (Attribute.mergedParameters v.contents)[i]? <;> rfl
  | classItself | field name | method key =>
    rw [usagesOn_item _ (by simp)]
    rcases v with ⟨site, sightings⟩
    cases site <;> simp [part, overwrites, Part.usagesOn_addTo_field, Part.usagesOn_addTo_classAttribute,
      Part.usagesOn_addTo_method, Site.bearer, apply_ite (List.map Usage.distinct)]

/-- The record that the visits make of a header. -/
def record (header : ClassRecord) (visits : List (Visit pool)) : ClassRecord :=
  assembleRecord header (visits.map part)

theorem usagesOn_record {header : ClassRecord} (hheader : header.IsBare) (visits : List (Visit pool))
    (bearer : Bearer) :
    (record header visits).usagesOn bearer = (gathered visits bearer).map Usage.distinct := by
  have hfold := foldl_surviving (·.usagesOn bearer) (fun r v => usagesOn_addTo r v bearer) visits header
  simp only [hheader.usagesOn, ite_self, List.nil_append] at hfold
  exact hfold

end Visit

/-! ### What decoding gives -/

variable {bytes : Bytes} {pool : ConstantPool} {header : ClassRecord} {c : Cursor}

/-- Behind a header, decoding gives the record of the visits that came to their end. -/
theorem decode_of_readHeader (h : readHeader.runAt (Cursor.start bytes) = (.ok (pool, header), c)) :
    decode bytes =
      let visits := (survey pool c).whole
      match (survey pool c).next with
      | .error e => .error (.incomplete { Visit.record header visits with isPartial := true } (.parse e))
      | .ok _ =>
        if (visits.map Visit.part).any Part.repeatsName then
          .error (.incomplete { Visit.record header visits with isPartial := true } .duplicateElement)
        else .ok (Visit.record header visits) := by
  have hagrees := agrees_survey pool c
  unfold decode
  rw [h]
  simp only [hagrees.parts, hagrees.next]
  rfl

/-- A record, whole or partial, has a header. -/
theorem exists_readHeader (h : ∀ fault, decode bytes ≠ .error (.malformed fault)) :
    ∃ pool header c, readHeader.runAt (Cursor.start bytes) = (.ok (pool, header), c) := by
  unfold decode at h
  cases hrun : readHeader.runAt (Cursor.start bytes) with
  | mk result c =>
    rw [hrun] at h
    cases result with
    | error e => exact absurd rfl (h e)
    | ok declared => exact ⟨declared.1, declared.2, c, rfl⟩

/-- The fault that comes with a partial record is the one that the survey met. -/
theorem next_of_decode_eq_parse {r : ClassRecord} {fault : ParseError}
    (h : decode bytes = .error (.incomplete r (.parse fault)))
    (hheader : readHeader.runAt (Cursor.start bytes) = (.ok (pool, header), c)) :
    (survey pool c).next = .error fault := by
  rw [decode_of_readHeader hheader] at h
  cases hnext : (survey pool c).next with
  | error e =>
    simp only [hnext] at h
    cases h
    rfl
  | ok c' =>
    simp only [hnext] at h
    split at h <;> nomatch h

/-- A whole record is that of all visits, none of which repeats an element name. -/
theorem of_decode_eq_ok {r : ClassRecord} (h : decode bytes = .ok r) :
    ∃ pool header c c', readHeader.runAt (Cursor.start bytes) = (.ok (pool, header), c) ∧
      (survey pool c).next = .ok c' ∧ (∀ v ∈ (survey pool c).whole, v.part.repeatsName = false) ∧
      r = Visit.record header (survey pool c).whole := by
  rcases eq_of_decode_eq_ok h with ⟨pool, header, c, parts, c', hheader, hbody, hrepeats, rfl⟩
  rcases agrees_survey pool c with ⟨hparts, hnext, -⟩
  rw [hbody] at hparts hnext
  subst hparts
  refine ⟨pool, header, c, c', hheader, hnext.symm, fun v hv => ?_, rfl⟩
  simpa using List.any_eq_false.1 hrepeats v.part (List.mem_map_of_mem hv)

/-- The record that decoding gives, whole or partial. -/
def recordOf? : Except DecodeError ClassRecord → Option ClassRecord
  | .ok r => some r
  | .error (.incomplete r _) => some r
  | .error (.malformed _) => none

/-- A record has on every bearer what the visits that came to their end gave for it. -/
theorem usagesOn_of_recordOf? {r : ClassRecord} (h : recordOf? (decode bytes) = some r) :
    ∃ pool header c, readHeader.runAt (Cursor.start bytes) = (.ok (pool, header), c) ∧
      ∀ bearer, r.usagesOn bearer = (Visit.gathered (survey pool c).whole bearer).map Usage.distinct := by
  have hbody : ∀ e, decode bytes ≠ .error (.malformed e) := by
    intro e he
    simp [he, recordOf?] at h
  rcases exists_readHeader hbody with ⟨pool, header, c, hheader⟩
  have hrecord := Visit.usagesOn_record (isBare_readHeader hheader) (survey pool c).whole
  have hpartial : ∀ bearer, ClassRecord.usagesOn
      { Visit.record header (survey pool c).whole with isPartial := true } bearer =
        (Visit.record header (survey pool c).whole).usagesOn bearer := fun bearer => by cases bearer <;> rfl
  refine ⟨pool, header, c, hheader, ?_⟩
  rw [decode_of_readHeader hheader] at h
  cases hnext : (survey pool c).next with
  | error e =>
    simp only [hnext, recordOf?, Option.some.injEq] at h
    subst h
    exact fun bearer => (hpartial bearer).trans (hrecord bearer)
  | ok c' =>
    simp only [hnext] at h
    split at h <;> simp only [recordOf?, Option.some.injEq] at h <;> subst h
    · exact fun bearer => (hpartial bearer).trans (hrecord bearer)
    · exact hrecord

end ClassFile

end ClassCatalog
