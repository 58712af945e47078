import ClassCatalog.Cache.Scan
import ClassCatalog.Proofs.ClassFile.Bearers

/-!
# What an index says of its entries

`Index.IsScanOf`: the record of a name is that of the first entry that holds one of the name, whole or partial. Of
every entry it is noted, in their order, why there is no whole record of it and then whether its name was taken
(`ClassEntry.remarks`), and the index is incomplete if anything was noted. An entry that holds no record is noted, and
changes nothing else (`classes_ofEntries_congr`).
-/

namespace ClassCatalog

/-! ### Whole records -/

namespace ClassFile

theorem Part.isPartial_addTo (r : ClassRecord) (part : Part) : (addTo r part).isPartial = r.isPartial := by
  cases part with
  | field | classAttribute => rfl
  | method key us ps =>
    simp only [addTo]
    split <;> rfl

theorem isPartial_assembleRecord (header : ClassRecord) (parts : List Part) :
    (assembleRecord header parts).isPartial = header.isPartial := by
  unfold assembleRecord
  induction parts generalizing header with
  | nil => rfl
  | cons part parts ih => exact (ih _).trans (Part.isPartial_addTo header part)

theorem isPartial_of_decode_eq_ok {bytes : Bytes} {r : ClassRecord} (h : decode bytes = .ok r) :
    r.isPartial = false := by
  obtain ⟨pool, header, c, parts, c', hheader, -, -, rfl⟩ := eq_of_decode_eq_ok h
  obtain ⟨name, superclass, interfaces, modifiers, rfl⟩ := eq_of_readHeader hheader
  exact isPartial_assembleRecord _ parts

end ClassFile

/-! ### Entries -/

namespace ClassEntry

/-- The record that an entry holds, whole or partial. -/
def record? (e : ClassEntry) : Option ClassRecord := ClassFile.recordOf? (ClassFile.decode e.bytes)

/-- Why there is no whole record of an entry. -/
def fault? (e : ClassEntry) : Option String :=
  match ClassFile.decode e.bytes with
  | .ok _ => none
  | .error fault => some fault.reason

def isMalformed (e : ClassEntry) : Bool :=
  match ClassFile.decode e.bytes with
  | .error (.malformed _) => true
  | _ => false

/-- The record that an entry holds, if it is of this name. -/
def recordNamed? (name : String) (e : ClassEntry) : Option ClassRecord := e.record?.filter (·.name == name)

/-- Whether an entry holds a record of this name. -/
def holds (name : String) (e : ClassEntry) : Bool := (e.recordNamed? name).isSome

/-- What is noted of an entry: its own fault, and then that the name of its record is taken. -/
def remarks (taken : String → Bool) (e : ClassEntry) : List (String × String) :=
  (match e.fault? with
    | some reason => [(e.name, reason)]
    | none => []) ++
  match e.record? with
  | some r => if taken r.name then [(e.name, Index.duplicateReason r.name)] else []
  | none => []

/-- What is noted of entries that come behind others. -/
def remarksBehind (before : List ClassEntry) : List ClassEntry → List (String × String)
  | [] => []
  | e :: rest => e.remarks (fun name => before.any (holds name)) ++ remarksBehind (before ++ [e]) rest

variable {e : ClassEntry} {name : String} {r : ClassRecord}

theorem recordNamed?_eq_some_iff : e.recordNamed? name = some r ↔ e.record? = some r ∧ r.name = name := by
  simp [recordNamed?, Option.filter_eq_some_iff]

theorem holds_eq_false_iff : e.holds name = false ↔ e.recordNamed? name = none := by
  simp [holds]

theorem recordNamed?_of_isMalformed (h : e.isMalformed = true) (name : String) : e.recordNamed? name = none := by
  unfold isMalformed at h
  unfold recordNamed? record?
  cases hdecode : ClassFile.decode e.bytes with
  | ok r => simp [hdecode] at h
  | error fault =>
    cases fault with
    | malformed => rfl
    | incomplete r => simp [hdecode] at h

theorem findSome?_filter_isMalformed (name : String) (entries : List ClassEntry) :
    (entries.filter (!·.isMalformed)).findSome? (recordNamed? name) = entries.findSome? (recordNamed? name) := by
  induction entries with
  | nil => rfl
  | cons e entries ih =>
    rw [List.findSome?_cons, ← ih]
    cases hmalformed : e.isMalformed with
    | true =>
      rw [List.filter_cons_of_neg (by simp [hmalformed]), recordNamed?_of_isMalformed hmalformed]
    | false => rw [List.filter_cons_of_pos (by simp [hmalformed]), List.findSome?_cons]

end ClassEntry

/-! ### One entry -/

namespace Index

variable {index : Index}

theorem find?_insert (entry : String) (r : ClassRecord) (name : String) :
    (index.insert entry r).classes.find? name =
      (index.classes.find? name).or (if r.name = name then some r else none) := by
  unfold insert
  cases hfind : index.classes.find? r.name with
  | some first =>
    rw [if_pos (by simp [NameMap.contains, hfind])]
    by_cases hname : r.name = name
    · subst hname
      simp [recordFailure, hfind]
    · simp [recordFailure, hname]
  | none =>
    rw [if_neg (by simp [NameMap.contains, hfind])]
    simp only [NameMap.find?_insert]
    by_cases hname : r.name = name
    · subst hname
      simp [hfind]
    · simp [hname, Ne.symm hname]

theorem failures_insert (entry : String) (r : ClassRecord) :
    (index.insert entry r).failures =
      index.failures ++ if index.classes.contains r.name then [(entry, duplicateReason r.name)] else [] := by
  unfold insert
  split <;> simp [recordFailure]

theorem incomplete_insert (entry : String) (r : ClassRecord) :
    (index.insert entry r).incomplete =
      (index.incomplete || index.classes.contains r.name || r.isPartial) := by
  unfold insert
  split
  next htaken => simp [recordFailure, htaken]
  next hfree => simp [hfree]

theorem find?_take (e : ClassEntry) (name : String) :
    (index.take e).1.classes.find? name = (index.classes.find? name).or (e.recordNamed? name) := by
  unfold take ClassEntry.recordNamed? ClassEntry.record?
  cases ClassFile.decode e.bytes with
  | ok r => simp [find?_insert, ClassFile.recordOf?, Option.filter]
  | error fault =>
    cases fault with
    | malformed => simp [recordFailure, ClassFile.recordOf?]
    | incomplete r => simp [find?_insert, recordFailure, ClassFile.recordOf?, Option.filter]

theorem failures_take (e : ClassEntry) :
    (index.take e).1.failures = index.failures ++ e.remarks index.classes.contains := by
  unfold take ClassEntry.remarks ClassEntry.fault? ClassEntry.record?
  cases ClassFile.decode e.bytes with
  | ok r => simp [failures_insert, ClassFile.recordOf?]
  | error fault =>
    cases fault with
    | malformed => simp [recordFailure, ClassFile.recordOf?]
    | incomplete r => simp [failures_insert, recordFailure, ClassFile.recordOf?]

/-- An index becomes incomplete when something is noted in it, and only then. -/
theorem incomplete_take (e : ClassEntry) (h : index.incomplete = !index.failures.isEmpty) :
    (index.take e).1.incomplete = !(index.take e).1.failures.isEmpty := by
  rw [failures_take]
  unfold take ClassEntry.remarks ClassEntry.fault? ClassEntry.record?
  cases hdecode : ClassFile.decode e.bytes with
  | ok r =>
    -- A record without a fault is whole.
    have hwhole := ClassFile.isPartial_of_decode_eq_ok hdecode
    cases htaken : index.classes.contains r.name <;>
      simp [incomplete_insert, h, ClassFile.recordOf?, htaken, hwhole]
  | error fault =>
    cases fault with
    | malformed => simp [recordFailure]
    | incomplete r => simp [incomplete_insert, recordFailure]

/-! ### All entries -/

/-- The index says of the entries all that there is to say. -/
structure IsScanOf (index : Index) (entries : List ClassEntry) : Prop where
  classes {name : String} {r : ClassRecord} : index.classes.find? name = some r ↔
    ∃ before e after, entries = before ++ e :: after ∧ e.record? = some r ∧ r.name = name ∧
      ∀ d ∈ before, d.holds name = false
  failures : index.failures = ClassEntry.remarksBehind [] entries
  incomplete : index.incomplete = true ↔ index.failures ≠ []

variable {identity identity' : Identity} {entries entries' : List ClassEntry}

theorem find?_ofEntries (name : String) :
    (ofEntries identity entries).classes.find? name = entries.findSome? (ClassEntry.recordNamed? name) := by
  suffices hfold : ∀ index : Index, (entries.foldl (fun index e => (index.take e).1) index).classes.find? name =
      (index.classes.find? name).or (entries.findSome? (ClassEntry.recordNamed? name)) from hfold _
  induction entries with
  | nil => simp
  | cons e entries ih =>
    intro index
    rw [List.foldl_cons, ih, find?_take, Option.or_assoc, List.findSome?_cons]
    cases e.recordNamed? name <;> rfl

theorem failures_ofEntries : (ofEntries identity entries).failures = ClassEntry.remarksBehind [] entries := by
  suffices hfold : ∀ (before : List ClassEntry) (index : Index),
      (index.classes.contains = fun name => before.any (ClassEntry.holds name)) →
        (entries.foldl (fun index e => (index.take e).1) index).failures =
          index.failures ++ ClassEntry.remarksBehind before entries from hfold [] _ rfl
  induction entries with
  | nil => simp [ClassEntry.remarksBehind]
  | cons e entries ih =>
    intro before index htaken
    have htaken' : (index.take e).1.classes.contains = fun name => (before ++ [e]).any (ClassEntry.holds name) := by
      funext name
      have hcontains := congrFun htaken name
      simp only [NameMap.contains] at hcontains ⊢
      simp [find?_take, hcontains, ClassEntry.holds]
    rw [List.foldl_cons, ih _ _ htaken', failures_take, htaken, List.append_assoc, ClassEntry.remarksBehind]

theorem incomplete_ofEntries :
    (ofEntries identity entries).incomplete = !(ofEntries identity entries).failures.isEmpty := by
  unfold ofEntries
  suffices hfold : ∀ index : Index, (index.incomplete = !index.failures.isEmpty) →
      (entries.foldl (fun index e => (index.take e).1) index).incomplete =
        !(entries.foldl (fun index e => (index.take e).1) index).failures.isEmpty from hfold _ rfl
  induction entries with
  | nil => exact fun _ h => h
  | cons e entries ih => exact fun _ h => ih _ (incomplete_take e h)

theorem isScanOf_ofEntries (identity : Identity) (entries : List ClassEntry) :
    (ofEntries identity entries).IsScanOf entries where
  classes {name r} := by
    rw [find?_ofEntries, List.findSome?_eq_some_iff]
    simp only [ClassEntry.recordNamed?_eq_some_iff, ClassEntry.holds_eq_false_iff, and_assoc]
  failures := failures_ofEntries
  incomplete := by simp [incomplete_ofEntries]

/-- Malformed entries make no difference to the classes. -/
theorem classes_ofEntries_congr (h : entries.filter (!·.isMalformed) = entries'.filter (!·.isMalformed)) :
    (ofEntries identity entries).classes = (ofEntries identity' entries').classes := by
  refine NameMap.ext_find? fun name => ?_
  rw [find?_ofEntries, find?_ofEntries, ← ClassEntry.findSome?_filter_isMalformed, h,
    ClassEntry.findSome?_filter_isMalformed]

end Index

end ClassCatalog
