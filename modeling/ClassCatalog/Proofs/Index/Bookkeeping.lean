import Mathlib.Data.List.Induction
import ClassCatalog.Proofs.Index.Filled
import ClassCatalog.Proofs.Index.Scanned

/-!
# What an index says of the calls that filled it

An index is filled by calls, each of which brings a record or reports a failure. The calls alone tell what has to stand
in it: of the records with one name the first, and a note of every failure and of every record whose name was taken
(`Index.notes`). `Index.Accounts` is that just this stands in the index. A call either is noted (`Accounts.noted`) or
brings a new name (`Accounts.added`), so every call keeps it (`Accounts.run`), and it holds of every index that calls
have filled (`calls_are_accounted_for`). These are the indexes that are `Filled` (`filled_iff_exists_calls`), those of scans
among them (`ofEntries_eq_ofCalls`).
-/

namespace ClassCatalog

namespace Index

/-! ### Calls -/

/-- What an index is asked to take. -/
inductive Call where
  | insert (entry : String) (record : ClassRecord)
  | recordFailure (entry reason : String)

namespace Call

def run : Call → Index → Index
  | insert entry record, index => index.insert entry record
  | recordFailure entry reason, index => index.recordFailure entry reason

def record? : Call → Option ClassRecord
  | insert _ record => some record
  | recordFailure .. => none

def isInsert : Call → Bool
  | insert .. => true
  | recordFailure .. => false

end Call

/-- A new index after calls. -/
def ofCalls (identity : Identity) (calls : List Call) : Index :=
  calls.foldl (fun index call => call.run index) { identity }

/-- The records that calls bring, in their order. -/
def records (calls : List Call) : List ClassRecord := calls.filterMap Call.record?

/-! ### What calls leave to be noted -/

/-- What is noted of a call that adds no record. -/
inductive Note where
  | failure (entry reason : String)
  | duplicate (entry name : String)

namespace Note

/-- What a note reads: the entry and the reason. -/
def line : Note → String × String
  | failure entry reason => (entry, reason)
  | duplicate entry name => (entry, duplicateReason name)

def isDuplicate : Note → Bool
  | failure .. => false
  | duplicate .. => true

end Note

/-- What is noted of a call that comes behind others. -/
def Call.note? (before : List Call) : Call → Option Note
  | insert entry record =>
    if (records before).any (·.name == record.name) then some (.duplicate entry record.name) else none
  | recordFailure entry reason => some (.failure entry reason)

/-- What is noted of calls that come behind others. -/
def notesBehind (before : List Call) : List Call → List Note
  | [] => []
  | call :: rest => (call.note? before).toList ++ notesBehind (before ++ [call]) rest

/-- What is noted of calls on a new index. -/
def notes (calls : List Call) : List Note := notesBehind [] calls

variable {index : Index} {calls : List Call} {call : Call}

theorem ofCalls_concat (identity : Identity) (calls : List Call) (call : Call) :
    ofCalls identity (calls ++ [call]) = call.run (ofCalls identity calls) :=
  List.foldl_append ..

theorem records_concat (calls : List Call) (call : Call) :
    records (calls ++ [call]) = records calls ++ call.record?.toList := by
  rw [records, List.filterMap_append]
  cases call <;> rfl

theorem notesBehind_concat (before calls : List Call) (call : Call) :
    notesBehind before (calls ++ [call]) = notesBehind before calls ++ (call.note? (before ++ calls)).toList := by
  induction calls generalizing before with
  | nil => simp [notesBehind]
  | cons first calls ih => simp [notesBehind, ih]

theorem notes_concat (calls : List Call) (call : Call) :
    notes (calls ++ [call]) = notes calls ++ (call.note? calls).toList :=
  notesBehind_concat [] calls call

theorem note?_insert {before : List Call} {entry : String} {record : ClassRecord} {note : Note} :
    (Call.insert entry record).note? before = some note ↔
      (records before).any (·.name == record.name) = true ∧ .duplicate entry record.name = note := by
  rw [Call.note?, Option.ite_none_right_eq_some, Option.some_inj]

/-- A record that is noted is not the first of its name. -/
theorem find?_records_of_note {note : Note} (hnote : call.note? calls = some note) (name : String) :
    (records (calls ++ [call])).find? (·.name == name) = (records calls).find? (·.name == name) := by
  rw [records_concat, List.find?_append]
  cases call with
  | recordFailure => exact Option.or_none
  | insert entry record =>
    have htaken := (note?_insert.1 hnote).1
    rw [← List.isSome_find?] at htaken
    -- Under its own name another stands before it, and under a different one it is not found.
    by_cases hname : record.name = name
    · exact Option.or_of_isSome (hname ▸ htaken)
    · simp [Call.record?, hname]

theorem isDuplicate_of_note {note : Note} (hnote : call.note? calls = some note) :
    note.isDuplicate = call.isInsert := by
  cases call with
  | recordFailure =>
    cases hnote
    rfl
  | insert =>
    obtain ⟨-, rfl⟩ := note?_insert.1 hnote
    rfl

/-! ### One call -/

/-- The index holds what the calls brought, and says of them all that there is to say. -/
structure Accounts (index : Index) (calls : List Call) : Prop where
  classes (name : String) : index.classes.find? name = (records calls).find? (·.name == name)
  incomplete : index.incomplete = true ↔
    index.failures ≠ [] ∨ ∃ name r, index.classes.find? name = some r ∧ r.isPartial = true
  failures : index.failures = (notes calls).map Note.line
  inserts : calls.countP Call.isInsert = index.classes.size + (notes calls).countP Note.isDuplicate

namespace Accounts

theorem new (identity : Identity) : Accounts { identity } [] where
  classes _ := rfl
  incomplete := by simp [EmptyCollection.emptyCollection]
  failures := rfl
  inserts := rfl

theorem contains (h : index.Accounts calls) (name : String) :
    index.classes.contains name = (records calls).any (·.name == name) := by
  rw [NameMap.contains, h.classes, List.isSome_find?]

/-- A call that is noted leaves the classes as they are. -/
theorem noted (h : index.Accounts calls) {note : Note} (hnote : call.note? calls = some note) :
    (index.recordFailure note.line.1 note.line.2).Accounts (calls ++ [call]) where
  classes name := (h.classes name).trans (find?_records_of_note hnote name).symm
  incomplete := by simp [recordFailure]
  failures := by simp [recordFailure, h.failures, notes_concat, hnote]
  inserts := by
    rw [notes_concat, hnote, List.countP_append, List.countP_append, h.inserts, Option.toList_some,
      List.countP_singleton, List.countP_singleton, isDuplicate_of_note hnote]
    exact Nat.add_assoc ..

/-- Under a new name a record is added to those that are held. -/
theorem exists_partial_insert {record : ClassRecord} (hfree : index.classes.find? record.name = none)
    (entry : String) :
    (∃ name r, (index.insert entry record).classes.find? name = some r ∧ r.isPartial = true) ↔
      (∃ name r, index.classes.find? name = some r ∧ r.isPartial = true) ∨ record.isPartial = true := by
  simp only [find?_insert, Option.or_eq_some_iff, Option.ite_none_right_eq_some]
  constructor
  · rintro ⟨name, r, hheld | ⟨-, -, hr⟩, hpartial⟩
    · exact .inl ⟨name, r, hheld, hpartial⟩
    · cases hr
      exact .inr hpartial
  · rintro (⟨name, r, hheld, hpartial⟩ | hpartial)
    · exact ⟨name, r, .inl hheld, hpartial⟩
    · exact ⟨record.name, record, .inr ⟨hfree, rfl, rfl⟩, hpartial⟩

/-- A new name stands with its record in the index. -/
theorem added (h : index.Accounts calls) (entry : String) {record : ClassRecord}
    (hfree : index.classes.contains record.name = false) :
    (index.insert entry record).Accounts (calls ++ [.insert entry record]) := by
  have hnone : index.classes.find? record.name = none := by simpa [NameMap.contains] using hfree
  have hnotes : notes (calls ++ [.insert entry record]) = notes calls := by
    simp [notes_concat, Call.note?, ← h.contains, hfree]
  have hfailures : (index.insert entry record).failures = index.failures := by
    simp [failures_insert, hfree]
  constructor
  case classes =>
    intro name
    rw [find?_insert, records_concat, List.find?_append, h.classes]
    by_cases hname : record.name = name <;> simp [Call.record?, hname]
  case incomplete =>
    rw [hfailures, exists_partial_insert hnone, ← or_assoc, ← h.incomplete, incomplete_insert, hfree]
    simp
  case failures => rw [hfailures, hnotes, h.failures]
  case inserts =>
    have hsize : (index.insert entry record).classes.size = index.classes.size + 1 := by
      simp [insert, hfree, NameMap.size_insert hnone]
    rw [hnotes, hsize, List.countP_append, h.inserts, Nat.add_right_comm]
    rfl

theorem run (h : index.Accounts calls) (call : Call) : (call.run index).Accounts (calls ++ [call]) := by
  cases call with
  | recordFailure entry reason =>
    have hnote : (Call.recordFailure entry reason).note? calls = some (.failure entry reason) := rfl
    exact h.noted hnote
  | insert entry record =>
    cases htaken : index.classes.contains record.name with
    | false => exact h.added entry htaken
    | true =>
      have hnote : (Call.insert entry record).note? calls = some (.duplicate entry record.name) := by
        rw [Call.note?, ← h.contains, if_pos htaken]
      have hdropped : index.insert entry record = index.recordFailure entry (duplicateReason record.name) :=
        if_pos htaken
      rw [Call.run, hdropped]
      exact h.noted hnote

end Accounts

/-! ### All calls -/

theorem accounts_ofCalls (identity : Identity) (calls : List Call) : (ofCalls identity calls).Accounts calls := by
  induction calls using List.reverseRecOn with
  | nil => exact .new identity
  | append_singleton calls call ih =>
    rw [ofCalls_concat]
    exact ih.run call

/-- The indexes that were filled are those that calls have filled. -/
theorem filled_iff_exists_calls : index.Filled ↔ ∃ identity calls, ofCalls identity calls = index := by
  constructor
  · intro h
    induction h with
    | empty identity => exact ⟨identity, [], rfl⟩
    | insert _ entry record ih =>
      obtain ⟨identity, calls, rfl⟩ := ih
      exact ⟨identity, calls ++ [.insert entry record], ofCalls_concat ..⟩
    | recordFailure _ entry reason ih =>
      obtain ⟨identity, calls, rfl⟩ := ih
      exact ⟨identity, calls ++ [.recordFailure entry reason], ofCalls_concat ..⟩
  · rintro ⟨identity, calls, rfl⟩
    induction calls using List.reverseRecOn with
    | nil => exact .empty identity
    | append_singleton calls call ih =>
      rw [ofCalls_concat]
      cases call with
      | insert entry record => exact ih.insert entry record
      | recordFailure entry reason => exact ih.recordFailure entry reason

/-- Whatever a new index is asked to take, every record stands under its own name and each name holds the first record
of that name. The index is incomplete if something was noted or a record that it holds is partial, and only then. Its
failures are those that were reported and the records whose names were taken, in the order of the calls, so that every
record that came is a class or a note. -/
theorem calls_are_accounted_for (identity : Identity) (calls : List Call) :
    let index := ofCalls identity calls
    index.Keyed ∧
      (∀ name, index.classes.find? name = (records calls).find? (·.name == name)) ∧
      (index.incomplete = true ↔
        index.failures ≠ [] ∨ ∃ name r, index.classes.find? name = some r ∧ r.isPartial = true) ∧
      index.failures = (notes calls).map Note.line ∧
      calls.countP Call.isInsert = index.classes.size + (notes calls).countP Note.isDuplicate := by
  have hfilled : (ofCalls identity calls).Filled := filled_iff_exists_calls.2 ⟨identity, calls, rfl⟩
  obtain ⟨hclasses, hincomplete, hfailures, hinserts⟩ := accounts_ofCalls identity calls
  exact ⟨hfilled.keyed, hclasses, hincomplete, hfailures, hinserts⟩

/-- A record that is dropped does not count as partial, and is noted behind the failure that came before it. -/
example :
    let index := ofCalls default [.insert "a/A.class" { name := "a.A" }, .recordFailure "b/B.class" "torn",
      .insert "c/A.class" { name := "a.A", isPartial := true }]
    index.classes.values.map (·.isPartial) = [false] ∧
      index.failures = [("b/B.class", "torn"), ("c/A.class", "duplicate definition of a.A")] := by
  decide +kernel

end Index

/-! ### Scans -/

/-- The calls that a scan makes for an entry: its fault is reported, and the record that it holds is added. -/
def ClassEntry.calls (e : ClassEntry) : List Index.Call :=
  (e.fault?.map (.recordFailure e.name)).toList ++ (e.record?.map (.insert e.name)).toList

namespace Index

theorem take_eq_foldl_calls (index : Index) (e : ClassEntry) :
    (index.take e).1 = e.calls.foldl (fun index call => call.run index) index := by
  unfold take ClassEntry.calls ClassEntry.fault? ClassEntry.record?
  cases ClassFile.decode e.bytes with
  | ok r => rfl
  | error fault => cases fault <;> rfl

theorem ofEntries_eq_ofCalls (identity : Identity) (entries : List ClassEntry) :
    ofEntries identity entries = ofCalls identity (entries.flatMap ClassEntry.calls) := by
  simp only [ofEntries, ofCalls, List.foldl_flatMap, take_eq_foldl_calls]

theorem filled_ofEntries (identity : Identity) (entries : List ClassEntry) : (ofEntries identity entries).Filled :=
  filled_iff_exists_calls.2 ⟨identity, _, (ofEntries_eq_ofCalls identity entries).symm⟩

end Index

end ClassCatalog
