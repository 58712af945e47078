import ClassCatalog.Index.Basic

/-!
# Indexes that were filled

`Index.Filled`: nothing but records and failures were ever added to the index. Then every record
stands under its own name (`Index.Keyed`).
-/

namespace ClassCatalog.Index

/-- An index without entries, or one to which a record or a failure was added. -/
inductive Filled : Index → Prop
  | empty (identity : Identity) : Filled { identity }
  | insert {index : Index} (h : Filled index) (entry : String) (record : ClassRecord) :
    Filled (index.insert entry record)
  | recordFailure {index : Index} (h : Filled index) (entry reason : String) :
    Filled (index.recordFailure entry reason)

/-- The names of the records added are their keys. -/
theorem Filled.name_eq {index : Index} (h : index.Filled) {name : String} {r : ClassRecord}
    (hr : index.classes.find? name = some r) : r.name = name := by
  induction h with
  | empty identity => simp [EmptyCollection.emptyCollection] at hr
  | insert _ entry record ih =>
    unfold Index.insert at hr
    split at hr
    · exact ih hr
    · simp only [NameMap.find?_insert] at hr
      split at hr
      · rename_i heq
        cases hr
        exact heq.symm
      · exact ih hr
  | recordFailure _ entry reason ih => exact ih hr

/-- Every record stands under its own name. -/
def Keyed (index : Index) : Prop :=
  ∀ name r, index.classes.find? name = some r → r.name = name

theorem Filled.keyed {index : Index} (h : index.Filled) : index.Keyed := fun _ _ => h.name_eq

end ClassCatalog.Index
