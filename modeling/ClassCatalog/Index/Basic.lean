import ClassCatalog.ClassRecord
import ClassCatalog.Container.Identity

/-!
# The index of a container

Everything read from one container: its classes by name, and which entries failed and why. Of two
entries with one class name the first counts, and the second is a failure.
-/

namespace ClassCatalog

/-- Everything read from one container. -/
structure Index where
  identity : Identity
  classes : NameMap ClassRecord := ∅
  /-- Whether some entry failed or some record is partial. -/
  incomplete : Bool := false
  /-- The entries that failed, in order, each with a reason. -/
  failures : List (String × String) := []
  deriving Inhabited

namespace Index

/-- Notes that an entry failed. -/
def recordFailure (index : Index) (entry reason : String) : Index :=
  { index with incomplete := true, failures := index.failures ++ [(entry, reason)] }

/-- The reason for which an entry's record is dropped. -/
def duplicateReason (name : String) : String := "duplicate definition of " ++ name

/-- Adds the record of an entry, unless its name is taken. -/
def insert (index : Index) (entry : String) (record : ClassRecord) : Index :=
  if index.classes.contains record.name then
    index.recordFailure entry (duplicateReason record.name)
  else
    { index with
      classes := index.classes.insert record.name record
      incomplete := index.incomplete || record.isPartial }

/-- Whether two indexes are the same, floats compared as numbers. -/
def same (a b : Index) : Bool :=
  a.identity == b.identity &&
  listSame (fun x y => x.1 == y.1 && ClassRecord.same x.2 y.2) a.classes.entries
    b.classes.entries &&
  a.incomplete == b.incomplete && a.failures == b.failures

end Index

end ClassCatalog
