import ClassCatalog.Container.Policy

/-!
# Container tables

A table lists the containers of a view: name, signature and policy of each. Comparing an earlier
table with a later one tells the first thing that changed.
-/

namespace ClassCatalog

/-- One container of a view. -/
structure ContainerRow where
  name : String
  /-- The stamp of the container's identity. -/
  signature : String
  policy : ScanPolicy
  deriving DecidableEq, Repr, Inhabited

/-- The first thing that differs between two tables. -/
inductive TableChange where
  | count (before after : Nat)
  | name (position : Nat) (before after : String)
  | signature (name before after : String)
  | policy (name : String) (before after : ScanPolicy)
  deriving DecidableEq, Repr

namespace TableChange

/-- The wording of a change. -/
def message : TableChange → String
  | .count before after =>
    "container count changed from " ++ toString before ++ " to " ++ toString after
  | .name position before after =>
    "container " ++ toString position ++ " changed from " ++ before ++ " to " ++ after
  | .signature container before after =>
    container ++ " changed signature from " ++ before ++ " to " ++ after
  | .policy container before after =>
    container ++ " changed policy from " ++ before.name ++ " to " ++ after.name

/-- What differs first between two rows at one position. -/
def ofRows? (position : Nat) (before after : ContainerRow) : Option TableChange :=
  if before.name ≠ after.name then some (.name position before.name after.name)
  else if before.signature ≠ after.signature then
    some (.signature after.name before.signature after.signature)
  else if before.policy ≠ after.policy then some (.policy after.name before.policy after.policy)
  else none

/-- What differs first between rows from `position` on. -/
def firstFrom? : Nat → List ContainerRow → List ContainerRow → Option TableChange
  | position, before :: befores, after :: afters =>
    (ofRows? position before after).or (firstFrom? (position + 1) befores afters)
  | _, _, _ => none

/-- What differs first between an earlier and a later table. -/
def between? (before after : List ContainerRow) : Option TableChange :=
  if before.length ≠ after.length then some (.count before.length after.length)
  else firstFrom? 0 before after

end TableChange

end ClassCatalog
