import ClassCatalog.Index.Basic
import ClassCatalog.NameSet
import ClassCatalog.View.Table

/-!
# Module views

A view merges the indexes of containers in their order. A class name belongs to the first container
that defines it; each later definition is shadowed. The merge keeps, for every name, the position of
its container and, in the order in which they come up, the shadowed definitions.
-/

namespace ClassCatalog

/-- A container of a view and its index. -/
structure ViewContainer where
  spec : ContainerSpec
  index : Index
  /-- Which loading of the container made the index. -/
  serial : Nat := 0
  deriving Inhabited

/-- The name of a container in a view. -/
def ViewContainer.name (c : ViewContainer) : String := c.spec.location.logicalPath

/-- A class definition hidden by an earlier container. -/
structure Shadowed where
  className : String
  winner : String
  shadowed : String
  deriving DecidableEq, Repr, Inhabited

/-- Containers merged in their order. -/
structure View where
  containers : List ViewContainer
  /-- For each class name the position of its container. -/
  lookup : NameMap Nat
  shadowed : List Shadowed
  deriving Inhabited

namespace View

/-- What has been merged so far. -/
structure Merge where
  lookup : NameMap Nat := ∅
  shadowed : List Shadowed := []

/-- Takes up a definition of `name` in the container at `position`. -/
def Merge.define (containers : List ViewContainer) (position : Nat) (m : Merge) (name : String) :
    Merge :=
  match m.lookup.find? name with
  | none => { m with lookup := m.lookup.insert name position }
  | some winner =>
    let nameAt (p : Nat) : String := (containers[p]?.map ViewContainer.name).getD ""
    { m with shadowed := m.shadowed ++ [⟨name, nameAt winner, nameAt position⟩] }

/-- Takes up the definitions of the containers from `position` on. -/
def Merge.containersFrom (containers : List ViewContainer) :
    Nat → List ViewContainer → Merge → Merge
  | _, [], m => m
  | position, c :: rest, m =>
    Merge.containersFrom containers (position + 1) rest
      (c.index.classes.names.foldl (Merge.define containers position) m)

/-- The view of containers in their order. -/
def ofContainers (containers : List ViewContainer) : View :=
  let m := Merge.containersFrom containers 0 containers {}
  { containers, lookup := m.lookup, shadowed := m.shadowed }

/-- Whether some container defines a class. -/
def contains (v : View) (name : String) : Bool := v.lookup.contains name

/-- The container whose definition of a class counts. -/
def containerOf? (v : View) (name : String) : Option ViewContainer :=
  (v.lookup.find? name).bind fun position => v.containers[position]?

/-- The definition of a class that counts. -/
def class? (v : View) (name : String) : Option ClassRecord :=
  (v.containerOf? name).bind fun c => c.index.classes.find? name

/-- The names of the classes, in their order. -/
def classNames (v : View) : List String := v.lookup.names

/-- The definitions that count, in the order of their names. -/
def classes (v : View) : List ClassRecord := v.classNames.filterMap v.class?

/-- The definitions that count and stand in containers with one of the policies. -/
def classesWithPolicy (v : View) (policies : List ScanPolicy) : List ClassRecord :=
  v.classNames.filterMap fun name =>
    (v.containerOf? name).bind fun c =>
      if policies.contains c.spec.policy then c.index.classes.find? name else none

/-- The containers whose index lacks something. -/
def incompleteContainers (v : View) : List ViewContainer :=
  v.containers.filter fun c => c.index.incomplete

/-- The table of the containers, unless some identity has no stamp. -/
def table? (v : View) : Option (List ContainerRow) :=
  v.containers.mapM fun c =>
    c.index.identity.stamp?.map fun stamp => ⟨c.name, stamp, c.spec.policy⟩

/-- Whether two views have the same containers and the same classes, floats compared as numbers. -/
def same? (v w : View) : Option Bool := do
  let before ← v.table?
  let after ← w.table?
  return before == after && v.lookup.size == w.lookup.size &&
    listSame ClassRecord.same v.classes w.classes

end View

end ClassCatalog
