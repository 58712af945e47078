import ClassCatalog.View.Basic

/-!
# The definition that counts

`View.winner` says it without the merge: of the containers in their order, the first that has a
record under a name decides. `find?_lookup_ofContainers` shows that the merge enters every name at
the least position that defines it; the answers of a view about single names follow.
-/

namespace ClassCatalog

/-- Whether a container has a record under a name. -/
def ViewContainer.defines (c : ViewContainer) (name : String) : Bool := c.index.classes.contains name

namespace View

variable {containers rest : List ViewContainer} {name : String}

/-- The record of the first container that has one under the name. -/
def winner (containers : List ViewContainer) (name : String) : Option ClassRecord :=
  containers.findSome? fun c => c.index.classes.find? name

/-! ### The merge -/

theorem find?_define (position : Nat) (m : Merge) (other name : String) :
    (m.define containers position other).lookup.find? name =
      (m.lookup.find? name).or (if name = other then some position else none) := by
  unfold Merge.define
  cases h : m.lookup.find? other with
  | none =>
    dsimp only
    rw [NameMap.find?_insert]
    split
    · rename_i heq
      rw [heq, h]
      rfl
    · rw [Option.or_none]
  | some winner =>
    dsimp only
    split
    · rename_i heq
      rw [heq, h]
      rfl
    · rw [Option.or_none]

theorem find?_foldl_define (position : Nat) (names : List String) (m : Merge) (name : String) :
    (names.foldl (Merge.define containers position) m).lookup.find? name =
      (m.lookup.find? name).or (if name ∈ names then some position else none) := by
  induction names generalizing m with
  | nil => simp
  | cons other names ih =>
    rw [List.foldl_cons, ih, find?_define, Option.or_assoc]
    congr 1
    by_cases hhead : name = other <;> simp [hhead]

theorem mem_names_iff_defines {c : ViewContainer} :
    name ∈ c.index.classes.names ↔ c.defines name = true := by
  rw [NameMap.mem_names_iff, ViewContainer.defines, NameMap.contains, Option.isSome_iff_exists]

theorem find?_containersFrom (position : Nat) (rest : List ViewContainer) (m : Merge)
    (name : String) :
    (Merge.containersFrom containers position rest m).lookup.find? name =
      (m.lookup.find? name).or
        ((rest.findIdx? fun c => c.defines name).map fun i => i + position) := by
  induction rest generalizing position m with
  | nil => simp [Merge.containersFrom]
  | cons c rest ih =>
    rw [Merge.containersFrom, ih, find?_foldl_define, Option.or_assoc, List.findIdx?_cons]
    congr 1
    simp only [mem_names_iff_defines]
    split
    · simp
    · rw [Option.none_or, Option.map_map]
      congr 1
      funext i
      show i + (position + 1) = i + 1 + position
      omega

/-- A name is entered at the least position whose container defines it. -/
theorem find?_lookup_ofContainers (containers : List ViewContainer) (name : String) :
    (ofContainers containers).lookup.find? name =
      containers.findIdx? fun c => c.defines name := by
  have h : (Merge.containersFrom containers 0 containers {}).lookup.find? name = _ :=
    find?_containersFrom 0 containers {} name
  simpa [ofContainers, EmptyCollection.emptyCollection] using h

/-! ### Answers about single names -/

theorem containerOf?_ofContainers (containers : List ViewContainer) (name : String) :
    (ofContainers containers).containerOf? name = containers.find? fun c => c.defines name := by
  rw [containerOf?, find?_lookup_ofContainers]
  show ((containers.findIdx? fun c => c.defines name).bind fun p => containers[p]?) = _
  rw [List.find?_eq_bind_findIdx?_getElem?]

theorem class?_ofContainers (containers : List ViewContainer) (name : String) :
    (ofContainers containers).class? name = winner containers name := by
  rw [class?, containerOf?_ofContainers, winner]
  induction containers with
  | nil => rfl
  | cons c rest ih =>
    rw [List.find?_cons, List.findSome?_cons]
    cases hc : c.index.classes.find? name with
    | none =>
      have hdefines : c.defines name = false := by simp [ViewContainer.defines, NameMap.contains, hc]
      rw [hdefines]
      exact ih
    | some r =>
      have hdefines : c.defines name = true := by simp [ViewContainer.defines, NameMap.contains, hc]
      rw [hdefines]
      exact hc

theorem contains_ofContainers (containers : List ViewContainer) (name : String) :
    (ofContainers containers).contains name = (winner containers name).isSome := by
  rw [View.contains, NameMap.contains, find?_lookup_ofContainers, List.findIdx?_isSome, winner]
  induction containers with
  | nil => rfl
  | cons c rest ih =>
    rw [List.any_cons, List.findSome?_cons, ViewContainer.defines, NameMap.contains]
    cases c.index.classes.find? name with
    | none => exact ih
    | some r => rfl

end View

end ClassCatalog
