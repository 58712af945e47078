import ClassCatalog.NameMap

/-!
# Finite sets of names

A set of names is a map to nothing; it lists its members in increasing order.
-/

namespace ClassCatalog

/-- A finite set of names. -/
abbrev NameSet := NameMap Unit

namespace NameSet

def add (s : NameSet) (name : String) : NameSet := s.insert name ()

def addAll (s : NameSet) (names : List String) : NameSet := names.foldl add s

def ofNames (names : List String) : NameSet := addAll ∅ names

theorem contains_add (s : NameSet) (name other : String) :
    (s.add name).contains other = (other == name || s.contains other) := by
  simp only [NameMap.contains, add, NameMap.find?_insert]
  split <;> rename_i h <;> simp [h]

theorem contains_addAll (s : NameSet) (names : List String) (other : String) :
    (s.addAll names).contains other = (names.contains other || s.contains other) := by
  induction names generalizing s with
  | nil => simp [addAll]
  | cons name names ih =>
    have := ih (s.add name)
    simp only [addAll, List.foldl_cons] at this ⊢
    rw [this, contains_add, List.contains_cons]
    cases (other == name) <;> cases (names.contains other) <;> simp

theorem contains_ofNames (names : List String) (other : String) :
    (ofNames names).contains other = names.contains other := by
  rw [ofNames, contains_addAll]
  simp [NameMap.contains, EmptyCollection.emptyCollection]

end NameSet

end ClassCatalog
