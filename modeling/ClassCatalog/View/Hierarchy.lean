import ClassCatalog.View.Basic

/-!
# The type hierarchy of a view

Classes point to their superclass and interfaces by name. A name that no container defines is where
knowledge of the hierarchy ends. Every walk keeps the names it has seen, so that cycles end it too;
each class that is visited leaves fewer classes to visit (`unseen_lt`).
-/

namespace ClassCatalog.View

/-- How many defined classes are not among the names seen. -/
def unseen (v : View) (seen : List String) : Nat :=
  (v.classNames.filter fun n => !seen.contains n).length

theorem mem_classNames_of_class? {v : View} {name : String} {r : ClassRecord}
    (h : v.class? name = some r) : name ∈ v.classNames := by
  obtain ⟨c, hc, _⟩ := Option.bind_eq_some_iff.1 h
  obtain ⟨p, hp, _⟩ := Option.bind_eq_some_iff.1 hc
  exact NameMap.mem_names_iff.mpr ⟨p, hp⟩

/-- What is unseen after one more name was seen. -/
theorem filter_unseen_cons (names seen : List String) (name : String) :
    (names.filter fun n => !(name :: seen).contains n) =
      (names.filter fun n => !seen.contains n).filter fun n => !decide (n = name) := by
  rw [List.filter_filter]
  congr 1
  funext n
  simp

theorem unseen_cons_le (v : View) (name : String) (seen : List String) :
    v.unseen (name :: seen) ≤ v.unseen seen := by
  rw [unseen, filter_unseen_cons]
  exact List.Sublist.length_le List.filter_sublist

/-- Seeing a defined class for the first time leaves fewer classes unseen. -/
theorem unseen_lt {v : View} {name : String} {seen : List String} {r : ClassRecord}
    (h : v.class? name = some r) (hseen : ¬ seen.contains name) :
    v.unseen (name :: seen) < v.unseen seen := by
  have hmem : name ∈ v.classNames.filter fun n => !seen.contains n :=
    List.mem_filter.mpr ⟨mem_classNames_of_class? h, by simpa using hseen⟩
  rw [unseen, filter_unseen_cons]
  exact List.length_filter_lt_length_iff_exists.mpr ⟨name, hmem, by simp⟩

/-- The name and its superclasses, up to the first that is not defined, has no superclass or comes
up again. -/
def chainFrom (v : View) (seen : List String) (name : String) : List String :=
  if _hseen : seen.contains name then []
  else
    match _h : v.class? name with
    | none => [name]
    | some r =>
      match r.superclass with
      | none => [name]
      | some parent => name :: chainFrom v (name :: seen) parent
termination_by v.unseen seen
decreasing_by exact unseen_lt _h _hseen

theorem chainFrom_eq (v : View) (seen : List String) (name : String) :
    v.chainFrom seen name =
      if seen.contains name then []
      else
        match v.class? name with
        | none => [name]
        | some r =>
          match r.superclass with
          | none => [name]
          | some parent => name :: v.chainFrom (name :: seen) parent := by
  rw [View.chainFrom]
  split
  · rfl
  · split
    · rename_i hnone
      rw [hnone]
    · rename_i r hr
      cases hsuper : r.superclass with
      | none => simp only [hr, hsuper]
      | some parent => simp only [hr, hsuper]

/-- The name and its superclasses. -/
def superChain (v : View) (name : String) : List String := v.chainFrom [] name

/-- The definitions that a breadth-first walk comes to, each once, given the names seen and those in
line. -/
def walk (v : View) (seen : List String) (line : List String) : List ClassRecord :=
  match line with
  | [] => []
  | name :: rest =>
    if _hseen : seen.contains name then walk v seen rest
    else
      match _h : v.class? name with
      | none => walk v (name :: seen) rest
      | some r =>
        r :: walk v (name :: seen)
          (rest ++ r.directSupertypes.filter fun n => !(name :: seen).contains n)
termination_by (v.unseen seen, line.length)
decreasing_by
  · exact Prod.Lex.right _ (by simp)
  · rcases Nat.lt_or_eq_of_le (unseen_cons_le v name seen) with hlt | heq
    · exact Prod.Lex.left _ _ hlt
    · rw [heq]; exact Prod.Lex.right _ (by simp)
  · exact Prod.Lex.left _ _ (unseen_lt _h _hseen)

theorem walk_cons (v : View) (seen : List String) (name : String) (rest : List String) :
    v.walk seen (name :: rest) =
      if seen.contains name then v.walk seen rest
      else
        match v.class? name with
        | none => v.walk (name :: seen) rest
        | some r => r :: v.walk (name :: seen)
            (rest ++ r.directSupertypes.filter fun n => !(name :: seen).contains n) := by
  rw [View.walk]
  split
  · rfl
  · split
    · rename_i hnone
      rw [hnone]
    · rename_i hr
      rw [hr]

/-- The definitions reachable from a name, breadth first, its own included. -/
def ancestry (v : View) (name : String) : List ClassRecord := v.walk [] [name]

/-- The superclasses and interfaces reachable from a name. -/
def computeSupertypes (v : View) (name : String) : NameSet :=
  NameSet.ofNames ((v.ancestry name).flatMap ClassRecord.directSupertypes)

/-- The types of the annotations on the definitions reachable from a name. -/
def computeInherited (v : View) (name : String) : NameSet :=
  NameSet.ofNames ((v.ancestry name).flatMap ClassRecord.annotationNames)

/-! ### Answers kept -/

/-- The answers to earlier questions about a view. -/
structure Memo where
  inherited : NameMap NameSet := ∅
  supertypes : NameMap NameSet := ∅
  deriving Inhabited

/-- How many answers are kept. -/
def Memo.size (m : Memo) : Nat := m.inherited.size + m.supertypes.size

/-- Asks a question of a view, with earlier answers at hand. -/
abbrev Ask := StateM Memo

/-- The superclasses and interfaces reachable from a name. The name itself is among them only if the
hierarchy leads back to it. -/
def supertypes (v : View) (name : String) : Ask NameSet := do
  let memo ← get
  match memo.supertypes.find? name with
  | some names => return names
  | none =>
    let names := v.computeSupertypes name
    set { memo with supertypes := memo.supertypes.insert name names }
    return names

/-- The types of the annotations on a class and on all it is derived from. -/
def inheritedAnnotations (v : View) (name : String) : Ask NameSet := do
  let memo ← get
  match memo.inherited.find? name with
  | some names => return names
  | none =>
    let names := v.computeInherited name
    set { memo with inherited := memo.inherited.insert name names }
    return names

/-- The supertypes of a name that no container defines. -/
def boundaryTypes (v : View) (name : String) : Ask (List String) := do
  let names ← v.supertypes name
  return names.names.filter fun n => !v.contains n

/-- Forgets the answers kept. -/
def clearMemo : Ask Unit := set ({} : Memo)

end ClassCatalog.View
