import Mathlib.Logic.Relation
import ClassCatalog.Proofs.View.Winner
import ClassCatalog.View.Hierarchy

/-!
# What a walk over the hierarchy visits

`View.Extends containers a b`: the definition of `a` that counts names `b` as its superclass or as
an interface. The graph may have cycles, and names without a definition have no edges.

A walk with names seen and names in line visits what the line leads to around the names seen
(`Reaches`): `exists_walk_eq` says that these are all, that each is visited once, and that nothing
else is. When a name is taken off the line and seen, whatever it led to is now led to by its own
supertypes or by the rest of the line (`reaches_cons_iff`), which is the step of the induction.
-/

namespace ClassCatalog.View

open Relation

/-- The definition of `a` that counts names `b` as its superclass or as an interface. -/
def Extends (containers : List ViewContainer) (a b : String) : Prop :=
  ∃ r, winner containers a = some r ∧ (r.superclass = some b ∨ b ∈ r.interfaces)

theorem mem_directSupertypes {r : ClassRecord} {name : String} :
    name ∈ r.directSupertypes ↔ r.superclass = some name ∨ name ∈ r.interfaces := by
  simp [ClassRecord.directSupertypes]

theorem extends_iff {containers : List ViewContainer} {a b : String} {r : ClassRecord}
    (h : winner containers a = some r) : Extends containers a b ↔ b ∈ r.directSupertypes := by
  rw [mem_directSupertypes]
  constructor
  · rintro ⟨r', hr', hb⟩
    rw [h] at hr'
    cases hr'
    exact hb
  · exact fun hb => ⟨r, h, hb⟩

/-- One name leads to another without touching the names seen. -/
def Reaches (containers : List ViewContainer) (seen : List String) (a b : String) : Prop :=
  a ∉ seen ∧ ReflTransGen (fun x y => Extends containers x y ∧ y ∉ seen) a b

section
variable {containers : List ViewContainer} {seen rest : List String} {name a b : String}

theorem Reaches.refl (h : a ∉ seen) : Reaches containers seen a a := ⟨h, .refl⟩

theorem Reaches.tail {c : String} (h : Reaches containers seen a b) (hbc : Extends containers b c)
    (hc : c ∉ seen) : Reaches containers seen a c :=
  ⟨h.1, h.2.tail ⟨hbc, hc⟩⟩

theorem Reaches.head {c : String} (ha : a ∉ seen) (hab : Extends containers a b)
    (h : Reaches containers seen b c) : Reaches containers seen a c :=
  ⟨ha, .head ⟨hab, h.1⟩ h.2⟩

theorem Reaches.unseen (h : Reaches containers seen a b) : b ∉ seen := by
  rcases h.2.cases_tail with rfl | ⟨_, _, hlast⟩
  · exact h.1
  · exact hlast.2

/-- What is reached around more names is reached around fewer. -/
theorem Reaches.of_cons (h : Reaches containers (name :: seen) a b) :
    Reaches containers seen a b := by
  refine ⟨fun hmem => h.1 (List.mem_cons_of_mem _ hmem), ReflTransGen.mono ?_ _ _ h.2⟩
  exact fun x y hxy => ⟨hxy.1, fun hmem => hxy.2 (List.mem_cons_of_mem _ hmem)⟩

theorem reaches_nil_iff : Reaches containers [] a b ↔ ReflTransGen (Extends containers) a b := by
  simp [Reaches]

/-- Whatever is reached is either the name just seen, or reached around it from where the path
started or from one of the supertypes of the name. -/
theorem reaches_around (hname : name ∉ seen) (h : Reaches containers seen a b) :
    b = name ∨ Reaches containers (name :: seen) a b ∨
      ∃ c, Extends containers name c ∧ Reaches containers (name :: seen) c b := by
  obtain ⟨ha, hpath⟩ := h
  induction hpath with
  | refl =>
    by_cases heq : a = name
    · exact .inl heq
    · exact .inr (.inl (.refl (by simp [heq, ha])))
  | @tail b c _ hstep ih =>
    obtain ⟨hbc, hc⟩ := hstep
    by_cases heq : c = name
    · exact .inl heq
    have hc' : c ∉ name :: seen := by simp [heq, hc]
    rcases ih with rfl | hb | ⟨d, hd, hdb⟩
    · exact .inr (.inr ⟨c, hbc, .refl hc'⟩)
    · exact .inr (.inl (hb.tail hbc hc'))
    · exact .inr (.inr ⟨d, hd, hdb.tail hbc hc'⟩)

/-- Taking an unseen name off the line: what the line leads to is the name itself, or what the rest
of the line and the supertypes of the name lead to around it. -/
theorem reaches_cons_iff (hname : name ∉ seen) :
    (∃ a ∈ name :: rest, Reaches containers seen a b) ↔
      b = name ∨ (∃ a ∈ rest, Reaches containers (name :: seen) a b) ∨
        ∃ c, Extends containers name c ∧ Reaches containers (name :: seen) c b := by
  constructor
  · rintro ⟨a, ha, hab⟩
    rcases reaches_around hname hab with rfl | h | h
    · exact .inl rfl
    · rcases List.mem_cons.mp ha with rfl | ha
      · exact absurd List.mem_cons_self h.1
      · exact .inr (.inl ⟨a, ha, h⟩)
    · exact .inr (.inr h)
  · rintro (rfl | ⟨a, ha, h⟩ | ⟨c, hc, h⟩)
    · exact ⟨b, List.mem_cons_self, .refl hname⟩
    · exact ⟨a, List.mem_cons_of_mem _ ha, h.of_cons⟩
    · exact ⟨name, List.mem_cons_self, h.of_cons.head hname hc⟩

end

/-! ### The walk -/

/-- The walk visits, once each and nothing else, the defined names that the line leads to around
the names seen. -/
theorem exists_walk_eq (containers : List ViewContainer) (seen line : List String) :
    ∃ names : List String, names.Nodup ∧
      (∀ n, n ∈ names ↔
        (winner containers n).isSome ∧ ∃ a ∈ line, Reaches containers seen a n) ∧
      (ofContainers containers).walk seen line = names.filterMap (winner containers) := by
  fun_induction walk (ofContainers containers) seen line with
  | case1 seen => exact ⟨[], List.nodup_nil, by simp, rfl⟩
  -- A name seen before leads nowhere around the names seen.
  | case2 seen name rest hseen ih =>
    obtain ⟨names, hnodup, hmem, heq⟩ := ih
    refine ⟨names, hnodup, fun n => ?_, heq⟩
    have hname : ¬ Reaches containers seen name n := fun h => h.1 (by simpa using hseen)
    simp [hmem, hname]
  -- A name without a definition is not visited and leads to no other.
  | case3 seen name rest hseen hnone ih =>
    obtain ⟨names, hnodup, hmem, heq⟩ := ih
    rw [class?_ofContainers] at hnone
    refine ⟨names, hnodup, fun n => ?_, heq⟩
    rw [hmem, reaches_cons_iff (by simpa using hseen)]
    refine and_congr_right fun hn => ?_
    have hne : n ≠ name := by
      rintro rfl
      simp [hnone] at hn
    have hleaf : ∀ c, ¬ Extends containers name c := by
      rintro c ⟨r, hr, _⟩
      simp [hnone] at hr
    simp [hne, hleaf]
  | case4 seen name rest hseen r hr ih =>
    obtain ⟨names, hnodup, hmem, heq⟩ := ih
    rw [class?_ofContainers] at hr
    have hfresh : name ∉ names := by
      intro h
      obtain ⟨_, a, _, ha⟩ := (hmem name).mp h
      exact ha.unseen List.mem_cons_self
    refine ⟨name :: names, List.nodup_cons.mpr ⟨hfresh, hnodup⟩, fun n => ?_, ?_⟩
    · rw [List.mem_cons, hmem, reaches_cons_iff (by simpa using hseen)]
      constructor
      · rintro (rfl | ⟨hn, a, ha, h⟩)
        · exact ⟨by simp [hr], .inl rfl⟩
        · rcases List.mem_append.mp ha with ha | ha
          · exact ⟨hn, .inr (.inl ⟨a, ha, h⟩)⟩
          · exact ⟨hn, .inr (.inr ⟨a, (extends_iff hr).mpr (List.mem_filter.mp ha).1, h⟩)⟩
      · rintro ⟨hn, rfl | ⟨a, ha, h⟩ | ⟨c, hc, h⟩⟩
        · exact .inl rfl
        · exact .inr ⟨hn, a, List.mem_append_left _ ha, h⟩
        · refine .inr ⟨hn, c, List.mem_append_right _ (List.mem_filter.mpr ⟨(extends_iff hr).mp hc, ?_⟩), h⟩
          -- Only supertypes not yet seen join the line; `h` does not touch the others.
          simpa using h.1
    · rw [List.filterMap_cons, hr, heq]

/-- The walk from a name visits every defined name that the hierarchy leads to, once each. -/
theorem exists_ancestry_eq (containers : List ViewContainer) (name : String) :
    ∃ names : List String, names.Nodup ∧
      (∀ n, n ∈ names ↔
        (winner containers n).isSome ∧ ReflTransGen (Extends containers) name n) ∧
      (ofContainers containers).ancestry name = names.filterMap (winner containers) := by
  obtain ⟨names, hnodup, hmem, heq⟩ := exists_walk_eq containers [] [name]
  exact ⟨names, hnodup, fun n => by simp [hmem, reaches_nil_iff], heq⟩

theorem mem_ancestry_iff {containers : List ViewContainer} {name : String} {r : ClassRecord} :
    r ∈ (ofContainers containers).ancestry name ↔
      ∃ n, ReflTransGen (Extends containers) name n ∧ winner containers n = some r := by
  obtain ⟨names, _, hmem, heq⟩ := exists_ancestry_eq containers name
  rw [heq, List.mem_filterMap]
  constructor
  · rintro ⟨n, hn, hr⟩
    exact ⟨n, ((hmem n).mp hn).2, hr⟩
  · rintro ⟨n, hn, hr⟩
    exact ⟨n, (hmem n).mpr ⟨by simp [hr], hn⟩, hr⟩

/-! ### The closures computed -/

/-- The computed supertypes are the names behind one or more edges. -/
theorem contains_computeSupertypes (containers : List ViewContainer) (name t : String) :
    ((ofContainers containers).computeSupertypes name).contains t = true ↔
      TransGen (Extends containers) name t := by
  rw [computeSupertypes, NameSet.contains_ofNames, List.contains_iff_mem, List.mem_flatMap,
    TransGen.tail'_iff]
  constructor
  · rintro ⟨r, hr, ht⟩
    obtain ⟨n, hn, hwin⟩ := mem_ancestry_iff.mp hr
    exact ⟨n, hn, r, hwin, mem_directSupertypes.mp ht⟩
  · rintro ⟨n, hn, r, hwin, ht⟩
    exact ⟨r, mem_ancestry_iff.mpr ⟨n, hn, hwin⟩, mem_directSupertypes.mpr ht⟩

/-- The computed annotation types are those on the definitions behind zero or more edges. -/
theorem contains_computeInherited (containers : List ViewContainer) (name t : String) :
    ((ofContainers containers).computeInherited name).contains t = true ↔
      ∃ n r, ReflTransGen (Extends containers) name n ∧ winner containers n = some r ∧
        ∃ u ∈ r.classAnnotations, u.typeName = t := by
  rw [computeInherited, NameSet.contains_ofNames, List.contains_iff_mem, List.mem_flatMap]
  simp only [mem_ancestry_iff, ClassRecord.annotationNames, List.mem_map]
  constructor
  · rintro ⟨r, ⟨n, hn, hwin⟩, ht⟩
    exact ⟨n, r, hn, hwin, ht⟩
  · rintro ⟨n, r, hn, hwin, ht⟩
    exact ⟨r, ⟨n, hn, hwin⟩, ht⟩

end ClassCatalog.View
