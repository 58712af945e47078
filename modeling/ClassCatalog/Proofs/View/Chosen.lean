import ClassCatalog.Proofs.Index.Filled
import ClassCatalog.Proofs.View.Winner

/-!
# The classes a query may report

`View.Chosen`: the first container that defines a class has one of the policies asked for. Over
filled indexes the classes with these policies are the definitions that count of the chosen names
(`mem_classesWithPolicy_iff`), in the order of the names (`pairwise_classesWithPolicy`).
-/

namespace ClassCatalog.View

variable {containers : List ViewContainer} {policies : List ScanPolicy} {name : String}
  {r : ClassRecord}

/-- The container whose definition of a class counts has one of the policies. -/
def Chosen (containers : List ViewContainer) (policies : List ScanPolicy) (name : String) : Prop :=
  ∃ c, (containers.find? fun c => c.defines name) = some c ∧ c.spec.policy ∈ policies

theorem name_eq_of_keyed (hkeyed : ∀ c ∈ containers, c.index.Keyed)
    (h : winner containers name = some r) : r.name = name := by
  obtain ⟨c, hc, hr⟩ := List.exists_of_findSome?_eq_some h
  exact hkeyed c hc name r hr

theorem name_eq_of_winner (hfilled : ∀ c ∈ containers, c.index.Filled)
    (h : winner containers name = some r) : r.name = name :=
  name_eq_of_keyed (fun c hc => (hfilled c hc).keyed) h

theorem winner_of_find? {c : ViewContainer}
    (h : (containers.find? fun c => c.defines name) = some c) :
    winner containers name = c.index.classes.find? name := by
  rw [← class?_ofContainers, class?, containerOf?_ofContainers, h]
  rfl

theorem Chosen.exists_winner (h : Chosen containers policies name) :
    ∃ r, winner containers name = some r := by
  obtain ⟨c, hc, _⟩ := h
  have hdefines := List.find?_some hc
  rw [winner_of_find? hc]
  exact Option.isSome_iff_exists.mp hdefines

theorem mem_classNames_iff :
    name ∈ (ofContainers containers).classNames ↔ (winner containers name).isSome := by
  rw [← contains_ofContainers, View.contains, NameMap.contains, Option.isSome_iff_exists]
  exact NameMap.mem_names_iff

/-- The definition that counts, if its container has one of the policies. -/
def chosen? (containers : List ViewContainer) (policies : List ScanPolicy) (name : String) :
    Option ClassRecord :=
  (containers.find? fun c => c.defines name).bind fun c =>
    if policies.contains c.spec.policy then c.index.classes.find? name else none

theorem chosen?_eq_some_iff : chosen? containers policies name = some r ↔
    Chosen containers policies name ∧ winner containers name = some r := by
  rw [chosen?, Option.bind_eq_some_iff]
  constructor
  · rintro ⟨c, hc, hr⟩
    split at hr
    · rename_i hpolicy
      refine ⟨⟨c, hc, List.contains_iff_mem.mp hpolicy⟩, ?_⟩
      rw [winner_of_find? hc]
      exact hr
    · nomatch hr
  · rintro ⟨⟨c, hc, hpolicy⟩, hr⟩
    rw [winner_of_find? hc] at hr
    refine ⟨c, hc, ?_⟩
    rw [if_pos (List.contains_iff_mem.mpr hpolicy)]
    exact hr

theorem classesWithPolicy_ofContainers (containers : List ViewContainer)
    (policies : List ScanPolicy) : (ofContainers containers).classesWithPolicy policies =
      (ofContainers containers).classNames.filterMap (chosen? containers policies) := by
  unfold classesWithPolicy
  congr 1
  funext name
  rw [containerOf?_ofContainers]
  rfl

/-- Over filled indexes: the definitions that count, of the chosen names. -/
theorem mem_classesWithPolicy_iff (hfilled : ∀ c ∈ containers, c.index.Filled) :
    r ∈ (ofContainers containers).classesWithPolicy policies ↔
      Chosen containers policies r.name ∧ winner containers r.name = some r := by
  rw [classesWithPolicy_ofContainers, List.mem_filterMap]
  constructor
  · rintro ⟨name, _, hr⟩
    obtain ⟨hchosen, hwinner⟩ := chosen?_eq_some_iff.mp hr
    have hname := name_eq_of_winner hfilled hwinner
    subst hname
    exact ⟨hchosen, hwinner⟩
  · rintro ⟨hchosen, hwinner⟩
    refine ⟨r.name, ?_, chosen?_eq_some_iff.mpr ⟨hchosen, hwinner⟩⟩
    rw [mem_classNames_iff, hwinner]
    rfl

/-- And they come in the order of their names, none twice. -/
theorem pairwise_classesWithPolicy (hfilled : ∀ c ∈ containers, c.index.Filled)
    (policies : List ScanPolicy) :
    ((ofContainers containers).classesWithPolicy policies).Pairwise fun a b => a.name < b.name := by
  rw [classesWithPolicy_ofContainers, List.pairwise_filterMap]
  refine ((ofContainers containers).lookup.pairwise_names).imp ?_
  intro a b hlt x hx y hy
  obtain ⟨_, hx⟩ := chosen?_eq_some_iff.mp hx
  obtain ⟨_, hy⟩ := chosen?_eq_some_iff.mp hy
  rw [name_eq_of_winner hfilled hx, name_eq_of_winner hfilled hy]
  exact hlt

end ClassCatalog.View
