import Mathlib.Data.List.Chain
import ClassCatalog.Proofs.View.Closure

/-!
# The chain of superclasses

`Derives containers a b`: the definition of `a` that counts names `b` as its superclass. A name derives
from at most one other, so a climb from superclass to superclass can only go on or stop. `Climb` says
that it passes nothing twice and stops exactly where it must (`Stops`): at a name without a definition,
at a definition without a superclass, or below a name already passed. There is exactly one such climb
from every name (`Climb.unique`), and the chain of superclasses is it. The names seen are an argument,
as in the recursion of `chainFrom`; each step puts the name it leaves among them.
-/

namespace ClassCatalog.View

open Relation

/-- The definition of `a` that counts names `b` as its superclass. -/
def Derives (containers : List ViewContainer) (a b : String) : Prop :=
  ∃ r, winner containers a = some r ∧ r.superclass = some b

/-- At `a`, which is the last of the names passed, a climb can go no further. -/
def Stops (containers : List ViewContainer) (passed : List String) (a : String) : Prop :=
  winner containers a = none ∨ (∃ r, winner containers a = some r ∧ r.superclass = none) ∨
    ∃ b ∈ passed, Derives containers a b

/-- A climb from superclass to superclass around the names seen, which passes nothing twice and stops
exactly where it must. -/
structure Climb (containers : List ViewContainer) (seen : List String) (name : String)
    (walk : List String) : Prop where
  starts : walk.head? = some name
  nodup : walk.Nodup
  unseen : ∀ n ∈ walk, n ∉ seen
  derives : walk.IsChain (Derives containers)
  stops : ∀ before a after, walk = before ++ a :: after →
    (after = [] ↔ Stops containers (before ++ a :: seen) a)

variable {containers : List ViewContainer} {seen walk walk' : List String} {name a b c : String}

theorem Derives.unique (hb : Derives containers a b) (hc : Derives containers a c) : b = c := by
  obtain ⟨r, hr, hb⟩ := hb
  obtain ⟨r', hr', hc⟩ := hc
  rw [hr] at hr'
  cases hr'
  exact Option.some.inj (hb.symm.trans hc)

theorem Derives.extends (h : Derives containers a b) : Extends containers a b := by
  obtain ⟨r, hr, hb⟩ := h
  exact ⟨r, hr, .inl hb⟩

theorem stops_iff {passed : List String} :
    Stops containers passed a ↔ ∀ b, Derives containers a b → b ∈ passed := by
  constructor
  · rintro (hnone | ⟨r, hr, hroot⟩ | ⟨c, hc, hac⟩) b ⟨s, hs, hb⟩
    · rw [hnone] at hs
      cases hs
    · rw [hr] at hs
      cases hs
      rw [hroot] at hb
      cases hb
    · exact hac.unique ⟨s, hs, hb⟩ ▸ hc
  · intro h
    cases hr : winner containers a with
    | none => exact .inl hr
    | some r =>
      cases hb : r.superclass with
      | none => exact .inr (.inl ⟨r, hr, hb⟩)
      | some b => exact .inr (.inr ⟨b, h b ⟨r, hr, hb⟩, r, hr, hb⟩)

/-- A name may be passed before the climb or as its first step. -/
theorem stops_cons {n : String} {before : List String} :
    Stops containers (n :: before ++ a :: seen) a ↔ Stops containers (before ++ a :: n :: seen) a := by
  rw [stops_iff, stops_iff]
  refine forall₂_congr fun b _ => ?_
  simp only [List.cons_append, List.mem_cons, List.mem_append]
  tauto

namespace Climb

theorem single (hname : name ∉ seen) (h : Stops containers (name :: seen) name) :
    Climb containers seen name [name] := by
  refine ⟨rfl, List.pairwise_singleton _ name, by simpa using hname, .singleton _, ?_⟩
  intro before a after hsplit
  cases before with
  | nil =>
    obtain ⟨rfl, rfl⟩ := List.cons.inj hsplit
    simpa using h
  | cons n before => simp at hsplit

theorem cons (hname : name ∉ seen) (hb : Derives containers name b)
    (h : Climb containers (name :: seen) b walk) : Climb containers seen name (name :: walk) := by
  have hfresh : name ∉ walk := fun hmem => h.unseen name hmem List.mem_cons_self
  have hbseen : b ∉ name :: seen := h.unseen b (List.mem_of_mem_head? h.starts)
  refine ⟨rfl, List.nodup_cons.2 ⟨hfresh, h.nodup⟩, ?_, ?_, ?_⟩
  · intro n hn
    rcases List.mem_cons.1 hn with rfl | hn
    · exact hname
    · exact fun hmem => h.unseen n hn (List.mem_cons_of_mem _ hmem)
  · refine List.isChain_cons.2 ⟨fun y hy => ?_, h.derives⟩
    rw [h.starts] at hy
    cases hy
    exact hb
  · intro before a after hsplit
    cases before with
    | nil =>
      obtain ⟨rfl, rfl⟩ := List.cons.inj hsplit
      have hne : walk ≠ [] := by
        rintro rfl
        cases h.starts
      simp only [hne, List.nil_append, false_iff, stops_iff]
      exact fun hstop => hbseen (hstop b hb)
    | cons n before =>
      obtain ⟨rfl, hwalk⟩ := List.cons.inj hsplit
      rw [h.stops before a after hwalk, stops_cons]

/-- A climb is at its end, or goes on around one name more. -/
theorem cases_head (h : Climb containers seen name walk) :
    (walk = [name] ∧ Stops containers (name :: seen) name) ∨
      ∃ b rest, walk = name :: rest ∧ Derives containers name b ∧ b ∉ name :: seen ∧
        Climb containers (name :: seen) b rest := by
  obtain ⟨rest, rfl⟩ := List.head?_eq_some_iff.1 h.starts
  obtain ⟨hfresh, hnodup⟩ := List.nodup_cons.1 h.nodup
  cases rest with
  | nil => exact .inl ⟨rfl, (h.stops [] name [] rfl).1 rfl⟩
  | cons b rest =>
    obtain ⟨hb, hchain⟩ := List.isChain_cons_cons.1 h.derives
    have hunseen : ∀ n ∈ b :: rest, n ∉ name :: seen := by
      intro n hn hmem
      rcases List.mem_cons.1 hmem with rfl | hmem
      · exact hfresh hn
      · exact h.unseen n (List.mem_cons_of_mem _ hn) hmem
    refine .inr ⟨b, b :: rest, rfl, hb, hunseen b List.mem_cons_self, rfl, hnodup, hunseen, hchain, ?_⟩
    intro before a after hsplit
    rw [h.stops (name :: before) a after (by rw [hsplit]; rfl), stops_cons]

/-- Whoever climbs from a name climbs the same way. -/
theorem unique (h : Climb containers seen name walk) (h' : Climb containers seen name walk') :
    walk = walk' := by
  induction walk generalizing seen name walk' with
  | nil => cases h.starts
  | cons n rest ih =>
    rcases h.cases_head with ⟨heq, hstop⟩ | ⟨b, rest₁, heq, hb, hnew, hrest⟩
    · rcases h'.cases_head with ⟨heq', -⟩ | ⟨c, rest', heq', hc, hnew', -⟩
      · rw [heq, heq']
      · exact absurd (stops_iff.1 hstop c hc) hnew'
    · obtain ⟨rfl, rfl⟩ := List.cons.inj heq
      rcases h'.cases_head with ⟨heq', hstop⟩ | ⟨c, rest', heq', hc, -, hrest'⟩
      · exact absurd (stops_iff.1 hstop b hb) hnew
      · obtain rfl := hb.unique hc
        rw [heq', ih hrest hrest']

/-- Behind its first name a climb has only supertypes of that name. -/
theorem transGen_of_mem_tail (h : Climb containers seen name walk) (hb : b ∈ walk.tail) :
    TransGen (Extends containers) name b := by
  obtain ⟨rest, rfl⟩ := List.head?_eq_some_iff.1 h.starts
  have hchain : (name :: rest).IsChain (TransGen (Extends containers)) :=
    h.derives.imp fun _ _ hab => .single hab.extends
  exact (List.pairwise_cons.1 (List.isChain_iff_pairwise.1 hchain)).1 b hb

end Climb

/-! ### The chain -/

theorem climb_chainFrom (h : name ∉ seen) :
    Climb containers seen name ((ofContainers containers).chainFrom seen name) := by
  fun_induction chainFrom (ofContainers containers) seen name with
  | case1 seen name hseen => exact absurd (List.contains_iff_mem.1 hseen) h
  | case2 seen name hseen hnone =>
    rw [class?_ofContainers] at hnone
    exact .single h (.inl hnone)
  | case3 seen name hseen r hr hroot =>
    rw [class?_ofContainers] at hr
    exact .single h (.inr (.inl ⟨r, hr, hroot⟩))
  | case4 seen name hseen r hr parent hparent ih =>
    rw [class?_ofContainers] at hr
    have hderives : Derives containers name parent := ⟨r, hr, hparent⟩
    by_cases hpassed : parent ∈ name :: seen
    · rw [chainFrom_eq, if_pos (List.contains_iff_mem.2 hpassed)]
      exact .single h (.inr (.inr ⟨parent, hpassed, hderives⟩))
    · exact .cons h hderives (ih hpassed)

/-- All but the last name of a chain are defined and were not seen before. -/
theorem length_chainFrom_le (v : View) (seen : List String) (name : String) :
    (v.chainFrom seen name).length ≤ v.unseen seen + 1 := by
  fun_induction chainFrom v seen name with
  | case1 seen name hseen => exact Nat.zero_le _
  | case2 seen name hseen hnone => exact Nat.le_add_left 1 _
  | case3 seen name hseen r hr hroot => exact Nat.le_add_left 1 _
  | case4 seen name hseen r hr parent hparent ih =>
    have hlt := unseen_lt hr hseen
    rw [List.length_cons]
    omega

/-- The chain of superclasses is the one climb from its name. After any calls its further names are
supertypes of the name, and it is at most one longer than there are classes. -/
theorem superChain_is_the_climb (containers : List ViewContainer) (calls : List Call) (name : String) :
    let v := ofContainers containers
    let m := calls.foldl (Call.run v) {}
    Climb containers [] name (v.superChain name) ∧
    (∀ walk, Climb containers [] name walk → walk = v.superChain name) ∧
    (∀ b ∈ (v.superChain name).tail, ((v.supertypes name).run m).1.contains b = true) ∧
    (v.superChain name).length ≤ v.lookup.size + 1 := by
  intro v m
  have hclimb : Climb containers [] name (v.superChain name) := climb_chainFrom List.not_mem_nil
  have hsound : m.Sound v := sound_foldl_run (Memo.sound_empty v) calls
  refine ⟨hclimb, fun walk hwalk => hwalk.unique hclimb, fun b hb => ?_, ?_⟩
  · rw [(run_supertypes hsound name).1]
    exact (contains_computeSupertypes containers name b).2 (hclimb.transGen_of_mem_tail hb)
  · have hclasses : v.unseen [] = v.lookup.size := by
      simp [unseen, classNames, NameMap.names, NameMap.size]
    exact hclasses ▸ length_chainFrom_le v [] name

end ClassCatalog.View
