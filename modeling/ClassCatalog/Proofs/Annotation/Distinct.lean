import Mathlib.Data.List.Forall2
import Mathlib.Data.List.Nodup
import ClassCatalog.Annotation.Basic

/-!
# One value for each element name

`Usage.distinct` takes from a usage, and from every usage in it, the elements whose name an earlier element has.
`Usage.KeepsFirsts` says what is left: every name where it first occurs, with the value it has there. No usage is
left that repeats a name (`nodup_of_mem_within_distinct`), and `Usage.repeatsName` tells whether one did
(`repeatsName_eq_false_iff`).
-/

namespace ClassCatalog

/-- The names of the elements, in their order. -/
def Usage.names (u : Usage) : List String := u.elements.map Prod.fst

mutual

/-- The usages in a value, at every depth. -/
def ElementValue.within : ElementValue → List Usage
  | .nested usage => usage.within
  | .array items => itemsWithin items
  | _ => []

/-- A usage and those in it, at every depth. -/
def Usage.within : Usage → List Usage
  | ⟨typeName, retention, elements⟩ => ⟨typeName, retention, elements⟩ :: elementsWithin elements

def itemsWithin : List ElementValue → List Usage
  | [] => []
  | value :: rest => value.within ++ itemsWithin rest

def elementsWithin : List (String × ElementValue) → List Usage
  | [] => []
  | (_, value) :: rest => value.within ++ elementsWithin rest

end

mutual

/-- The first value is the second one with the first element of each name only, at every depth. -/
inductive ElementValue.KeepsFirsts : ElementValue → ElementValue → Prop
  | plain {v : ElementValue} (h : v.within = []) : ElementValue.KeepsFirsts v v
  | nested {u raw : Usage} (h : u.KeepsFirsts raw) : ElementValue.KeepsFirsts (.nested u) (.nested raw)
  | array {vs raws : List ElementValue} (h : List.Forall₂ ElementValue.KeepsFirsts vs raws) :
    ElementValue.KeepsFirsts (.array vs) (.array raws)

/-- The names of the first usage are those of the second where they first occur. Each has the value that it has
there, with the first element of each name only. -/
inductive Usage.KeepsFirsts : Usage → Usage → Prop
  | mk {typeName : String} {retention : Retention} {es raws : List (String × ElementValue)}
    (names : es.map Prod.fst = (raws.map Prod.fst).eraseDups)
    (values : ∀ name v raw, (name, v) ∈ es → Elements.find? raws name = some raw → v.KeepsFirsts raw) :
    Usage.KeepsFirsts ⟨typeName, retention, es⟩ ⟨typeName, retention, raws⟩

end

/-! ### Lists of elements -/

namespace Elements

variable {es : List (String × ElementValue)} {seen : List String} {name : String} {v : ElementValue}

theorem names_firsts (seen : List String) (es : List (String × ElementValue)) :
    (firsts seen es).map Prod.fst = ((es.map Prod.fst).filter fun name => !seen.contains name).eraseDups := by
  induction es generalizing seen with
  | nil => rfl
  | cons e es ih =>
    rw [firsts, List.map_cons]
    cases hseen : seen.contains e.1 with
    | true => rw [if_pos rfl, ih, List.filter_cons_of_neg (by rw [hseen]; decide)]
    | false =>
      rw [if_neg (by decide), List.map_cons, ih, List.filter_cons_of_pos (by rw [hseen]; rfl), List.eraseDups_cons,
        List.filter_filter]
      congr 3
      funext name
      rw [List.contains_cons, Bool.not_or]

theorem nodup_names_firsts (seen : List String) (es : List (String × ElementValue)) :
    ((firsts seen es).map Prod.fst).Nodup ∧ ∀ name ∈ seen, name ∉ (firsts seen es).map Prod.fst := by
  induction es generalizing seen with
  | nil => simp [firsts]
  | cons e es ih =>
    rw [firsts]
    split
    · exact ih seen
    · rename_i hseen
      rcases ih (e.1 :: seen) with ⟨hnodup, hfresh⟩
      refine ⟨List.nodup_cons.2 ⟨hfresh e.1 (List.mem_cons_self ..), hnodup⟩, fun name hname => ?_⟩
      rw [List.map_cons, List.mem_cons, not_or]
      refine ⟨?_, hfresh name (List.mem_cons_of_mem _ hname)⟩
      rintro rfl
      exact hseen (List.contains_iff_mem.2 hname)

theorem not_mem_seen (h : (name, v) ∈ firsts seen es) : name ∉ seen :=
  fun hname => (nodup_names_firsts seen es).2 name hname (List.mem_map.2 ⟨_, h, rfl⟩)

/-- What is kept stands under its name for the first time. -/
theorem find?_of_mem_firsts (h : (name, v) ∈ firsts seen es) : find? es name = some v := by
  induction es generalizing seen with
  | nil => nomatch h
  | cons e es ih =>
    have hskip : ∀ {seen}, e.1 ∈ seen → (name, v) ∈ firsts seen es → find? (e :: es) name = some v := by
      intro seen he hrest
      have hne : e.1 ≠ name := fun heq => not_mem_seen hrest (heq ▸ he)
      have hfound : find? es name = some v := ih hrest
      rwa [find?, List.find?_cons_of_neg (by simpa using hne)]
    rw [firsts] at h
    split at h
    · rename_i hseen
      exact hskip (List.contains_iff_mem.1 hseen) h
    · rcases List.mem_cons.1 h with rfl | h
      · simp [find?]
      · exact hskip (List.mem_cons_self ..) h

theorem repeats_eq_false_iff : repeats es = false ↔ (es.map Prod.fst).Nodup := by
  induction es with
  | nil => simp [repeats]
  | cons e es ih =>
    have hholds : holds es e.1 = false ↔ e.1 ∉ es.map Prod.fst := by
      rw [holds, List.any_eq_false, List.mem_map, not_exists]
      exact forall_congr' fun e' => by simp
    rw [repeats, Bool.or_eq_false_iff, hholds, ih, List.map_cons, List.nodup_cons]

theorem firsts_sublist (seen : List String) (es : List (String × ElementValue)) :
    (firsts seen es).Sublist es := by
  induction es generalizing seen with
  | nil => exact .slnil
  | cons e es ih =>
    rw [firsts]
    split
    · exact (ih seen).cons e
    · exact (ih (e.1 :: seen)).cons_cons e

theorem find?_distinctElements (es : List (String × ElementValue)) (name : String) :
    find? (distinctElements es) name = (find? es name).map ElementValue.distinct := by
  unfold find?
  induction es with
  | nil => rfl
  | cons e es ih =>
    rcases e with ⟨other, v⟩
    rw [distinctElements]
    by_cases hname : other = name
    · simp [hname]
    · have hne : (other == name) = false := beq_false_of_ne hname
      simpa [hne] using ih

theorem names_distinctElements (es : List (String × ElementValue)) :
    (distinctElements es).map Prod.fst = es.map Prod.fst := by
  induction es with
  | nil => rfl
  | cons e es ih => rw [distinctElements, List.map_cons, List.map_cons, ih]

end Elements

/-! ### What is left -/

mutual

theorem ElementValue.keepsFirsts_distinct : (v : ElementValue) → v.distinct.KeepsFirsts v
  | .byte _ | .char _ | .short _ | .int _ | .long _ | .float _ | .double _ | .boolean _ | .string _ | .enum _ _
  | .classLiteral _ => .plain rfl
  | .nested u => .nested (Usage.keepsFirsts_distinct u)
  | .array vs => .array (itemsKeepFirsts vs)

/-- Of every name the first element is left. -/
theorem Usage.keepsFirsts_distinct : (u : Usage) → u.distinct.KeepsFirsts u
  | ⟨_, _, es⟩ => by
    refine .mk ?_ fun name v raw hv hraw => ?_
    · have hall : (es.map Prod.fst).filter (fun name => !([] : List String).contains name) = es.map Prod.fst :=
        List.filter_eq_self.2 fun _ _ => rfl
      rw [Elements.names_firsts, Elements.names_distinctElements, hall]
    · have hfirst := Elements.find?_of_mem_firsts hv
      rw [Elements.find?_distinctElements, hraw] at hfirst
      rcases Option.map_eq_some_iff.1 hraw with ⟨e, he, rfl⟩
      cases hfirst
      exact elementsKeepFirsts es e (List.mem_of_find?_eq_some he)

theorem itemsKeepFirsts : (vs : List ElementValue) →
    List.Forall₂ ElementValue.KeepsFirsts (distinctItems vs) vs
  | [] => .nil
  | v :: vs => .cons (ElementValue.keepsFirsts_distinct v) (itemsKeepFirsts vs)

theorem elementsKeepFirsts : (es : List (String × ElementValue)) → ∀ e ∈ es, e.2.distinct.KeepsFirsts e.2
  | [] => nofun
  | (_, v) :: es => List.forall_mem_cons.2 ⟨ElementValue.keepsFirsts_distinct v, elementsKeepFirsts es⟩

end

theorem elementsRepeatName_eq_false_iff {es : List (String × ElementValue)} :
    elementsRepeatName es = false ↔ ∀ e ∈ es, e.2.repeatsName = false := by
  induction es with
  | nil => simp [elementsRepeatName]
  | cons e es ih =>
    rcases e with ⟨name, v⟩
    rw [elementsRepeatName, Bool.or_eq_false_iff, ih, List.forall_mem_cons]

mutual

theorem ElementValue.repeatsName_distinct : (v : ElementValue) → v.distinct.repeatsName = false
  | .byte _ | .char _ | .short _ | .int _ | .long _ | .float _ | .double _ | .boolean _ | .string _ | .enum _ _
  | .classLiteral _ => rfl
  | .nested u => Usage.repeatsName_distinct u
  | .array vs => itemsRepeatName_distinctItems vs

/-- No name is left twice. -/
theorem Usage.repeatsName_distinct : (u : Usage) → u.distinct.repeatsName = false
  | ⟨_, _, es⟩ => by
    refine Bool.or_eq_false_iff.2 ⟨Elements.repeats_eq_false_iff.2 (Elements.nodup_names_firsts ..).1, ?_⟩
    have hall := elementsRepeatName_eq_false_iff.1 (elementsRepeatName_distinctElements es)
    exact elementsRepeatName_eq_false_iff.2 fun e he => hall e ((Elements.firsts_sublist ..).subset he)

theorem itemsRepeatName_distinctItems : (vs : List ElementValue) → itemsRepeatName (distinctItems vs) = false
  | [] => rfl
  | v :: vs => Bool.or_eq_false_iff.2 ⟨ElementValue.repeatsName_distinct v, itemsRepeatName_distinctItems vs⟩

theorem elementsRepeatName_distinctElements : (es : List (String × ElementValue)) →
    elementsRepeatName (distinctElements es) = false
  | [] => rfl
  | (_, v) :: es =>
    Bool.or_eq_false_iff.2 ⟨ElementValue.repeatsName_distinct v, elementsRepeatName_distinctElements es⟩

end

/-! ### Every usage inside -/

mutual

theorem ElementValue.repeatsName_eq_false_iff :
    (v : ElementValue) → (v.repeatsName = false ↔ ∀ w ∈ v.within, w.names.Nodup)
  | .byte _ | .char _ | .short _ | .int _ | .long _ | .float _ | .double _ | .boolean _ | .string _ | .enum _ _
  | .classLiteral _ => iff_of_true rfl nofun
  | .nested u => Usage.repeatsName_eq_false_iff u
  | .array vs => itemsRepeatName_eq_false_iff vs

/-- `repeatsName` looks at every usage inside. -/
theorem Usage.repeatsName_eq_false_iff :
    (u : Usage) → (u.repeatsName = false ↔ ∀ w ∈ u.within, w.names.Nodup)
  | ⟨_, _, es⟩ => by
    rw [Usage.repeatsName, Bool.or_eq_false_iff, Usage.within, List.forall_mem_cons,
      Elements.repeats_eq_false_iff, elementsRepeatName_eq_false_iff_within es]
    rfl

theorem itemsRepeatName_eq_false_iff :
    (vs : List ElementValue) → (itemsRepeatName vs = false ↔ ∀ w ∈ itemsWithin vs, w.names.Nodup)
  | [] => iff_of_true rfl nofun
  | v :: vs => by
    rw [itemsRepeatName, Bool.or_eq_false_iff, itemsWithin, List.forall_mem_append,
      ElementValue.repeatsName_eq_false_iff v, itemsRepeatName_eq_false_iff vs]

theorem elementsRepeatName_eq_false_iff_within :
    (es : List (String × ElementValue)) → (elementsRepeatName es = false ↔ ∀ w ∈ elementsWithin es, w.names.Nodup)
  | [] => iff_of_true rfl nofun
  | (_, v) :: es => by
    rw [elementsRepeatName, Bool.or_eq_false_iff, elementsWithin, List.forall_mem_append,
      ElementValue.repeatsName_eq_false_iff v, elementsRepeatName_eq_false_iff_within es]

end

theorem nodup_of_mem_within_distinct (u : Usage) : ∀ w ∈ u.distinct.within, w.names.Nodup :=
  u.distinct.repeatsName_eq_false_iff.1 u.repeatsName_distinct

end ClassCatalog
