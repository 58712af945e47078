import ClassCatalog.ClassFile.Record
import ClassCatalog.Proofs.Annotation.Retained

/-!
# What a record holds of the parts

Parts that repeat no element name go into a record as they are: usages on fields and on methods are
gathered under their name (`find?_foldl_addUsages`), usages on parameters are those of the only method
with the key (`find?_foldl_addParameters`). Nothing is stored where there is nothing to store, which is
what `present` says.
-/

namespace ClassCatalog.ClassFile

variable {γ : Type}

/-- Some usages, or nothing if there are none. -/
def present (us : List Usage) : Option (List Usage) := if us.isEmpty then none else some us

/-- Usages on parameters, or nothing if there are none on any of them. -/
def presentParameters (ps : List (List Usage)) : Option (List (List Usage)) :=
  if ps.all List.isEmpty then none else some ps

/-- Interfaces are kept where they first occur. -/
theorem firstOccurrences_eq_eraseDups (strings : List String) :
    firstOccurrences strings = strings.eraseDups := by
  suffices h : ∀ kept : List String,
      strings.foldl (fun kept s => if kept.contains s then kept else kept ++ [s]) kept =
        kept ++ (strings.filter fun s => !kept.contains s).eraseDups by
    have hall : (strings.filter fun s => !([] : List String).contains s) = strings :=
      List.filter_eq_self.2 fun _ _ => rfl
    have hnil := h []
    rwa [hall, List.nil_append] at hnil
  induction strings with
  | nil => simp
  | cons s strings ih =>
    intro kept
    rw [List.foldl_cons]
    cases hs : kept.contains s with
    | true => rw [if_pos rfl, ih, List.filter_cons_of_neg (by rw [hs]; decide)]
    | false =>
      rw [if_neg (by decide), ih, List.filter_cons_of_pos (by rw [hs]; rfl), List.eraseDups_cons,
        List.filter_filter, List.append_assoc, List.singleton_append]
      have hfilter : (fun t => !(kept ++ [s]).contains t) = fun t => !t == s && !kept.contains t := by
        funext t
        rw [List.contains_append, Bool.not_or, Bool.and_comm, List.contains_cons, List.contains_nil,
          Bool.or_false]
      rw [hfilter]

namespace Part

/-! ### Gathering usages under names -/

theorem find?_addUsages {m : NameMap (List Usage)} {name : String} {before : List Usage}
    (h : m.find? name = present before) (other : String) (us : List Usage) :
    (addUsages m other us).find? name = present (before ++ if other = name then us else []) := by
  have hbefore : (present before).getD [] = before := by
    cases before <;> rfl
  unfold addUsages
  cases us with
  | nil => simp [h]
  | cons u us =>
    rw [if_neg (by simp), NameMap.find?_insert]
    by_cases hname : name = other
    · subst hname
      rw [if_pos rfl, if_pos rfl, h, hbefore, present, if_neg (by simp)]
    · rw [if_neg hname, if_neg (Ne.symm hname), List.append_nil, h]

/-- Under a name stands all that was added under it. -/
theorem find?_foldl_addUsages (l : List γ) (label : γ → String) (us : γ → List Usage)
    {m : NameMap (List Usage)} {name : String} {before : List Usage} (h : m.find? name = present before) :
    (l.foldl (fun m x => addUsages m (label x) (us x)) m).find? name =
      present (before ++ (l.filter (label · == name)).flatMap us) := by
  induction l generalizing m before with
  | nil => simpa using h
  | cons x l ih =>
    rw [List.foldl_cons, ih (find?_addUsages h (label x) (us x)), List.append_assoc]
    by_cases hname : label x = name
    · rw [if_pos hname, List.filter_cons_of_pos (by simp [hname]), List.flatMap_cons]
    · rw [if_neg hname, List.filter_cons_of_neg (by simp [hname]), List.nil_append]

theorem any_not_isEmpty (ps : List (List Usage)) : (ps.any fun p => !p.isEmpty) = !ps.all List.isEmpty := by
  simp [List.any_eq_not_all_not]

/-- Puts the usages on the parameters of a method under its key, if there are any. -/
def addParameters (m : NameMap (List (List Usage))) (key : String) (ps : List (List Usage)) :
    NameMap (List (List Usage)) :=
  if ps.any fun p => !p.isEmpty then m.insert key ps else m

theorem find?_addParameters (m : NameMap (List (List Usage))) (key other : String)
    (ps : List (List Usage)) :
    (addParameters m other ps).find? key =
      if key = other then (presentParameters ps).or (m.find? key) else m.find? key := by
  unfold addParameters presentParameters
  rw [any_not_isEmpty]
  cases ps.all List.isEmpty with
  | true => rw [if_neg (by decide), if_pos rfl, Option.none_or, ite_self]
  | false => exact NameMap.find?_insert m other key ps

theorem find?_eq_none_of_label {l : List γ} {label : γ → String} {name : String}
    (h : name ∉ l.map label) : l.find? (label · == name) = none := by
  refine List.find?_eq_none.2 fun x hx hname => h ?_
  exact List.mem_map.2 ⟨x, hx, beq_iff_eq.1 hname⟩

/-- Under a key that only one method has stands what is on its parameters. -/
theorem find?_foldl_addParameters {l : List γ} {label : γ → String} (h : (l.map label).Nodup)
    (ps : γ → List (List Usage)) (m : NameMap (List (List Usage))) (key : String) :
    (l.foldl (fun m x => addParameters m (label x) (ps x)) m).find? key =
      ((l.find? (label · == key)).bind fun x => presentParameters (ps x)).or (m.find? key) := by
  induction l generalizing m with
  | nil => rfl
  | cons x l ih =>
    obtain ⟨hkey, hrest⟩ := List.nodup_cons.1 h
    rw [List.foldl_cons, ih hrest, find?_addParameters]
    by_cases heq : key = label x
    · rw [find?_eq_none_of_label (heq ▸ hkey), if_pos heq, List.find?_cons_of_pos (by simp [heq])]
      rfl
    · rw [if_neg heq, List.find?_cons_of_neg (by simp [Ne.symm heq])]

/-- Only one item has a label that is not repeated. -/
theorem filter_eq_of_nodup {l : List γ} {label : γ → String} (h : (l.map label).Nodup) (name : String) :
    l.filter (label · == name) = (l.find? (label · == name)).toList := by
  induction l with
  | nil => rfl
  | cons x l ih =>
    obtain ⟨hlabel, hrest⟩ := List.nodup_cons.1 h
    by_cases heq : label x = name
    · rw [List.filter_cons_of_pos (by simp [heq]), List.find?_cons_of_pos (by simp [heq]), ih hrest,
        find?_eq_none_of_label (heq ▸ hlabel)]
      rfl
    · rw [List.filter_cons_of_neg (by simp [heq]), List.find?_cons_of_neg (by simp [heq]), ih hrest]

/-! ### Adding parts -/

theorem repeatsName_eq_false {part : Part} :
    part.repeatsName = false ↔ ∀ u ∈ part.usages, u.repeatsName = false := by
  simp [repeatsName]

/-- Usages that repeat no name are stored as they are. -/
theorem map_distinct_eq {us : List Usage} (h : ∀ u ∈ us, u.repeatsName = false) :
    us.map Usage.distinct = us :=
  (List.map_congr_left fun u hu => Usage.distinct_eq u (h u hu)).trans (List.map_id us)

theorem foldl_addTo_fields {l : List γ} {label : γ → String} {us : γ → List Usage}
    (h : ∀ x ∈ l, (field (label x) (us x)).repeatsName = false) (r : ClassRecord) :
    (l.map fun x => field (label x) (us x)).foldl addTo r =
      { r with
        fieldAnnotations := l.foldl (fun m x => addUsages m (label x) (us x)) r.fieldAnnotations } := by
  induction l generalizing r with
  | nil => rfl
  | cons x l ih =>
    have hx : (us x).map Usage.distinct = us x :=
      map_distinct_eq (repeatsName_eq_false.1 (h x (List.mem_cons_self ..)))
    rw [List.map_cons, List.foldl_cons, ih fun y hy => h y (List.mem_cons_of_mem _ hy), addTo, hx]
    rfl

theorem addTo_method {key : String} {us : List Usage} {ps : List (List Usage)}
    (h : (method key us ps).repeatsName = false) (r : ClassRecord) :
    addTo r (method key us ps) =
      { r with
        methodAnnotations := addUsages r.methodAnnotations key us
        parameterAnnotations := addParameters r.parameterAnnotations key ps } := by
  have husages := repeatsName_eq_false.1 h
  have hus : us.map Usage.distinct = us :=
    map_distinct_eq fun u hu => husages u (List.mem_append_left _ hu)
  have hps : ps.map (·.map Usage.distinct) = ps := by
    refine (List.map_congr_left fun p hp => ?_).trans (List.map_id ps)
    exact map_distinct_eq fun u hu => husages u (List.mem_append_right _ (List.mem_flatten_of_mem hp hu))
  simp only [addTo, addParameters, hus, hps]
  split <;> rfl

theorem foldl_addTo_methods {l : List γ} {label : γ → String} {us : γ → List Usage}
    {ps : γ → List (List Usage)} (h : ∀ x ∈ l, (method (label x) (us x) (ps x)).repeatsName = false)
    (r : ClassRecord) :
    (l.map fun x => method (label x) (us x) (ps x)).foldl addTo r =
      { r with
        methodAnnotations := l.foldl (fun m x => addUsages m (label x) (us x)) r.methodAnnotations
        parameterAnnotations :=
          l.foldl (fun m x => addParameters m (label x) (ps x)) r.parameterAnnotations } := by
  induction l generalizing r with
  | nil => rfl
  | cons x l ih =>
    rw [List.map_cons, List.foldl_cons, addTo_method (h x (List.mem_cons_self ..)),
      ih fun y hy => h y (List.mem_cons_of_mem _ hy)]
    rfl

theorem foldl_addTo_classAttributes {l : List γ} {us : γ → List Usage}
    (h : ∀ x ∈ l, (classAttribute (us x)).repeatsName = false) (r : ClassRecord) :
    (l.map fun x => classAttribute (us x)).foldl addTo r =
      { r with classAnnotations := r.classAnnotations ++ l.flatMap us } := by
  induction l generalizing r with
  | nil => simp
  | cons x l ih =>
    have hx : (us x).map Usage.distinct = us x :=
      map_distinct_eq (repeatsName_eq_false.1 (h x (List.mem_cons_self ..)))
    rw [List.map_cons, List.foldl_cons, ih fun y hy => h y (List.mem_cons_of_mem _ hy), addTo, hx,
      List.flatMap_cons, List.append_assoc]

end Part

end ClassCatalog.ClassFile
