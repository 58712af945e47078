import ClassCatalog.Proofs.Query.Outcome
import ClassCatalog.Proofs.View.Shadowing

/-!
# Definitions that an earlier container hides

`Revises before after`: the containers are the same but for records that an earlier container hides;
of those the second list may have others, or none. The two views enter every name at one position
(`Revises.lookup`), where they have one record (`Revises.containerOf?`). All that is ever asked of a
view goes through such lookups (`Alike`), the walks over the hierarchy included, so no answer shows
what is hidden.
-/

namespace ClassCatalog

/-- A container without its records: its specification and what else is known of it. -/
def ViewContainer.withoutClasses (c : ViewContainer) : ViewContainer :=
  { c with index := { c.index with classes := ∅ } }

namespace View

/-! ### Views with the same lookups -/

/-- Views that find the same under every name. -/
structure Alike (v w : View) : Prop where
  class? (name : String) : w.class? name = v.class? name
  contains (name : String) : w.contains name = v.contains name
  classesWithPolicy (policies : List ScanPolicy) :
    w.classesWithPolicy policies = v.classesWithPolicy policies

namespace Alike
variable {v w : View}

theorem chainFrom (h : v.Alike w) (seen : List String) (name : String) :
    w.chainFrom seen name = v.chainFrom seen name := by
  fun_induction View.chainFrom v seen name with
  | case1 seen name hseen => rw [chainFrom_eq, if_pos hseen]
  | case2 seen name hseen hnone => rw [chainFrom_eq, if_neg hseen, h.class?, hnone]
  | case3 seen name hseen r hr hroot =>
    rw [chainFrom_eq, if_neg hseen, h.class?, hr]
    simp only [hroot]
  | case4 seen name hseen r hr parent hparent ih =>
    rw [chainFrom_eq, if_neg hseen, h.class?, hr]
    simp only [hparent, ih]

theorem walk (h : v.Alike w) (seen line : List String) : w.walk seen line = v.walk seen line := by
  fun_induction View.walk v seen line with
  | case1 seen => rw [View.walk]
  | case2 seen name rest hseen ih => rw [walk_cons, if_pos hseen, ih]
  | case3 seen name rest hseen hnone ih => rw [walk_cons, if_neg hseen, h.class?, hnone, ih]
  | case4 seen name rest hseen r hr ih =>
    rw [walk_cons, if_neg hseen, h.class?, hr]
    simp only [ih]

theorem superChain (h : v.Alike w) (name : String) : w.superChain name = v.superChain name :=
  h.chainFrom [] name

theorem computeSupertypes (h : v.Alike w) (name : String) :
    w.computeSupertypes name = v.computeSupertypes name := by
  simp only [View.computeSupertypes, ancestry, h.walk]

theorem computeInherited (h : v.Alike w) (name : String) :
    w.computeInherited name = v.computeInherited name := by
  simp only [View.computeInherited, ancestry, h.walk]

theorem boundary (h : v.Alike w) (name : String) : Query.boundary w name = Query.boundary v name := by
  simp only [Query.boundary, h.computeSupertypes, h.contains]

theorem unknown? (h : v.Alike w) (options : QueryOptions) :
    Query.unknown? w options = Query.unknown? v options := by
  funext name
  unfold Query.unknown? Query.isKnown
  rw [h.contains]

theorem firstGap? (h : v.Alike w) (options : QueryOptions) :
    Query.firstGap? w options = Query.firstGap? v options := by
  simp only [Query.firstGap?, Query.gap?, Query.candidates, h.classesWithPolicy, h.boundary, h.unknown?]

theorem stop? (h : v.Alike w) (options : QueryOptions) (request : Query.Request) :
    request.stop? w options = request.stop? v options := by
  cases request <;> simp only [Query.Request.stop?, h.unknown?, h.firstGap?]

theorem answer (h : v.Alike w) (options : QueryOptions) (request : Query.Request) :
    request.answer w options = request.answer v options := by
  cases request <;> simp only [Query.Request.answer, Query.passing, Query.inPackage, Query.candidates,
    h.classesWithPolicy, h.computeInherited, h.computeSupertypes, h.class?]

end Alike

/-! ### Other records under hidden names -/

/-- The second list of containers is the first, but that where a name is defined by an earlier
container it may have another record, or none. -/
structure Revises (before after : List ViewContainer) : Prop where
  rest : after.map ViewContainer.withoutClasses = before.map ViewContainer.withoutClasses
  shown {position : Nat} {c d : ViewContainer} {name : String} (hc : before[position]? = some c)
    (hd : after[position]? = some d) (h : ¬ Hides before position name) :
    d.index.classes.find? name = c.index.classes.find? name

namespace Revises
variable {before after : List ViewContainer}

theorem length (h : Revises before after) : after.length = before.length := by
  have := congrArg List.length h.rest
  simpa using this

/-- Up to the first definition of a name nothing is hidden under it. -/
theorem find?_classes (h : Revises before after) {name : String} {position : Nat}
    (hlt : position < before.length) (hlt' : position < after.length)
    (hfirst : ∀ i (hi : i < position), before[i].defines name = false) :
    after[position].index.classes.find? name = before[position].index.classes.find? name := by
  refine h.shown (List.getElem?_eq_getElem hlt) (List.getElem?_eq_getElem hlt') ?_
  rintro ⟨-, -, -, d, hd, hdefines⟩
  obtain ⟨i, hi, rfl⟩ := List.mem_take_iff_getElem.1 hd
  rw [hfirst i (by omega)] at hdefines
  cases hdefines

theorem findIdx? (h : Revises before after) (name : String) :
    (after.findIdx? fun c => c.defines name) = before.findIdx? fun c => c.defines name := by
  have hdefines : ∀ {i} (hi : i < before.length) (hi' : i < after.length),
      (∀ j (hj : j < i), before[j].defines name = false) →
      after[i].defines name = before[i].defines name := by
    intro i hi hi' hfirst
    simp only [ViewContainer.defines, NameMap.contains, h.find?_classes hi hi' hfirst]
  cases hfind : before.findIdx? fun c => c.defines name with
  | none =>
    have hnone : ∀ i (hi : i < before.length), before[i].defines name = false := by
      intro i hi
      have := List.findIdx?_eq_none_iff.1 hfind before[i] (List.getElem_mem hi)
      simpa using this
    refine List.findIdx?_eq_none_iff.2 fun d hd => ?_
    obtain ⟨i, hi, rfl⟩ := List.getElem_of_mem hd
    have hi' : i < before.length := h.length ▸ hi
    rw [hdefines hi' hi fun j hj => hnone j (by omega)]
    exact hnone i hi'
  | some first =>
    obtain ⟨hlt, hfound, hbefore⟩ := List.findIdx?_eq_some_iff_getElem.1 hfind
    have hnone : ∀ j (hj : j < first), before[j].defines name = false := by
      intro j hj
      simpa using hbefore j hj
    have hlt' : first < after.length := h.length.symm ▸ hlt
    refine List.findIdx?_eq_some_iff_getElem.2 ⟨hlt', ?_, fun j hj => ?_⟩
    · rw [hdefines hlt hlt' hnone]
      exact hfound
    · rw [hdefines (by omega) (by omega) fun i hi => hnone i (by omega), hnone j hj]
      decide

theorem lookup (h : Revises before after) : (ofContainers after).lookup = (ofContainers before).lookup := by
  refine NameMap.ext_find? fun name => ?_
  rw [find?_lookup_ofContainers, find?_lookup_ofContainers, h.findIdx?]

/-- Of the container that counts under a name, its record under the name and all but its records. -/
theorem containerOf? (h : Revises before after) (name : String) :
    ((ofContainers after).containerOf? name).map (fun d => (d.withoutClasses, d.index.classes.find? name)) =
      ((ofContainers before).containerOf? name).map fun c =>
        (c.withoutClasses, c.index.classes.find? name) := by
  unfold View.containerOf?
  rw [h.lookup]
  cases hfind : (ofContainers before).lookup.find? name with
  | none => rfl
  | some first =>
    rw [find?_lookup_ofContainers] at hfind
    obtain ⟨hlt, -, hbefore⟩ := List.findIdx?_eq_some_iff_getElem.1 hfind
    have hlt' : first < after.length := h.length.symm ▸ hlt
    have hrest : after[first].withoutClasses = before[first].withoutClasses := by
      have hget : (after.map ViewContainer.withoutClasses)[first]? =
          (before.map ViewContainer.withoutClasses)[first]? := by rw [h.rest]
      simpa [hlt, hlt'] using hget
    have hclasses : after[first].index.classes.find? name = before[first].index.classes.find? name :=
      h.find?_classes hlt hlt' fun i hi => by simpa using hbefore i hi
    show (after[first]?).map _ = (before[first]?).map _
    rw [List.getElem?_eq_getElem hlt, List.getElem?_eq_getElem hlt', Option.map_some, Option.map_some,
      hrest, hclasses]

theorem alike (h : Revises before after) : (ofContainers before).Alike (ofContainers after) where
  class? name := by
    have hmap := congrArg (Option.bind · Prod.snd) (h.containerOf? name)
    rwa [Option.bind_map, Option.bind_map] at hmap
  contains name := by
    unfold View.contains
    rw [h.lookup]
  classesWithPolicy policies := by
    have hnames : (ofContainers after).classNames = (ofContainers before).classNames := by
      unfold classNames
      rw [h.lookup]
    unfold View.classesWithPolicy
    rw [hnames]
    refine List.filterMap_congr fun name _ => ?_
    have hmap := congrArg (Option.bind · fun p : ViewContainer × Option ClassRecord =>
      if policies.contains p.1.spec.policy then p.2 else none) (h.containerOf? name)
    rwa [Option.bind_map, Option.bind_map] at hmap

end Revises

/-- Records that an earlier container hides do not show: whatever was asked of the two views before, and
whatever is asked of them now, other records in their place, or none, give the same answers. -/
theorem hidden_records_do_not_show {before after : List ViewContainer} (h : Revises before after)
    (calls calls' : List Call) :
    let v := ofContainers before
    let w := ofContainers after
    let m := calls.foldl (Call.run v) {}
    let m' := calls'.foldl (Call.run w) {}
    (∀ name, w.class? name = v.class? name ∧ w.contains name = v.contains name ∧
      w.lookup.find? name = v.lookup.find? name ∧
      (w.containerOf? name).map ViewContainer.withoutClasses =
        (v.containerOf? name).map ViewContainer.withoutClasses ∧
      w.superChain name = v.superChain name ∧
      ((w.supertypes name).run m').1 = ((v.supertypes name).run m).1 ∧
      ((w.inheritedAnnotations name).run m').1 = ((v.inheritedAnnotations name).run m).1 ∧
      ((w.boundaryTypes name).run m').1 = ((v.boundaryTypes name).run m).1) ∧
    ∀ (options : QueryOptions) (request : Query.Request),
      ((request.run w options).run.run m').1 = ((request.run v options).run.run m).1 := by
  intro v w m m'
  have halike : v.Alike w := h.alike
  have hm : m.Sound v := sound_foldl_run (Memo.sound_empty v) calls
  have hm' : m'.Sound w := sound_foldl_run (Memo.sound_empty w) calls'
  refine ⟨fun name => ⟨halike.class? name, halike.contains name, by rw [h.lookup], ?container,
    halike.superChain name, ?supertypes, ?inherited, ?boundary⟩, fun options request => ?query⟩
  case container =>
    have hmap := congrArg (Option.map Prod.fst) (h.containerOf? name)
    rwa [Option.map_map, Option.map_map] at hmap
  case supertypes =>
    rw [(run_supertypes hm' name).1, (run_supertypes hm name).1, halike.computeSupertypes]
  case inherited =>
    rw [(run_inheritedAnnotations hm' name).1, (run_inheritedAnnotations hm name).1,
      halike.computeInherited]
  case boundary =>
    rw [(run_boundaryTypes hm' name).1, (run_boundaryTypes hm name).1]
    exact halike.boundary name
  case query =>
    have hv : ((request.run v options).run.run m).1 =
        Query.outcome (request.stop? v options) (request.answer v options) :=
      (request.settles_run m hm).1
    have hw : ((request.run w options).run.run m').1 =
        Query.outcome (request.stop? w options) (request.answer w options) :=
      (request.settles_run m' hm').1
    rw [hv, hw, halike.stop?, halike.answer]

/-- A class that extends one of a plugin, which may have a record of the class itself. -/
def withPlugin (hidden : Option ClassRecord) : List ViewContainer :=
  let service : ClassRecord := ⟨"app.Service", some "plugin.Base", [], {}, [], ∅, ∅, ∅, false⟩
  let marker : Usage := ⟨"plugin.Marker", .runtime, []⟩
  let base : ClassRecord := ⟨"plugin.Base", none, [], {}, [marker], ∅, ∅, ∅, false⟩
  let own : NameMap ClassRecord := NameMap.empty.insert "plugin.Base" base
  [⟨⟨.directory "classes", .seed⟩,
      { identity := ⟨"classes", 8, 1, none⟩, classes := NameMap.empty.insert "app.Service" service }, 1⟩,
    ⟨⟨.archive "plugin.jar", .external⟩,
      { identity := ⟨"plugin.jar", 9, 1, none⟩
        classes := match hidden with
          | some r => own.insert "app.Service" r
          | none => own }, 2⟩]

/-- The record that the plugin has of the class would lead the hierarchy elsewhere. -/
theorem hidden_records_of_plugin :
    let foreign : ClassRecord := ⟨"app.Service", some "evil.Root", ["evil.Face"], {}, [], ∅, ∅, ∅, false⟩
    let v := ofContainers (withPlugin (some foreign))
    let w := ofContainers (withPlugin none)
    Revises (withPlugin (some foreign)) (withPlugin none) ∧
      w.superChain "app.Service" = v.superChain "app.Service" ∧
      (((Query.Request.annotated "plugin.Marker" true).run w { strict := true }).run.run {}).1 =
        (((Query.Request.annotated "plugin.Marker" true).run v { strict := true }).run.run {}).1 := by
  intro foreign v w
  have hrevises : Revises (withPlugin (some foreign)) (withPlugin none) := by
    refine ⟨rfl, fun {position c d name} hc hd hshown => ?_⟩
    match position with
    | 0 =>
      cases hc
      cases hd
      rfl
    | 1 =>
      cases hc
      cases hd
      have hne : name ≠ "app.Service" := by
        rintro rfl
        exact hshown ⟨_, rfl, rfl, _, List.mem_cons_self, rfl⟩
      exact (NameMap.find?_insert_of_ne _ hne _).symm
    | n + 2 => cases hc
  obtain ⟨hnames, hqueries⟩ := hidden_records_do_not_show hrevises [] []
  obtain ⟨-, -, -, -, hchain, -⟩ := hnames "app.Service"
  exact ⟨hrevises, hchain, hqueries { strict := true } (.annotated "plugin.Marker" true)⟩

end View

end ClassCatalog
