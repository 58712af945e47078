import ClassCatalog.Proofs.Query.Outcome
import ClassCatalog.Proofs.Text.ByteOrder
import ClassCatalog.Proofs.View.Chosen

/-!
# What queries report

A query that is not strict reports of the chosen classes those with what it asks for, in the order of
their bytes (`lenient_answers_exact`). Which container a definition stands in decides whether it is
reported, but not whether it is looked at on the way up the hierarchy.
-/

namespace ClassCatalog

open Relation

namespace View

variable {containers : List ViewContainer} {target name : String}

/-- The definition that counts carries an annotation of this type. -/
def OnClass (containers : List ViewContainer) (target name : String) : Prop :=
  ∃ r, winner containers name = some r ∧ ∃ u ∈ r.classAnnotations, u.typeName = target

/-- Some field of the definition that counts does. -/
def OnField (containers : List ViewContainer) (target name : String) : Prop :=
  ∃ r, winner containers name = some r ∧ ∃ field usages,
    r.fieldAnnotations.find? field = some usages ∧ ∃ u ∈ usages, u.typeName = target

/-- Some method of the definition that counts does, or some parameter of a method. -/
def OnMethod (containers : List ViewContainer) (target name : String) : Prop :=
  ∃ r, winner containers name = some r ∧
    ((∃ method usages, r.methodAnnotations.find? method = some usages ∧
        ∃ u ∈ usages, u.typeName = target) ∨
      ∃ method parameters, r.parameterAnnotations.find? method = some parameters ∧
        ∃ usages ∈ parameters, ∃ u ∈ usages, u.typeName = target)

end View

namespace ClassRecord

variable {r : ClassRecord} {target : String}

theorem hasOnClass_iff : r.hasOnClass target = true ↔ ∃ u ∈ r.classAnnotations, u.typeName = target := by
  rw [hasOnClass, annotationNames, List.contains_iff_mem, List.mem_map]

theorem hasOnField_iff : r.hasOnField target = true ↔ ∃ field usages,
    r.fieldAnnotations.find? field = some usages ∧ ∃ u ∈ usages, u.typeName = target := by
  simp only [hasOnField, List.any_eq_true, List.mem_flatten, NameMap.mem_values_iff, beq_iff_eq]
  constructor
  · rintro ⟨u, ⟨usages, ⟨field, hfield⟩, hu⟩, htype⟩
    exact ⟨field, usages, hfield, u, hu, htype⟩
  · rintro ⟨field, usages, hfield, u, hu, htype⟩
    exact ⟨u, ⟨usages, ⟨field, hfield⟩, hu⟩, htype⟩

theorem hasOnMethod_iff : r.hasOnMethod target = true ↔
    (∃ method usages, r.methodAnnotations.find? method = some usages ∧
        ∃ u ∈ usages, u.typeName = target) ∨
      ∃ method parameters, r.parameterAnnotations.find? method = some parameters ∧
        ∃ usages ∈ parameters, ∃ u ∈ usages, u.typeName = target := by
  simp only [hasOnMethod, Bool.or_eq_true, List.any_eq_true, List.mem_flatten,
    NameMap.mem_values_iff, beq_iff_eq]
  constructor
  · rintro (⟨u, ⟨usages, ⟨method, hmethod⟩, hu⟩, htype⟩ |
      ⟨u, ⟨usages, ⟨parameters, ⟨method, hmethod⟩, husages⟩, hu⟩, htype⟩)
    · exact .inl ⟨method, usages, hmethod, u, hu, htype⟩
    · exact .inr ⟨method, parameters, hmethod, usages, husages, u, hu, htype⟩
  · rintro (⟨method, usages, hmethod, u, hu, htype⟩ |
      ⟨method, parameters, hmethod, usages, husages, u, hu, htype⟩)
    · exact .inl ⟨u, ⟨usages, ⟨method, hmethod⟩, hu⟩, htype⟩
    · exact .inr ⟨u, ⟨usages, ⟨parameters, ⟨method, hmethod⟩, husages⟩, hu⟩, htype⟩

end ClassRecord

namespace Query

open View

variable {containers : List ViewContainer} {options : QueryOptions}

/-- A list of exactly the names with a property, in the order of their bytes. -/
structure Lists (found : List String) (P : String → Prop) : Prop where
  increasing : found.Pairwise fun a b => Utf8.encode a < Utf8.encode b
  nodup : found.Nodup
  mem_iff (name : String) : name ∈ found ↔ P name

theorem Lists.of_sorted {found : List String} {P : String → Prop} (hsorted : found.Pairwise (· < ·))
    (hmem : ∀ name, name ∈ found ↔ P name) : Lists found P := by
  refine ⟨hsorted.imp Utf8.encode_lt_encode_iff.mpr, hsorted.imp ?_, hmem⟩
  intro a b hlt heq
  exact String.lt_irrefl _ (heq ▸ hlt)

theorem mem_passing_iff (hfilled : ∀ c ∈ containers, c.index.Filled) {passes : ClassRecord → Bool}
    {name : String} : name ∈ passing (ofContainers containers) options passes ↔
      Chosen containers options.policies name ∧
        ∃ r, winner containers name = some r ∧ passes r = true := by
  simp only [passing, candidates, List.mem_map, List.mem_filter, mem_classesWithPolicy_iff hfilled]
  constructor
  · rintro ⟨r, ⟨⟨hchosen, hwinner⟩, hpasses⟩, rfl⟩
    exact ⟨hchosen, r, hwinner, hpasses⟩
  · rintro ⟨hchosen, r, hwinner, hpasses⟩
    have hname := name_eq_of_winner hfilled hwinner
    subst hname
    exact ⟨r, ⟨⟨hchosen, hwinner⟩, hpasses⟩, rfl⟩

/-- The classes that pass a test are listed, if the test is one of the definitions that count. -/
theorem lists_passing (hfilled : ∀ c ∈ containers, c.index.Filled) {passes : ClassRecord → Bool}
    {P : String → Prop}
    (h : ∀ name r, winner containers name = some r → (passes r = true ↔ P name)) :
    Lists (passing (ofContainers containers) options passes) fun name =>
      Chosen containers options.policies name ∧ P name := by
  have hsorted : (passing (ofContainers containers) options passes).Pairwise (· < ·) :=
    List.pairwise_map.mpr ((pairwise_classesWithPolicy hfilled options.policies).filter _)
  refine .of_sorted hsorted fun name => ?_
  rw [mem_passing_iff hfilled]
  refine and_congr_right fun hchosen => ?_
  obtain ⟨r, hwinner⟩ := hchosen.exists_winner
  simp [hwinner, h name r hwinner]

/-- After any calls, a query that is not strict lists those of the chosen classes that carry the
annotation, themselves or on something they are derived from, that are or are derived from the
target, or whose fields or whose methods and their parameters carry the annotation. -/
theorem lenient_answers_exact (hfilled : ∀ c ∈ containers, c.index.Filled)
    (hlenient : options.strict = false) (calls : List Call) (target : String) :
    let v := ofContainers containers
    let m := calls.foldl (Call.run v) {}
    (∃ found, ((annotated v target false options).run.run m).1 = .ok found ∧
      Lists found fun name => Chosen containers options.policies name ∧
        OnClass containers target name) ∧
    (∃ found, ((annotated v target true options).run.run m).1 = .ok found ∧
      Lists found fun name => Chosen containers options.policies name ∧
        ∃ n, ReflTransGen (Extends containers) name n ∧ OnClass containers target n) ∧
    (∃ found, ((assignable v target options).run.run m).1 = .ok found ∧
      Lists found fun name => Chosen containers options.policies name ∧
        (name = target ∨ TransGen (Extends containers) name target)) ∧
    (∃ found, ((fieldAnnotated v target options).run.run m).1 = .ok found ∧
      Lists found fun name => Chosen containers options.policies name ∧
        OnField containers target name) ∧
    ∃ found, ((methodAnnotated v target options).run.run m).1 = .ok found ∧
      Lists found fun name => Chosen containers options.policies name ∧
        OnMethod containers target name := by
  intro v m
  have hsound : m.Sound v := sound_foldl_run (Memo.sound_empty v) calls
  have hknown : unknown? v options target = none := by simp [unknown?, hlenient]
  have hgap : firstGap? v options = none := by simp [firstGap?, gap?, unknown?, hlenient]
  have hannotated : ∀ inherited, ((annotated v target inherited options).run.run m).1 =
      .ok (passing v options fun r => r.hasOnClass target ||
        inherited && (v.computeInherited r.name).contains target) := by
    intro inherited
    have hrun := (@settles_annotated v options target inherited m hsound).1
    rw [hknown, hgap, ite_self] at hrun
    exact hrun
  have hassignable : ((assignable v target options).run.run m).1 =
      .ok (passing v options fun r => r.name = target ||
        (v.computeSupertypes r.name).contains target) := by
    have hrun := (@settles_assignable v options target m hsound).1
    rw [hknown, hgap] at hrun
    exact hrun
  have hchecked : ∀ found, ((do checkKnown v options target; return found :
      Ask (List String)).run.run m).1 = .ok found := by
    intro found
    have hrun := ((@settles_checkKnown v options target).map (f := fun _ => found) m hsound).1
    rw [hknown] at hrun
    exact hrun
  refine ⟨⟨_, hannotated false, lists_passing hfilled ?own⟩,
    ⟨_, hannotated true, lists_passing hfilled ?inherited⟩,
    ⟨_, hassignable, lists_passing hfilled ?assignable⟩,
    ⟨_, hchecked _, lists_passing hfilled ?field⟩,
    ⟨_, hchecked _, lists_passing hfilled ?method⟩⟩
  case own =>
    intro name r hr
    simp [OnClass, hr, ClassRecord.hasOnClass_iff]
  case inherited =>
    intro name r hr
    have hname := name_eq_of_winner hfilled hr
    subst hname
    rw [Bool.or_eq_true, Bool.true_and, contains_computeInherited, ClassRecord.hasOnClass_iff]
    constructor
    · rintro (hown | ⟨n, r', hpath, hr', hn⟩)
      · exact ⟨r.name, .refl, r, hr, hown⟩
      · exact ⟨n, hpath, r', hr', hn⟩
    -- What a class carries itself is also found at the start of the path.
    · rintro ⟨n, hpath, r', hr', hn⟩
      exact .inr ⟨n, r', hpath, hr', hn⟩
  case assignable =>
    intro name r hr
    have hname := name_eq_of_winner hfilled hr
    subst hname
    rw [Bool.or_eq_true, decide_eq_true_iff, contains_computeSupertypes]
  case field =>
    intro name r hr
    simp [OnField, hr, ClassRecord.hasOnField_iff]
  case method =>
    intro name r hr
    simp [OnMethod, hr, ClassRecord.hasOnMethod_iff]

/-- An annotated class of a library, a class of the module derived from it, and a definition of the
first in the module that the library comes before. -/
def libraryFirst : List ViewContainer :=
  let base : ClassRecord := ⟨"lib.Base", none, [], {}, [⟨"lib.Audited", .runtime, []⟩], ∅, ∅, ∅, false⟩
  let derived : ClassRecord := ⟨"app.Derived", some "lib.Base", [], {}, [], ∅, ∅, ∅, false⟩
  let library : Index := { identity := ⟨"lib.jar", 4, 1, none⟩ }
  let classes : Index := { identity := ⟨"classes", 8, 1, none⟩ }
  [⟨⟨.archive "lib.jar", .external⟩, library.insert "lib/Base.class" base, 1⟩,
    ⟨⟨.directory "classes", .seed⟩,
      (classes.insert "app/Derived.class" derived).insert "lib/Base.class" base, 2⟩]

/-- The derived class alone is reported: the library is not looked into for answers, but for the
hierarchy it is. -/
theorem annotated_libraryFirst :
    (∀ c ∈ libraryFirst, c.index.Filled) ∧ ({} : QueryOptions).strict = false ∧
    ∃ found, ((annotated (ofContainers libraryFirst) "lib.Audited" true {}).run.run {}).1 =
      .ok found ∧ "app.Derived" ∈ found ∧ "lib.Base" ∉ found := by
  have hfilled : ∀ c ∈ libraryFirst, c.index.Filled := by
    intro c hc
    simp only [libraryFirst, List.mem_cons, List.not_mem_nil, or_false] at hc
    rcases hc with rfl | rfl
    · dsimp only
      exact (Index.Filled.empty _).insert _ _
    · dsimp only
      exact ((Index.Filled.empty _).insert _ _).insert _ _
  obtain ⟨-, ⟨found, hrun, hlists⟩, -⟩ :=
    lenient_answers_exact hfilled (rfl : ({} : QueryOptions).strict = false) [] "lib.Audited"
  refine ⟨hfilled, rfl, found, hrun, ?_, ?_⟩
  · refine (hlists.mem_iff _).mpr ⟨⟨_, rfl, by decide⟩, "lib.Base", .single ⟨_, rfl, .inl rfl⟩, ?_⟩
    exact ⟨_, rfl, _, List.mem_singleton_self _, rfl⟩
  · intro hmem
    obtain ⟨⟨c, hc, hpolicy⟩, -⟩ := (hlists.mem_iff _).mp hmem
    have hlibrary : (libraryFirst.find? fun c => c.defines "lib.Base") = libraryFirst.head? := rfl
    rw [hlibrary] at hc
    cases hc
    simp at hpolicy

end Query

end ClassCatalog
