import ClassCatalog.Proofs.Query.Outcome
import ClassCatalog.Proofs.Text.ByteOrder
import ClassCatalog.Proofs.View.Chosen

/-!
# What strictness changes

A strict query either answers as if it were not strict or stops at a name
(`strict_only_guards`). It stops at a target that it does not know. If it follows the hierarchy, it
also stops on account of the first of the chosen classes with a gap above it, and there at the
first gap; both lists are searched in the order of the names (`findSome?_eq_some_iff_first`).
-/

namespace ClassCatalog

open Relation

namespace View

/-- No container defines the name, and it is not assumed to belong to the platform. -/
def Unknown (containers : List ViewContainer) (options : QueryOptions) (name : String) : Prop :=
  winner containers name = none ∧ ¬ ∃ start ∈ options.platform, start.toList <+: name.toList

/-- The hierarchy above a class leads to an unknown name. -/
def Gap (containers : List ViewContainer) (options : QueryOptions) (className name : String) :
    Prop :=
  TransGen (Extends containers) className name ∧ Unknown containers options name

end View

namespace Query

open View

variable {containers : List ViewContainer} {options : QueryOptions} {className name : String}

/-- Of the names with a property the first in the order of their bytes. -/
def Least (P : String → Prop) (name : String) : Prop :=
  P name ∧ ∀ other, P other → Utf8.encode name ≤ Utf8.encode other

/-- A search through a list in the order of its names finds what it finds at the least name. -/
theorem findSome?_eq_some_iff_first {α β : Type} {key : α → String} {l : List α}
    (hsorted : l.Pairwise fun a b => key a < key b) {f : α → Option β} {b : β} :
    l.findSome? f = some b ↔
      ∃ a ∈ l, f a = some b ∧ ∀ a' ∈ l, (f a').isSome → key a ≤ key a' := by
  rw [List.findSome?_eq_some_iff]
  constructor
  · rintro ⟨before, a, after, rfl, ha, hbefore⟩
    refine ⟨a, by simp, ha, fun a' ha' hsome => ?_⟩
    -- Nothing is found before `a`, and what stands after it has a greater key.
    rcases List.mem_append.mp ha' with hmem | hmem
    · rw [hbefore a' hmem] at hsome
      nomatch hsome
    · rcases List.mem_cons.mp hmem with rfl | hmem
      · exact String.le_refl _
      · have hlt := (List.pairwise_cons.mp (List.pairwise_append.mp hsorted).2.1).1 a' hmem
        exact String.not_lt.mp fun hgt => String.lt_irrefl _ (String.lt_trans hlt hgt)
  · rintro ⟨a, hmem, ha, hfirst⟩
    obtain ⟨before, after, rfl⟩ := List.append_of_mem hmem
    refine ⟨before, a, after, rfl, ha, fun x hx => ?_⟩
    have hlt : key x < key a := (List.pairwise_append.mp hsorted).2.2 x hx a List.mem_cons_self
    cases hfx : f x with
    | none => rfl
    -- Something found before `a` would be at a key not smaller than that of `a`.
    | some y =>
      have hle := hfirst x (List.mem_append_left _ hx) (by rw [hfx]; rfl)
      exact absurd hlt (String.not_lt.mpr hle)

theorem isKnown_eq_false_iff :
    isKnown (ofContainers containers) options name = false ↔ Unknown containers options name := by
  simp [isKnown, isPlatform, Unknown, contains_ofContainers]

theorem unknown?_eq_some_iff {found : String} :
    unknown? (ofContainers containers) options name = some found ↔
      options.strict = true ∧ Unknown containers options name ∧ name = found := by
  rw [unknown?, ← isKnown_eq_false_iff]
  cases options.strict <;> cases isKnown (ofContainers containers) options name <;> simp

theorem unknown?_eq_none_iff : unknown? (ofContainers containers) options name = none ↔
    (options.strict = true → ¬ Unknown containers options name) := by
  rw [unknown?, ← isKnown_eq_false_iff]
  cases options.strict <;> cases isKnown (ofContainers containers) options name <;> simp

theorem mem_boundary_iff : name ∈ boundary (ofContainers containers) className ↔
    TransGen (Extends containers) className name ∧ winner containers name = none := by
  rw [boundary, List.mem_filter, NameMap.mem_names_iff, ← Option.isSome_iff_exists,
    ← contains_computeSupertypes, NameMap.contains]
  simp [contains_ofContainers]

theorem isSome_gap?_iff : (gap? (ofContainers containers) options className).isSome ↔
    options.strict = true ∧ ∃ n, Gap containers options className n := by
  rw [gap?, List.findSome?_isSome_iff]
  simp only [Option.isSome_iff_exists, unknown?_eq_some_iff, mem_boundary_iff]
  constructor
  · rintro ⟨n, ⟨hpath, _⟩, _, hstrict, hunknown, rfl⟩
    exact ⟨hstrict, n, hpath, hunknown⟩
  · rintro ⟨hstrict, n, hpath, hunknown⟩
    exact ⟨n, ⟨hpath, hunknown.1⟩, n, hstrict, hunknown, rfl⟩

theorem gap?_eq_some_iff : gap? (ofContainers containers) options className = some name ↔
    options.strict = true ∧ Least (Gap containers options className) name := by
  have hsorted : (boundary (ofContainers containers) className).Pairwise (· < ·) :=
    (NameMap.pairwise_names _).filter _
  rw [gap?, findSome?_eq_some_iff_first hsorted]
  simp only [Option.isSome_iff_exists, unknown?_eq_some_iff, mem_boundary_iff, Least,
    Utf8.encode_le_encode_iff]
  constructor
  · rintro ⟨n, ⟨hpath, _⟩, ⟨hstrict, hunknown, rfl⟩, hfirst⟩
    refine ⟨hstrict, ⟨hpath, hunknown⟩, ?_⟩
    rintro other ⟨hother, hunknown'⟩
    exact hfirst other ⟨hother, hunknown'.1⟩ ⟨other, hstrict, hunknown', rfl⟩
  · rintro ⟨hstrict, ⟨hpath, hunknown⟩, hfirst⟩
    refine ⟨name, ⟨hpath, hunknown.1⟩, ⟨hstrict, hunknown, rfl⟩, ?_⟩
    rintro other ⟨hother, _⟩ ⟨_, _, hunknown', rfl⟩
    exact hfirst other ⟨hother, hunknown'⟩

/-- A chosen class with a gap above it. -/
def Gapped (containers : List ViewContainer) (options : QueryOptions) (className : String) : Prop :=
  Chosen containers options.policies className ∧ ∃ n, Gap containers options className n

theorem mem_candidates_iff (hfilled : ∀ c ∈ containers, c.index.Filled) :
    (∃ r ∈ candidates (ofContainers containers) options, r.name = className) ↔
      Chosen containers options.policies className := by
  constructor
  · rintro ⟨r, hr, rfl⟩
    exact ((mem_classesWithPolicy_iff hfilled).mp hr).1
  · intro hchosen
    obtain ⟨r, hwinner⟩ := hchosen.exists_winner
    have hname := name_eq_of_winner hfilled hwinner
    subst hname
    exact ⟨r, (mem_classesWithPolicy_iff hfilled).mpr ⟨hchosen, hwinner⟩, rfl⟩

theorem firstGap?_eq_some_iff (hfilled : ∀ c ∈ containers, c.index.Filled) :
    firstGap? (ofContainers containers) options = some name ↔ options.strict = true ∧
      ∃ C, Least (Gapped containers options) C ∧ Least (Gap containers options C) name := by
  rw [firstGap?, candidates,
    findSome?_eq_some_iff_first (pairwise_classesWithPolicy hfilled options.policies)]
  simp only [isSome_gap?_iff, gap?_eq_some_iff]
  constructor
  · rintro ⟨r, hr, ⟨hstrict, hleast⟩, hfirst⟩
    have hchosen := (mem_candidates_iff hfilled).mp ⟨r, hr, rfl⟩
    refine ⟨hstrict, r.name, ⟨⟨hchosen, name, hleast.1⟩, ?_⟩, hleast⟩
    rintro other ⟨hother, hgap⟩
    obtain ⟨r', hr', rfl⟩ := (mem_candidates_iff hfilled).mpr hother
    exact Utf8.encode_le_encode_iff.mpr (hfirst r' hr' ⟨hstrict, hgap⟩)
  · rintro ⟨hstrict, C, ⟨⟨hchosen, _⟩, hfirst⟩, hleast⟩
    obtain ⟨r, hr, rfl⟩ := (mem_candidates_iff hfilled).mpr hchosen
    refine ⟨r, hr, ⟨hstrict, hleast⟩, fun r' hr' hgap => ?_⟩
    have hchosen' := (mem_candidates_iff hfilled).mp ⟨r', hr', rfl⟩
    exact Utf8.encode_le_encode_iff.mp (hfirst r'.name ⟨hchosen', hgap.2⟩)

namespace Request

/-- The target of a query is a type, unless it is a package. -/
def namesType : Request → Bool
  | inPackage _ => false
  | _ => true

/-- Whether a query looks at what is above a class. -/
def followsHierarchy : Request → Bool
  | annotated _ inherited => inherited
  | assignable _ => true
  | _ => false

theorem stop?_eq (v : View) (options : QueryOptions) (request : Request) :
    request.stop? v options = if request.namesType then
      (unknown? v options request.target).or
        (if request.followsHierarchy then firstGap? v options else none) else none := by
  cases request with
  | annotated target inherited => rfl
  | assignable target => rfl
  | inPackage target => rfl
  | fieldAnnotated target => exact (Option.or_none).symm
  | methodAnnotated target => exact (Option.or_none).symm
  | annotationsOn target => exact (Option.or_none).symm

theorem stop?_of_lenient (v : View) (h : options.strict = false) (request : Request) :
    request.stop? v options = none := by
  rw [stop?_eq]
  simp [unknown?, firstGap?, gap?, h]

theorem answer_strict (v : View) (options : QueryOptions) (strict : Bool) (request : Request) :
    request.answer v { options with strict } = request.answer v options := by
  cases request <;> rfl

theorem stop?_eq_some_iff (hfilled : ∀ c ∈ containers, c.index.Filled) (request : Request) :
    request.stop? (ofContainers containers) options = some name ↔
      options.strict = true ∧ request.namesType = true ∧
        (Unknown containers options request.target ∧ name = request.target ∨
          ¬ Unknown containers options request.target ∧ request.followsHierarchy = true ∧
            ∃ C, Least (Gapped containers options) C ∧ Least (Gap containers options C) name) := by
  rw [stop?_eq]
  cases request.namesType with
  | false => simp
  | true =>
    rw [if_pos rfl, Option.or_eq_some_iff, unknown?_eq_none_iff, unknown?_eq_some_iff,
      Option.ite_none_right_eq_some, firstGap?_eq_some_iff hfilled]
    constructor
    · rintro (⟨hstrict, hunknown, heq⟩ | ⟨hknown, hfollows, hstrict, hgap⟩)
      · exact ⟨hstrict, rfl, .inl ⟨hunknown, heq.symm⟩⟩
      · exact ⟨hstrict, rfl, .inr ⟨hknown hstrict, hfollows, hgap⟩⟩
    · rintro ⟨hstrict, -, ⟨hunknown, heq⟩ | ⟨hknown, hfollows, hgap⟩⟩
      · exact .inl ⟨hstrict, hunknown, heq.symm⟩
      · exact .inr ⟨fun _ => hknown, hfollows, hstrict, hgap⟩

end Request

/-- After any calls a query answers as it does before any; a query that is not strict does not fail,
and a strict one answers like it or stops at an unknown name. That is its target; or, of a target
that it knows, the first gap above the first of the chosen classes that have one. -/
theorem strict_only_guards (hfilled : ∀ c ∈ containers, c.index.Filled) (options : QueryOptions)
    (request : Request) (calls : List Call) :
    let v := ofContainers containers
    let m := calls.foldl (Call.run v) {}
    let lenient := { options with strict := false }
    let ask (o : QueryOptions) (m : Memo) := ((request.run v o).run.run m).1
    ask options m = ask options {} ∧
    (∃ a, ask lenient m = .ok a) ∧
    (ask options m = ask lenient m ∨ ∃ n, ask options m = .error (.unknownReferenceType n)) ∧
    ∀ n, ask options m = .error (.unknownReferenceType n) ↔
      options.strict = true ∧ request.namesType = true ∧
        (Unknown containers options request.target ∧ n = request.target ∨
          ¬ Unknown containers options request.target ∧ request.followsHierarchy = true ∧
            ∃ C, Least (Gapped containers options) C ∧ Least (Gap containers options C) n) := by
  intro v m lenient ask
  have hask : ∀ (o : QueryOptions) (m : Memo), m.Sound v →
      ask o m = outcome (request.stop? v o) (request.answer v o) :=
    fun o m hm => (request.settles_run m hm).1
  have hsound : m.Sound v := sound_foldl_run (Memo.sound_empty v) calls
  have hlenient : ask lenient m = .ok (request.answer v options) := by
    rw [hask lenient m hsound, request.stop?_of_lenient v rfl, request.answer_strict]
    rfl
  refine ⟨?fresh, ⟨_, hlenient⟩, ?guard, fun n => ?stops⟩
  case fresh => rw [hask options m hsound, hask options {} (Memo.sound_empty v)]
  case guard =>
    rw [hask options m hsound, hlenient]
    cases request.stop? v options with
    | none => exact .inl rfl
    | some n => exact .inr ⟨n, rfl⟩
  case stops =>
    rw [hask options m hsound, outcome_eq_error_iff]
    exact request.stop?_eq_some_iff hfilled

/-- A class whose superclass no container defines. -/
def withoutLibrary : List ViewContainer :=
  let derived : ClassRecord := ⟨"app.Derived", some "lib.Base", [], {}, [], ∅, ∅, ∅, false⟩
  let classes : Index := { identity := ⟨"classes", 8, 1, none⟩ }
  [⟨⟨.directory "classes", .seed⟩, classes.insert "app/Derived.class" derived, 1⟩]

theorem extends_withoutLibrary {a b : String} (h : Extends withoutLibrary a b) :
    a = "app.Derived" ∧ b = "lib.Base" := by
  obtain ⟨r, hr, hb⟩ := h
  by_cases ha : a = "app.Derived"
  · subst ha
    cases hr
    rcases hb with hb | hb
    · cases hb
      exact ⟨rfl, rfl⟩
    · cases hb
  · have hnone : winner withoutLibrary a = none := by
      have hempty : ∀ n, (∅ : NameMap ClassRecord).find? n = none := fun _ => rfl
      simp [winner, withoutLibrary, Index.insert, NameMap.contains, NameMap.find?_insert, ha, hempty]
    rw [hnone] at hr
    cases hr

/-- Asked for the classes derived from a known class, the strict query stops above that class. -/
theorem strict_withoutLibrary : (∀ c ∈ withoutLibrary, c.index.Filled) ∧
    (((Request.assignable "app.Derived").run (ofContainers withoutLibrary)
      { strict := true }).run.run {}).1 = .error (.unknownReferenceType "lib.Base") := by
  have hfilled : ∀ c ∈ withoutLibrary, c.index.Filled := by
    intro c hc
    cases List.mem_singleton.mp hc
    dsimp only
    exact (Index.Filled.empty _).insert _ _
  obtain ⟨-, -, -, hstops⟩ := strict_only_guards hfilled { strict := true }
    (.assignable "app.Derived") []
  have hgap : Gap withoutLibrary { strict := true } "app.Derived" "lib.Base" :=
    ⟨.single ⟨_, rfl, .inl rfl⟩, rfl, by decide⟩
  have honly : ∀ {C n}, Gap withoutLibrary { strict := true } C n →
      C = "app.Derived" ∧ n = "lib.Base" := by
    intro C n h
    obtain ⟨D, hCD, -⟩ := TransGen.head'_iff.mp h.1
    obtain ⟨E, -, hEn⟩ := TransGen.tail'_iff.mp h.1
    exact ⟨(extends_withoutLibrary hCD).1, (extends_withoutLibrary hEn).2⟩
  refine ⟨hfilled, (hstops "lib.Base").mpr ⟨rfl, rfl, .inr ⟨?_, rfl, "app.Derived", ?_, hgap, ?_⟩⟩⟩
  · exact fun hunknown => nomatch hunknown.1
  · refine ⟨⟨⟨_, rfl, by decide⟩, "lib.Base", hgap⟩, ?_⟩
    rintro C ⟨-, n, h⟩
    rw [(honly h).1]
    exact List.le_refl _
  · intro n h
    rw [(honly h).2]
    exact List.le_refl _

end Query

end ClassCatalog
