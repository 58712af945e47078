import Mathlib.Data.List.Sort
import ClassCatalog.Proofs.Query.Strictness
import ClassCatalog.Proofs.View.Hidden

/-!
# Containers behind the others

Containers appended to a list decide only about names that none of the others defines
(`find?_defines_append`). So a definition that counts goes on to count (`winner_append`), an edge of the
hierarchy stays one (`Extends.append`), and a chain of superclasses is at most continued
(`chainFrom_append`). Of what queries report nothing is taken away: `Answer.Within`.
-/

namespace ClassCatalog

open Relation

namespace View

variable {before : List ViewContainer} {name t a b : String} {r : ClassRecord}
  (after : List ViewContainer)

theorem winner_append (h : winner before name = some r) : winner (before ++ after) name = some r := by
  unfold winner at *
  rw [List.findSome?_append, h]
  rfl

theorem find?_defines_append (h : name ∈ (ofContainers before).classNames) :
    ((before ++ after).find? fun c => c.defines name) = before.find? fun c => c.defines name := by
  obtain ⟨position, hposition⟩ := NameMap.mem_names_iff.mp h
  rw [find?_lookup_ofContainers] at hposition
  have hsome : (before.find? fun c => c.defines name).isSome := by
    rw [List.find?_isSome, ← List.any_eq_true, ← List.findIdx?_isSome, hposition]
    rfl
  rw [List.find?_append, Option.or_of_isSome hsome]

theorem find?_lookup_append {position : Nat}
    (h : (ofContainers before).lookup.find? name = some position) :
    (ofContainers (before ++ after)).lookup.find? name = some position := by
  rw [find?_lookup_ofContainers] at h ⊢
  rw [List.findIdx?_append, h]
  rfl

/-! ### The hierarchy -/

theorem Extends.append (h : Extends before a b) : Extends (before ++ after) a b := by
  obtain ⟨r, hr, hb⟩ := h
  exact ⟨r, winner_append after hr, hb⟩

theorem chainFrom_append (seen : List String) (name : String) :
    (ofContainers before).chainFrom seen name <+:
      (ofContainers (before ++ after)).chainFrom seen name := by
  have hkeeps : ∀ {name r}, (ofContainers before).class? name = some r →
      (ofContainers (before ++ after)).class? name = some r := by
    intro name r hr
    rw [class?_ofContainers] at hr ⊢
    exact winner_append after hr
  fun_induction View.chainFrom (ofContainers before) seen name with
  | case1 seen name hseen => exact List.nil_prefix
  -- The chain ended where no container defined the name; it may now go on.
  | case2 seen name hseen hnone =>
    rw [chainFrom_eq, if_neg hseen]
    split
    · exact List.prefix_rfl
    · split
      · exact List.prefix_rfl
      · exact ⟨_, rfl⟩
  | case3 seen name hseen r hr hroot =>
    rw [chainFrom_eq, if_neg hseen, hkeeps hr]
    simp only [hroot]
    exact List.prefix_rfl
  | case4 seen name hseen r hr parent hparent ih =>
    rw [chainFrom_eq (ofContainers (before ++ after)), if_neg hseen, hkeeps hr]
    simp only [hparent]
    exact List.cons_prefix_cons.mpr ⟨rfl, ih⟩

theorem contains_computeSupertypes_append
    (h : ((ofContainers before).computeSupertypes name).contains t = true) :
    ((ofContainers (before ++ after)).computeSupertypes name).contains t = true := by
  rw [contains_computeSupertypes] at h ⊢
  exact TransGen.mono (fun _ _ => Extends.append after) _ _ h

theorem contains_computeInherited_append
    (h : ((ofContainers before).computeInherited name).contains t = true) :
    ((ofContainers (before ++ after)).computeInherited name).contains t = true := by
  rw [contains_computeInherited] at h ⊢
  obtain ⟨n, r, hpath, hr, hannotated⟩ := h
  exact ⟨n, r, ReflTransGen.mono (fun _ _ => Extends.append after) _ _ hpath, winner_append after hr,
    hannotated⟩

/-! ### The classes -/

theorem classNames_append : (ofContainers before).classNames.Sublist
    (ofContainers (before ++ after)).classNames := by
  have hsubset : (ofContainers before).classNames ⊆ (ofContainers (before ++ after)).classNames := by
    intro name hname
    obtain ⟨r, hr⟩ := Option.isSome_iff_exists.mp (mem_classNames_iff.mp hname)
    rw [mem_classNames_iff, winner_append after hr]
    rfl
  exact List.sublist_of_subperm_of_pairwise
    (List.subperm_of_subset (NameMap.nodup_names _) hsubset)
    ((NameMap.pairwise_names _).imp Std.le_of_lt) ((NameMap.pairwise_names _).imp Std.le_of_lt)

theorem classesWithPolicy_append (policies : List ScanPolicy) :
    ((ofContainers before).classesWithPolicy policies).Sublist
      ((ofContainers (before ++ after)).classesWithPolicy policies) := by
  have hsame : (ofContainers before).classNames.filterMap (chosen? before policies) =
      (ofContainers before).classNames.filterMap (chosen? (before ++ after) policies) := by
    refine List.filterMap_congr fun name hname => ?_
    unfold chosen?
    rw [find?_defines_append after hname]
  rw [classesWithPolicy_ofContainers, classesWithPolicy_ofContainers, hsame]
  exact (classNames_append after).filterMap _

end View

namespace Query

open View

variable {before : List ViewContainer} {options : QueryOptions} (after : List ViewContainer)

/-- All that one answer lists, the other lists in the same order. -/
def Answer.Within : Answer → Answer → Prop
  | names found, names more => found.Sublist more
  | usages found, usages more => found.Sublist more
  | _, _ => False

theorem passing_append {passes passes' : ClassRecord → Bool}
    (h : ∀ r, passes r = true → passes' r = true) :
    (passing (ofContainers before) options passes).Sublist
      (passing (ofContainers (before ++ after)) options passes') := by
  have hcandidates : ((candidates (ofContainers before) options).filter passes).Sublist
      ((candidates (ofContainers (before ++ after)) options).filter passes) :=
    (classesWithPolicy_append after options.policies).filter passes
  exact (hcandidates.trans (List.monotone_filter_right _ h)).map _

theorem Request.answer_append (request : Request) :
    (request.answer (ofContainers before) options).Within
      (request.answer (ofContainers (before ++ after)) options) := by
  cases request with
  | annotated target inherited =>
    refine passing_append after fun r hr => ?_
    simp only [Bool.or_eq_true, Bool.and_eq_true] at hr ⊢
    exact hr.imp_right fun ⟨hinherited, h⟩ => ⟨hinherited, contains_computeInherited_append after h⟩
  | assignable target =>
    refine passing_append after fun r hr => ?_
    simp only [Bool.or_eq_true] at hr ⊢
    exact hr.imp_right (contains_computeSupertypes_append after)
  | inPackage target => exact passing_append after fun _ hr => hr
  | fieldAnnotated target => exact passing_append after fun _ hr => hr
  | methodAnnotated target => exact passing_append after fun _ hr => hr
  | annotationsOn target =>
    show List.Sublist (Option.getD _ _) (Option.getD _ _)
    rw [class?_ofContainers, class?_ofContainers]
    cases hr : winner before target with
    | none => exact List.nil_sublist _
    | some r => rw [winner_append after hr]

end Query

namespace View

/-- Containers appended at the end take nothing away, whatever was asked of the two views before: a
class that was defined keeps its record and its container, a chain of superclasses goes on as it began,
supertypes and inherited annotations stay what they are, and a query that is not strict reports what it
reported, in the same order. -/
theorem appended_take_nothing_away (before after : List ViewContainer) (calls calls' : List Call) :
    let v := ofContainers before
    let w := ofContainers (before ++ after)
    let m := calls.foldl (Call.run v) {}
    let m' := calls'.foldl (Call.run w) {}
    (∀ name, v.contains name = true → w.contains name = true ∧ w.class? name = v.class? name ∧
      w.containerOf? name = v.containerOf? name ∧ w.lookup.find? name = v.lookup.find? name) ∧
    (∀ name, v.superChain name <+: w.superChain name ∧
      (∀ t, ((v.supertypes name).run m).1.contains t = true →
        ((w.supertypes name).run m').1.contains t = true) ∧
      ∀ t, ((v.inheritedAnnotations name).run m).1.contains t = true →
        ((w.inheritedAnnotations name).run m').1.contains t = true) ∧
    ∀ (options : QueryOptions) (request : Query.Request), options.strict = false →
      ∃ found more, ((request.run v options).run.run m).1 = .ok found ∧
        ((request.run w options).run.run m').1 = .ok more ∧ found.Within more := by
  intro v w m m'
  have hm : m.Sound v := sound_foldl_run (Memo.sound_empty v) calls
  have hm' : m'.Sound w := sound_foldl_run (Memo.sound_empty w) calls'
  refine ⟨fun name hdefined => ?single, fun name => ⟨chainFrom_append after [] name, ?supertypes,
    ?inherited⟩, fun options request hlenient => ?query⟩
  case single =>
    obtain ⟨position, hposition⟩ := Option.isSome_iff_exists.mp hdefined
    have hposition' : w.lookup.find? name = some position := find?_lookup_append after hposition
    have hname : name ∈ v.classNames := NameMap.mem_names_iff.mpr ⟨position, hposition⟩
    have hcontainer : w.containerOf? name = v.containerOf? name := by
      rw [containerOf?_ofContainers, containerOf?_ofContainers, find?_defines_append after hname]
    refine ⟨?_, ?_, hcontainer, hposition'.trans hposition.symm⟩
    · exact congrArg Option.isSome hposition'
    · rw [View.class?, View.class?, hcontainer]
  case supertypes =>
    rw [(run_supertypes hm name).1, (run_supertypes hm' name).1]
    exact fun t => contains_computeSupertypes_append after
  case inherited =>
    rw [(run_inheritedAnnotations hm name).1, (run_inheritedAnnotations hm' name).1]
    exact fun t => contains_computeInherited_append after
  case query =>
    have hrun : ∀ (v : View) (m : Memo), m.Sound v →
        ((request.run v options).run.run m).1 = .ok (request.answer v options) := by
      intro v m hm
      rw [(request.settles_run m hm).1, request.stop?_of_lenient v hlenient]
      rfl
    exact ⟨_, _, hrun v m hm, hrun w m' hm', request.answer_append after⟩

/-- The library that defines the superclass of `Query.withoutLibrary`. Its own hierarchy leads back to the
class that is derived from it. -/
def auditedLibrary : List ViewContainer :=
  let base : ClassRecord :=
    ⟨"lib.Base", some "lib.Root", [], {}, [⟨"lib.Audited", .runtime, []⟩], ∅, ∅, ∅, false⟩
  let root : ClassRecord := ⟨"lib.Root", some "app.Derived", [], {}, [], ∅, ∅, ∅, false⟩
  let library : Index := { identity := ⟨"lib.jar", 4, 1, none⟩ }
  [⟨⟨.archive "lib.jar", .external⟩,
    (library.insert "lib/Base.class" base).insert "lib/Root.class" root, 2⟩]

/-- With the library the chain of the class goes on, up to where it would come back to the class; and
the annotation of the library is reported on the class. -/
theorem derived_with_auditedLibrary :
    let v := ofContainers Query.withoutLibrary
    let w := ofContainers (Query.withoutLibrary ++ auditedLibrary)
    v.contains "app.Derived" = true ∧ w.containerOf? "app.Derived" = v.containerOf? "app.Derived" ∧
      v.superChain "app.Derived" = ["app.Derived", "lib.Base"] ∧
      w.superChain "app.Derived" = ["app.Derived", "lib.Base", "lib.Root"] ∧
      v.superChain "app.Derived" <+: w.superChain "app.Derived" ∧
      ({} : QueryOptions).strict = false ∧
      ∃ found more, (((Query.Request.annotated "lib.Audited" true).run v {}).run.run {}).1 = .ok found ∧
        (((Query.Request.annotated "lib.Audited" true).run w {}).run.run {}).1 = .ok more ∧
        found.Within more := by
  intro v w
  obtain ⟨hsingle, hhierarchy, hqueries⟩ :=
    appended_take_nothing_away Query.withoutLibrary auditedLibrary [] []
  have hdefined : v.contains "app.Derived" = true := rfl
  obtain ⟨-, -, hcontainer, -⟩ := hsingle "app.Derived" hdefined
  obtain ⟨hchain, -⟩ := hhierarchy "app.Derived"
  refine ⟨hdefined, hcontainer, ?before, ?after, hchain, rfl,
    hqueries {} (.annotated "lib.Audited" true) rfl⟩
  case before => decide +kernel
  case after => decide +kernel

end View

end ClassCatalog
