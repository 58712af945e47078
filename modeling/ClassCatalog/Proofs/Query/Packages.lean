import ClassCatalog.Proofs.Query.Answers
import ClassCatalog.Proofs.Text.Split
import Mathlib.Data.List.Basic
import Mathlib.Data.List.DropRight
import Mathlib.Data.List.Induction

/-!
# Packages by whole segments

A package covers another if its segments, the parts between the dots, are the first segments of the
other; dots at its end do not count, and the empty package covers everything (`Covers`). The query
tests characters: the same text, or the text with a dot behind it. Both come to the same
(`isInPackage_iff`), so that what is reported follows from the segments alone
(`inPackage_by_segments`). What a package below another covers, the other covers too (`Covers.trans`).
-/

namespace ClassCatalog

namespace Query

open View

variable {target longer package : List Char}

/-- The parts between the dots. -/
def segments (text : List Char) : List (List Char) := Text.splitAll '.' text

/-- Without the dots at its end. -/
def trimmed (text : List Char) : List Char := text.rdropWhile (· == '.')

/-- What stands before the last dot; nothing if there is none. -/
def beforeLastDot (text : List Char) : List Char := (text.rdropWhile (· != '.')).dropLast

/-- A package covers another if it is empty or begins it segment by segment. -/
def Covers (target package : List Char) : Prop :=
  trimmed target = [] ∨ segments (trimmed target) <+: segments package

/-! ### Dots at the end -/

theorem trimmed_append (text more : List Char) :
    trimmed (text ++ more) = if trimmed more = [] then trimmed text else text ++ trimmed more := by
  induction more using List.reverseRecOn with
  | nil => simp [trimmed]
  | append_singleton more c ih =>
    rw [← List.append_assoc]
    unfold trimmed at ih ⊢
    rw [List.rdropWhile_concat, List.rdropWhile_concat]
    split
    · exact ih
    · rw [if_neg (by simp), List.append_assoc]

theorem trimmed_trimmed (text : List Char) : trimmed (trimmed text) = trimmed text :=
  List.rdropWhile_idempotent _ _

theorem trimmed_append_dot (text more : List Char) :
    trimmed (text ++ '.' :: more) =
      if trimmed more = [] then trimmed text else text ++ '.' :: trimmed more := by
  rw [List.append_cons, trimmed_append, trimmed_append text]
  simp [show trimmed ['.'] = [] from rfl]

theorem eq_trimmed_or_dot (text : List Char) :
    text = trimmed text ∨ ∃ more, text = trimmed text ++ '.' :: more := by
  have hparts : trimmed text ++ text.rtakeWhile (· == '.') = text :=
    List.rdropWhile_append_rtakeWhile
  cases hdots : text.rtakeWhile (· == '.') with
  | nil =>
    rw [hdots, List.append_nil] at hparts
    exact .inl hparts.symm
  | cons c dots =>
    have hc : c = '.' := by
      have hall := List.mem_rtakeWhile_imp (x := c) (l := text) (p := (· == '.'))
        (by rw [hdots]; exact List.mem_cons_self)
      simpa using hall
    rw [hdots, hc] at hparts
    exact .inr ⟨dots, hparts.symm⟩

/-! ### Covering -/

/-- The two forms in which the query looks for it. -/
theorem covers_iff : Covers target package ↔ trimmed target = [] ∨ package = trimmed target ∨
    ∃ rest, package = trimmed target ++ '.' :: rest := by
  rw [Covers, segments, segments, Text.splitAll_prefix_iff]

theorem isInPackage_iff : isInPackage (trimmed target) package = true ↔ Covers target package := by
  rw [covers_iff, isInPackage, Bool.or_eq_true, Bool.or_eq_true, List.isEmpty_iff, beq_iff_eq, or_assoc]
  refine or_congr_right (or_congr_right ?_)
  split
  · rename_i rest hdrop
    exact iff_of_true rfl ⟨rest, Text.dropStart?_eq_some.mp hdrop⟩
  · rename_i hno
    refine iff_of_false Bool.false_ne_true ?_
    rintro ⟨rest, hrest⟩
    exact hno rest (Text.dropStart?_eq_some.mpr hrest)

example : isInPackage "com.acme".toList "com.acme.web".toList = true ∧
    isInPackage "com.acme".toList "com.acmetools".toList = false := by decide

/-- A package that is not empty covers what it covers also without the dots at its end. -/
theorem Covers.trimmed (h : Covers target package) (hne : trimmed target ≠ []) :
    Covers target (trimmed package) := by
  rw [covers_iff] at h ⊢
  rcases h with hnil | hsame | ⟨rest, hrest⟩
  · exact absurd hnil hne
  · rw [hsame, trimmed_trimmed]
    exact .inr (.inl rfl)
  · rw [hrest, trimmed_append_dot, trimmed_trimmed]
    split
    · exact .inr (.inl rfl)
    · exact .inr (.inr ⟨_, rfl⟩)

theorem Covers.trans (h : Covers target longer) (hlonger : Covers longer package) :
    Covers target package := by
  rcases Decidable.em (Query.trimmed target = []) with hnil | hne
  · exact .inl hnil
  · have hstart := (h.trimmed hne).resolve_left hne
    rcases hlonger with hnil | hlonger
    -- The longer package has segments, so it is not made of dots alone.
    · rw [hnil, segments, segments, Text.splitAll_prefix_iff] at hstart
      rcases hstart with heq | ⟨rest, heq⟩
      · exact absurd heq.symm hne
      · simp at heq
    · exact .inr (hstart.trans hlonger)

theorem covers_append_dot (target more : List Char) : Covers target (target ++ '.' :: more) := by
  rw [covers_iff]
  rcases eq_trimmed_or_dot target with heq | ⟨dots, heq⟩
  · exact .inr (.inr ⟨more, by rw [← heq]⟩)
  · refine .inr (.inr ⟨dots ++ '.' :: more, ?_⟩)
    nth_rewrite 1 [heq]
    simp

/-- The package of a class is what stands before the last dot of its name. -/
theorem toList_package (name : String) :
    (ClassName.package name).toList = beforeLastDot name.toList := by
  have hparts : name.toList.rdropWhile (· != '.') ++ name.toList.rtakeWhile (· != '.') = name.toList :=
    List.rdropWhile_append_rtakeWhile
  have hlast : '.' ∉ name.toList.rtakeWhile (· != '.') := by
    intro hmem
    simpa using List.mem_rtakeWhile_imp hmem
  rw [ClassName.package, beforeLastDot]
  rcases List.eq_nil_or_concat' (name.toList.rdropWhile (· != '.')) with hnil | ⟨before, c, hdot⟩
  · rw [hnil, List.nil_append] at hparts
    rw [hparts] at hlast
    rw [Text.splitLast?_eq_none.2 hlast, hnil]
    rfl
  · have hc : c = '.' := by
      have hne : name.toList.rdropWhile (· != '.') ≠ [] := by simp [hdot]
      have hnot := List.rdropWhile_last_not (· != '.') name.toList hne
      simpa [hdot] using hnot
    rw [hdot, hc, List.append_assoc, List.singleton_append] at hparts
    rw [hdot, ← hparts, Text.splitLast?_append hlast]
    simp

/-! ### What is reported -/

/-- Which names the classes reported stand under, in whatever way the containers were made. -/
theorem inPackage_eq (containers : List ViewContainer) (options : QueryOptions) (target : String) :
    ∃ keys, Lists keys (fun key => Chosen containers options.policies key ∧
        ∃ r, winner containers key = some r ∧
          Covers target.toList (beforeLastDot r.name.toList)) ∧
      inPackage (ofContainers containers) target options =
        keys.filterMap fun key => (winner containers key).map (·.name) := by
  -- The records are filtered after they were looked up; here the names are, before.
  let passes (r : ClassRecord) : Bool :=
    isInPackage (trimmed target.toList) (ClassName.package r.name).toList
  have hpasses (r : ClassRecord) : passes r = true ↔
      Covers target.toList (beforeLastDot r.name.toList) := by
    rw [← toList_package]
    exact isInPackage_iff
  let found (key : String) : Bool := (chosen? containers options.policies key).any passes
  have hsorted : ((ofContainers containers).classNames.filter found).Pairwise (· < ·) :=
    (ofContainers containers).lookup.pairwise_names.filter _
  refine ⟨_, .of_sorted hsorted fun key => ?mem, ?reported⟩
  case mem =>
    rw [List.mem_filter, mem_classNames_iff, Option.any_eq_true]
    constructor
    · rintro ⟨-, r, hr, hpass⟩
      obtain ⟨hchosen, hwinner⟩ := chosen?_eq_some_iff.mp hr
      exact ⟨hchosen, r, hwinner, (hpasses r).mp hpass⟩
    · rintro ⟨hchosen, r, hwinner, hcovers⟩
      refine ⟨by rw [hwinner]; rfl, r, chosen?_eq_some_iff.mpr ⟨hchosen, hwinner⟩, ?_⟩
      exact (hpasses r).mpr hcovers
  case reported =>
    show ((candidates (ofContainers containers) options).filter passes).map (·.name) = _
    rw [candidates, classesWithPolicy_ofContainers, List.filter_filterMap, List.map_filterMap,
      List.filterMap_filter]
    congr 1
    funext key
    show ((chosen? containers options.policies key).filter passes).map (·.name) =
      if (chosen? containers options.policies key).any passes then
        (winner containers key).map (·.name) else none
    cases hkey : chosen? containers options.policies key with
    | none => rfl
    | some r =>
      rw [(chosen?_eq_some_iff.mp hkey).2, Option.any_some, Option.filter_some]
      split <;> rfl

/-- With a package that another covers no class is reported that is not reported with the other. -/
theorem inPackage_sublist {target longer : String} (h : Covers target.toList longer.toList)
    (v : View) (options : QueryOptions) :
    (inPackage v longer options).Sublist (inPackage v target options) := by
  refine List.Sublist.map _ (List.monotone_filter_right _ fun r hr => ?_)
  exact isInPackage_iff.mpr (h.trans (isInPackage_iff.mp hr))

/-- Of the chosen classes those are reported, in the order of their names, that the package covers
with what stands before their last dot. Where some record stands under another name than its own,
the order is that of the names it stands under. Further segments never add to what is reported. -/
theorem inPackage_by_segments (containers : List ViewContainer) (options : QueryOptions)
    (target : String) :
    let v := ofContainers containers
    ((∀ c ∈ containers, c.index.Keyed) →
      Lists (inPackage v target options) fun name => Chosen containers options.policies name ∧
        Covers target.toList (beforeLastDot name.toList)) ∧
    (∃ keys, Lists keys (fun key => Chosen containers options.policies key ∧
        ∃ r, winner containers key = some r ∧
          Covers target.toList (beforeLastDot r.name.toList)) ∧
      inPackage v target options =
        keys.filterMap fun key => (winner containers key).map (·.name)) ∧
    (∀ longer : String, Covers target.toList longer.toList →
      (inPackage v longer options).Sublist (inPackage v target options)) ∧
    ∀ more : String, (inPackage v (target ++ "." ++ more) options).Sublist
      (inPackage v target options) := by
  intro v
  refine ⟨fun hkeyed => ?_, inPackage_eq containers options target,
    fun longer h => inPackage_sublist h v options,
    fun more => inPackage_sublist ?_ v options⟩
  · obtain ⟨keys, hkeys, hreported⟩ := inPackage_eq containers options target
    have hsame : (keys.filterMap fun key => (winner containers key).map (·.name)) = keys := by
      calc (keys.filterMap fun key => (winner containers key).map (·.name))
        _ = keys.filterMap some := by
          refine List.filterMap_congr fun key hkey => ?_
          obtain ⟨-, r, hr, -⟩ := (hkeys.mem_iff key).mp hkey
          rw [hr, Option.map_some, name_eq_of_keyed hkeyed hr]
        _ = keys := List.filterMap_some
    rw [hreported, hsame]
    refine ⟨hkeys.increasing, hkeys.nodup, fun key => (hkeys.mem_iff key).trans ?_⟩
    refine and_congr_right fun hchosen => ?_
    obtain ⟨r, hr⟩ := hchosen.exists_winner
    simp [hr, name_eq_of_keyed hkeyed hr]
  · simpa using covers_append_dot target.toList more.toList

/-- A class of a package, one of a package below it, one of a package that only begins with the same characters,
and one of no package. -/
def fourPackages : List ViewContainer :=
  let named (name : String) : ClassRecord := ⟨name, none, [], {}, [], ∅, ∅, ∅, false⟩
  let index : Index := { identity := ⟨"classes", 8, 1, none⟩ }
  [⟨⟨.directory "classes", .seed⟩,
    (((index.insert "A.class" (named "com.acme.A")).insert "B.class" (named "com.acme.web.B")).insert "C.class"
      (named "com.acmetools.C")).insert "D.class" (named "D"), 1⟩]

theorem inPackage_fourPackages :
    let found := inPackage (ofContainers fourPackages) "com.acme." {}
    (∀ c ∈ fourPackages, c.index.Keyed) ∧
      ("com.acme.A" ∈ found ∧ "com.acme.web.B" ∈ found) ∧ "com.acmetools.C" ∉ found ∧ "D" ∉ found := by
  intro found
  have hkeyed : ∀ c ∈ fourPackages, c.index.Keyed := by
    intro c hc
    obtain rfl := List.mem_singleton.1 hc
    exact (((((Index.Filled.empty _).insert _ _).insert _ _).insert _ _).insert _ _).keyed
  have hlists := (inPackage_by_segments fourPackages {} "com.acme.").1 hkeyed
  refine ⟨hkeyed, ⟨(hlists.mem_iff _).2 ⟨⟨_, rfl, by decide⟩, ?_⟩, (hlists.mem_iff _).2 ⟨⟨_, rfl, by decide⟩, ?_⟩⟩,
    fun hfound => ?_, fun hfound => ?_⟩
  · unfold Covers
    decide
  · unfold Covers
    decide
  · have hcovers := ((hlists.mem_iff _).1 hfound).2
    unfold Covers at hcovers
    revert hcovers
    decide
  · have hcovers := ((hlists.mem_iff _).1 hfound).2
    unfold Covers at hcovers
    revert hcovers
    decide

end Query

end ClassCatalog
