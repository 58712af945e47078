import ClassCatalog.Disk.Walk
import ClassCatalog.Proofs.Disk.Within
import Mathlib.Data.List.Infix

/-!
# The archives below a directory

A file below a directory is reported if its name has the extension of an archive (`Disk.IsArchiveAt`) and no
ignore rule speaks against it or against a directory on the way to it (`Disk.IsLeftOut`); the closest directory
that has a rule which fits decides (`isIgnoredAt_iff`). What is reported is in the order of the ways to it, each
way once, and each path leads to its file (`archives_are_those_not_left_out`). Where ignore files have no rules
nothing is left out; where they have, a library can be (`library_is_left_out`).
-/

namespace ClassCatalog

/-- A name with the extension of an archive, in either case of its letters. -/
def IsArchiveName (name : String) : Prop :=
  ∃ stem extension : String, name = stem ++ "." ++ extension ∧ stem ≠ "" ∧
    Text.lowerAscii extension ∈ ClassEntry.archiveExtensions

theorem ClassEntry.isArchive_iff {name : String} (hname : IsFileName name) :
    ClassEntry.isArchive name = true ↔ IsArchiveName name := by
  have hextension : FilePath.extension? name = (Text.splitLast? '.' name.toList).bind fun cut =>
      if cut.1 = [] then none else some (String.ofList cut.2) := by
    unfold FilePath.extension?
    rw [hname.fileName?_eq]
    rfl
  unfold ClassEntry.isArchive
  rw [hextension]
  constructor
  · intro h
    cases hcut : Text.splitLast? '.' name.toList with
    | none => simp [hcut] at h
    | some cut =>
      obtain ⟨before, after⟩ := cut
      by_cases hbefore : before = []
      · simp [hcut, hbefore] at h
      · simp only [hcut, Option.bind_some, if_neg hbefore, List.contains_iff_mem] at h
        refine ⟨String.ofList before, String.ofList after, ?_, by simpa using hbefore, h⟩
        rw [← String.toList_inj, (Text.of_splitLast?_eq_some hcut).1]
        simp
  · rintro ⟨stem, extension, rfl, hstem, harchive⟩
    have hdot : '.' ∉ extension.toList := by
      have hfree : ∀ text ∈ archiveExtensions, '.' ∉ text.toList := by decide
      refine fun hmem => hfree _ harchive ?_
      rw [Text.lowerAscii, String.toList_ofList]
      exact List.mem_map.2 ⟨'.', hmem, by decide⟩
    have hcut : Text.splitLast? '.' (stem ++ "." ++ extension).toList = some (stem.toList, extension.toList) := by
      simp [Text.splitLast?_append hdot]
    rw [hcut]
    simp [hstem, harchive]

namespace Disk

variable {d : Disk} {p : Place} {path : String} {names : List String}

/-! ### The order of ways -/

theorem namesLe_cons {a b : List String} {x y : String} :
    namesLe (x :: a) (y :: b) = true ↔ x < y ∨ x = y ∧ namesLe a b = true := by
  rw [namesLe, Bool.or_eq_true, Bool.and_eq_true, decide_eq_true_iff, beq_iff_eq]

theorem namesLe_iff {a b : List String} : namesLe a b = true ↔ a = b ∨ List.Lex (· < ·) a b := by
  induction a generalizing b with
  | nil =>
    cases b with
    | nil => simp [namesLe]
    | cons y b => simp [namesLe]
  | cons x a ih =>
    cases b with
    | nil => simp [namesLe]
    | cons y b =>
      rw [namesLe_cons, ih, List.cons.injEq]
      constructor
      · rintro (hlt | ⟨rfl, rfl | hlex⟩)
        · exact .inr (.rel hlt)
        · exact .inl ⟨rfl, rfl⟩
        · exact .inr (.cons hlex)
      · rintro (⟨rfl, rfl⟩ | hlex)
        · exact .inr ⟨rfl, .inl rfl⟩
        · cases hlex with
          | rel hlt => exact .inl hlt
          | cons hlex => exact .inr ⟨rfl, .inr hlex⟩

theorem namesLe_trans {a b c : List String} (h : namesLe a b = true) (h' : namesLe b c = true) :
    namesLe a c = true := by
  induction a generalizing b c with
  | nil => rfl
  | cons x a ih =>
    match b, c with
    | [], _ => nomatch h
    | y :: b, [] => nomatch h'
    | y :: b, z :: c =>
      rw [namesLe_cons] at h h' ⊢
      rcases h with hlt | ⟨rfl, hle⟩
      · rcases h' with hlt' | ⟨rfl, -⟩
        · exact .inl (String.lt_trans hlt hlt')
        · exact .inl hlt
      · rcases h' with hlt' | ⟨rfl, hle'⟩
        · exact .inl hlt'
        · exact .inr ⟨rfl, ih hle hle'⟩

theorem namesLe_total (a b : List String) : namesLe a b = true ∨ namesLe b a = true := by
  induction a generalizing b with
  | nil => exact .inl rfl
  | cons x a ih =>
    cases b with
    | nil => exact .inr rfl
    | cons y b =>
      rw [namesLe_cons, namesLe_cons]
      by_cases hlt : x < y
      · exact .inl (.inl hlt)
      · by_cases hgt : y < x
        · exact .inr (.inl hgt)
        · obtain rfl : x = y := String.le_antisymm (String.not_lt.1 hgt) (String.not_lt.1 hlt)
          exact (ih b).imp (fun hle => .inr ⟨rfl, hle⟩) fun hle => .inr ⟨rfl, hle⟩

/-- Sorting a list without repetitions makes it increase. -/
theorem increasing_mergeSort {ways : List (List String)} (h : ways.Nodup) :
    (ways.mergeSort namesLe).Pairwise (List.Lex (· < ·)) := by
  have hsorted : (ways.mergeSort namesLe).Pairwise fun a b => namesLe a b = true := by
    refine List.pairwise_mergeSort (fun a b c => ?_) (fun a b => ?_) ways
    · exact namesLe_trans
    · rw [Bool.or_eq_true]
      exact namesLe_total a b
  have hnodup : (ways.mergeSort namesLe).Nodup := (List.mergeSort_perm ways namesLe).nodup_iff.2 h
  exact (hsorted.and hnodup).imp fun hboth => (namesLe_iff.1 hboth.1).resolve_left hboth.2

/-! ### Files below a directory -/

theorem mem_descendants {node : DiskNode} : (names, node) ∈ d.descendants p ↔
    d.node? (p.descend names) = some node ∧ names ≠ [] ∧ names ≠ [""] ∧ ∀ name ∈ names, '/' ∉ name.toList := by
  rw [descendants, List.mem_filterMap]
  constructor
  · rintro ⟨e, he, hbelow⟩
    obtain ⟨names', hnames, heq⟩ := Option.map_eq_some_iff.1 hbelow
    cases heq
    obtain ⟨hkey, hrest⟩ := namesBelow?_eq_some.1 hnames
    refine ⟨?_, hrest⟩
    rw [node?, ← hkey]
    exact NameMap.lookupEntry_of_mem d.nodes.sorted he
  · rintro ⟨hnode, hrest⟩
    refine ⟨((p.descend names).key, node), NameMap.mem_of_lookupEntry hnode, ?_⟩
    rw [namesBelow?_eq_some.2 ⟨rfl, hrest⟩, Option.map_some]

theorem mem_filesBelow : names ∈ d.filesBelow p ↔ ∃ bytes t, (names, .file bytes t) ∈ d.descendants p := by
  rw [filesBelow, List.mem_filterMap]
  constructor
  · rintro ⟨⟨names', node⟩, he, hfile⟩
    cases node with
    | file bytes t =>
      cases hfile
      exact ⟨bytes, t, he⟩
    | directory t => cases hfile
  · rintro ⟨bytes, t, he⟩
    exact ⟨_, he, rfl⟩

theorem nodup_descendants (d : Disk) (p : Place) : (d.descendants p).Pairwise fun e e' => e.1 ≠ e'.1 := by
  unfold descendants
  refine d.nodes.sorted.filterMap _ fun e e' hlt below hbelow below' hbelow' heq => ?_
  obtain ⟨names, hnames, rfl⟩ := Option.map_eq_some_iff.1 hbelow
  obtain ⟨names', hnames', rfl⟩ := Option.map_eq_some_iff.1 hbelow'
  obtain rfl : names = names' := heq
  have hkeys : e.1 = e'.1 := (namesBelow?_eq_some.1 hnames).1.trans (namesBelow?_eq_some.1 hnames').1.symm
  exact absurd hlt (hkeys ▸ String.lt_irrefl _)

theorem nodup_filesBelow (d : Disk) (p : Place) : (d.filesBelow p).Nodup := by
  unfold filesBelow
  refine (nodup_descendants d p).filterMap _ fun e e' hne names hnames names' hnames' => ?_
  obtain ⟨-, hname⟩ := Option.ite_none_left_eq_some.1 hnames
  obtain ⟨-, hname'⟩ := Option.ite_none_left_eq_some.1 hnames'
  rwa [Option.some.inj hname, Option.some.inj hname'] at hne

/-! ### What ignore rules say -/

/-- What the rules in a directory say of something below it. -/
def verdictFrom? (d : Disk) (absolute isDirectory : Bool) (outer names : List String) : Option Verdict :=
  IgnoreRules.verdict? (d.ignoreRules ⟨absolute, outer⟩) (Utf8.encode ("/".intercalate names)) isDirectory

/-- The rules in a directory decide about something below it. -/
structure Decides (d : Disk) (absolute isDirectory : Bool) (outer names : List String) (v : Verdict) : Prop where
  fits : d.verdictFrom? absolute isDirectory outer names = some v
  /-- No rule fits in a directory that is closer. -/
  closest (inner rest : List String) : names = inner ++ rest → inner ≠ [] → rest ≠ [] →
    d.verdictFrom? absolute isDirectory (outer ++ inner) rest = none

variable {absolute isDirectory : Bool} {v : Verdict} {around : List String}

theorem verdictAround?_nil (d : Disk) (absolute isDirectory : Bool) (names : List String) :
    d.verdictAround? absolute isDirectory [] names = d.verdictFrom? absolute isDirectory [] names := by
  cases hrules : d.verdictFrom? absolute isDirectory [] names with
  | none =>
    unfold verdictAround?
    simp only [List.reverse_nil, show IgnoreRules.verdict? _ _ _ = none from hrules]
  | some v =>
    unfold verdictAround?
    simp only [List.reverse_nil, show IgnoreRules.verdict? _ _ _ = some v from hrules]

theorem verdictAround?_cons (d : Disk) (absolute isDirectory : Bool) (name : String) (around names : List String) :
    d.verdictAround? absolute isDirectory (name :: around) names =
      (d.verdictFrom? absolute isDirectory (around.reverse ++ [name]) names).or
        (d.verdictAround? absolute isDirectory around (name :: names)) := by
  rw [← List.reverse_cons]
  cases hrules : d.verdictFrom? absolute isDirectory (name :: around).reverse names with
  | none =>
    conv_lhs => unfold verdictAround?
    simp only [show IgnoreRules.verdict? _ _ _ = none from hrules, Option.none_or]
  | some v =>
    conv_lhs => unfold verdictAround?
    simp only [show IgnoreRules.verdict? _ _ _ = some v from hrules, Option.some_or]

theorem cut_of_append_singleton {before outer inner : List String} {name : String}
    (h : before ++ [name] = outer ++ inner) (hinner : inner ≠ []) :
    ∃ rest, before = outer ++ rest ∧ inner = rest ++ [name] := by
  rcases inner.eq_nil_or_concat' with rfl | ⟨rest, last, rfl⟩
  · exact absurd rfl hinner
  · rw [← List.append_assoc] at h
    obtain ⟨hbefore, hlast⟩ := List.append_inj' h rfl
    exact ⟨rest, hbefore, by rw [hlast]⟩

/-- Where no rule fits in a directory and in those that are closer, the one around it is the closest that can. -/
theorem no_closer_cons {outer : List String} {name : String}
    (hfits : d.verdictFrom? absolute isDirectory (outer ++ [name]) names = none)
    (hcloser : ∀ inner rest, names = inner ++ rest → inner ≠ [] → rest ≠ [] →
      d.verdictFrom? absolute isDirectory (outer ++ [name] ++ inner) rest = none)
    (inner rest : List String) (heq : name :: names = inner ++ rest) (hinner : inner ≠ []) (hrest : rest ≠ []) :
    d.verdictFrom? absolute isDirectory (outer ++ inner) rest = none := by
  obtain ⟨x, inner, rfl⟩ := List.exists_cons_of_ne_nil hinner
  obtain ⟨rfl, hrest'⟩ := List.cons.inj heq
  by_cases hempty : inner = []
  · rw [hempty] at hrest' ⊢
    rwa [hrest'] at hfits
  · rw [← List.singleton_append, ← List.append_assoc]
    exact hcloser inner rest hrest' hempty hrest

theorem verdictAround?_eq_some (hnames : names ≠ [])
    (hcloser : ∀ inner rest, names = inner ++ rest → inner ≠ [] → rest ≠ [] →
      d.verdictFrom? absolute isDirectory (around.reverse ++ inner) rest = none) :
    d.verdictAround? absolute isDirectory around names = some v ↔
      ∃ outer inner, around.reverse = outer ++ inner ∧ d.Decides absolute isDirectory outer (inner ++ names) v := by
  -- The search goes outwards, and `hcloser` holds of every directory that it has passed.
  induction around generalizing names with
  | nil =>
    rw [verdictAround?_nil]
    constructor
    · exact fun h => ⟨[], [], rfl, h, hcloser⟩
    · rintro ⟨outer, inner, heq, hdecides⟩
      obtain ⟨rfl, rfl⟩ := List.append_eq_nil_iff.1 heq.symm
      exact hdecides.fits
  | cons name around ih =>
    rw [List.reverse_cons] at hcloser ⊢
    rw [verdictAround?_cons]
    cases hfits : d.verdictFrom? absolute isDirectory (around.reverse ++ [name]) names with
    | some v' =>
      rw [Option.some_or]
      constructor
      · intro h
        exact ⟨_, [], (List.append_nil _).symm, hfits.trans h, hcloser⟩
      · rintro ⟨outer, inner, heq, hdecides⟩
        by_cases hinner : inner = []
        · rw [hinner, List.append_nil] at heq
          rw [← hfits, heq, hdecides.fits.symm, hinner, List.nil_append]
        · have hnone := hdecides.closest inner names rfl hinner hnames
          rw [← heq, hfits] at hnone
          nomatch hnone
    | none =>
      rw [Option.none_or, ih (List.cons_ne_nil _ _) (no_closer_cons hfits hcloser)]
      constructor
      · rintro ⟨outer, inner, heq, hdecides⟩
        refine ⟨outer, inner ++ [name], by rw [heq, List.append_assoc], ?_⟩
        rwa [List.append_assoc, List.singleton_append]
      · rintro ⟨outer, inner, heq, hdecides⟩
        have hinner : inner ≠ [] := by
          rintro rfl
          have hsome := hdecides.fits
          rw [List.append_nil] at heq
          rw [← heq, List.nil_append, hfits] at hsome
          nomatch hsome
        obtain ⟨before, hbefore, rfl⟩ := cut_of_append_singleton heq hinner
        refine ⟨outer, before, hbefore, ?_⟩
        rwa [List.append_assoc, List.singleton_append] at hdecides

/-- Something is ignored if the closest of the directories around it with a rule that fits says so. -/
theorem isIgnoredAt_iff : d.isIgnoredAt p = true ↔ ∃ outer inner, p.names = outer ++ inner ∧ inner ≠ [] ∧
    d.Decides p.absolute (d.isDirectoryAt p) outer inner .ignored := by
  unfold isIgnoredAt
  rcases p.names.eq_nil_or_concat' with hnames | ⟨around, name, hnames⟩
  · rw [hnames]
    constructor
    · exact nofun
    · rintro ⟨outer, inner, heq, hinner, -⟩
      exact absurd (List.append_eq_nil_iff.1 heq.symm).2 hinner
  · have hcloser : ∀ inner rest, [name] = inner ++ rest → inner ≠ [] → rest ≠ [] →
        d.verdictFrom? p.absolute (d.isDirectoryAt p) (around.reverse.reverse ++ inner) rest = none := by
      intro inner rest heq hinner hrest
      have hlength := congrArg List.length heq
      have := List.length_pos_iff.2 hinner
      have := List.length_pos_iff.2 hrest
      simp at hlength
      omega
    rw [hnames, List.reverse_append, List.reverse_singleton, List.singleton_append]
    dsimp only
    rw [beq_iff_eq, verdictAround?_eq_some (List.cons_ne_nil _ _) hcloser, List.reverse_reverse]
    constructor
    · rintro ⟨outer, inner, rfl, hdecides⟩
      exact ⟨outer, inner ++ [name], List.append_assoc .., by simp, hdecides⟩
    · rintro ⟨outer, inner, heq, hinner, hdecides⟩
      obtain ⟨before, hbefore, rfl⟩ := cut_of_append_singleton heq hinner
      exact ⟨outer, before, hbefore, hdecides⟩

/-- Below a place something is left out if it is ignored, or a directory on the way to it. -/
def IsLeftOut (d : Disk) (p : Place) (names : List String) : Prop :=
  ∃ on, on ≠ [] ∧ on <+: names ∧ d.isIgnoredAt (p.descend on) = true

theorem isIgnored_iff : d.isIgnored p names = true ↔ d.IsLeftOut p names := by
  unfold IsLeftOut
  induction names generalizing p with
  | nil =>
    constructor
    · exact nofun
    · rintro ⟨on, hne, hprefix, -⟩
      exact absurd (List.prefix_nil.1 hprefix) hne
  | cons name names ih =>
    have hdescend : ∀ on, (p.child name).descend on = p.descend (name :: on) := by
      intro on
      simp [Place.child, Place.descend]
    rw [isIgnored, Bool.or_eq_true, ih]
    simp only [hdescend]
    constructor
    · rintro (hname | ⟨on, -, hprefix, hignored⟩)
      · exact ⟨[name], List.cons_ne_nil _ _, ⟨names, rfl⟩, hname⟩
      · exact ⟨name :: on, List.cons_ne_nil _ _, List.cons_prefix_cons.2 ⟨rfl, hprefix⟩, hignored⟩
    · rintro ⟨on, hne, hprefix, hignored⟩
      obtain ⟨x, on, rfl⟩ := List.exists_cons_of_ne_nil hne
      obtain ⟨rfl, hprefix'⟩ := List.cons_prefix_cons.1 hprefix
      by_cases hempty : on = []
      · rw [hempty] at hignored
        exact .inl hignored
      · exact .inr ⟨on, hempty, hprefix', hignored⟩

/-- Where no directory around something has rules, nothing is left out. -/
theorem not_isLeftOut (h : ∀ outer, outer <+: p.names ++ names → d.ignoreRules ⟨p.absolute, outer⟩ = []) :
    ¬ d.IsLeftOut p names := by
  rintro ⟨on, -, hprefix, hignored⟩
  obtain ⟨outer, inner, heq, -, hdecides⟩ := isIgnoredAt_iff.1 hignored
  have houter : outer <+: p.names ++ names :=
    List.IsPrefix.trans ⟨inner, heq.symm⟩ (List.prefix_append_right_inj _ |>.2 hprefix)
  have hfits := hdecides.fits
  unfold verdictFrom? at hfits
  rw [show (p.descend on).absolute = p.absolute from rfl, h outer houter] at hfits
  nomatch hfits

/-! ### Trees -/

/-- What is below a directory has names of files, and directories on the way to it. -/
structure IsTree (d : Disk) (p : Place) : Prop where
  named : ∀ e ∈ d.descendants p, ∀ name ∈ e.1, IsFileName name
  within : ∀ e ∈ d.descendants p, ∀ i < e.1.length, d.isDirectoryAt (p.descend (e.1.take i)) = true

theorem pathBelow_append_singleton (path : String) (names : List String) (name : String) :
    pathBelow path (names ++ [name]) = FilePath.join (pathBelow path names) name := by
  simp [pathBelow]

/-- The path of what is below a directory leads to it. -/
theorem locate_pathBelow {node : DiskNode} (h : d.Within path p) (htree : d.IsTree p)
    (hmem : (names, node) ∈ d.descendants p) : d.locate (pathBelow path names) = .ok (p.descend names) := by
  have hsteps : ∀ i ≤ names.length,
      d.locate (pathBelow path (names.take i)) = .ok (p.descend (names.take i)) := by
    intro i hi
    induction i with
    | zero =>
      rw [List.take_zero, Place.descend_nil]
      exact h.located
    | succ i ih =>
      have hwithin : d.Within (pathBelow path (names.take i)) (p.descend (names.take i)) :=
        ⟨ih (by omega), isDirectoryAt_iff.1 (htree.within _ hmem i hi)⟩
      have hname : IsFileName names[i] := htree.named _ hmem _ (List.getElem_mem _)
      rw [List.take_succ_eq_append_getElem (by omega), pathBelow_append_singleton, ← Place.child_descend]
      exact hwithin.locate hname
  have hall := hsteps names.length (Nat.le_refl _)
  rwa [List.take_length] at hall

/-! ### Archives -/

/-- A file with the name of an archive, below a directory. -/
structure IsArchiveAt (d : Disk) (p : Place) (names : List String) : Prop where
  named : ∀ name ∈ names, IsFileName name
  file : ∃ bytes t, d.node? (p.descend names) = some (.file bytes t)
  archive : ∃ name, names.getLast? = some name ∧ IsArchiveName name

theorem isArchiveAt_iff (htree : d.IsTree p) : d.IsArchiveAt p names ↔
    names ∈ d.filesBelow p ∧ ClassEntry.isArchive (names.getLastD "") = true := by
  rw [mem_filesBelow]
  constructor
  · rintro ⟨hnamed, ⟨bytes, t, hfile⟩, name, hlast, harchive⟩
    have hname := hnamed name (List.mem_of_getLast? hlast)
    refine ⟨⟨bytes, t, mem_descendants.2 ⟨hfile, ?_, ?_, fun name hmem => (hnamed name hmem).no_slash⟩⟩, ?_⟩
    · rintro rfl
      nomatch hlast
    · rintro rfl
      exact (hnamed _ List.mem_cons_self).nonempty rfl
    · rw [List.getLastD_eq_getLast?, hlast]
      exact (ClassEntry.isArchive_iff hname).2 harchive
  · rintro ⟨⟨bytes, t, hmem⟩, harchive⟩
    obtain ⟨hfile, hne, -⟩ := mem_descendants.1 hmem
    have hnamed := htree.named _ hmem
    have hlast : names.getLast? = some (names.getLast hne) := List.getLast?_eq_getLast_of_ne_nil hne
    refine ⟨hnamed, ⟨bytes, t, hfile⟩, names.getLast hne, hlast, ?_⟩
    rw [List.getLastD_eq_getLast?, hlast] at harchive
    exact (ClassEntry.isArchive_iff (hnamed _ (List.getLast_mem hne))).1 harchive

theorem archives_of_within (h : d.Within path p) : d.archives path =
    (((d.filesBelow p).filter fun names => ClassEntry.isArchive (names.getLastD "") && !d.isIgnored p names).mergeSort
      namesLe).map (pathBelow path) := by
  obtain ⟨t, hnode⟩ := contents_eq_directory.1 h.directory
  unfold archives find
  simp only [h.located, hnode]

/-- The search reports the archives that no ignore rule leaves out. -/
theorem archives_are_those_not_left_out (h : d.Within path p) (htree : d.IsTree p) :
    ∃ ways : List (List String), d.archives path = ways.map (pathBelow path) ∧ ways.Pairwise (List.Lex (· < ·)) ∧
      (d.archives path).Nodup ∧ (∀ names, names ∈ ways ↔ d.IsArchiveAt p names ∧ ¬ d.IsLeftOut p names) ∧
      (∀ names ∈ ways, d.locate (pathBelow path names) = .ok (p.descend names)) ∧
      ∀ names, (∀ outer, outer <+: p.names ++ names → d.ignoreRules ⟨p.absolute, outer⟩ = []) →
        (names ∈ ways ↔ d.IsArchiveAt p names) := by
  let found := (d.filesBelow p).filter fun names => ClassEntry.isArchive (names.getLastD "") && !d.isIgnored p names
  have hfound : found.Nodup := (nodup_filesBelow d p).filter _
  have hmem : ∀ names, names ∈ found.mergeSort namesLe ↔ d.IsArchiveAt p names ∧ ¬ d.IsLeftOut p names := by
    intro names
    rw [List.mem_mergeSort, List.mem_filter, Bool.and_eq_true, ← and_assoc, ← isArchiveAt_iff htree,
      Bool.not_eq_true', ← Bool.not_eq_true, isIgnored_iff]
  have hlocate : ∀ names ∈ found.mergeSort namesLe, d.locate (pathBelow path names) = .ok (p.descend names) := by
    intro names hnames
    obtain ⟨bytes, t, hfile⟩ := mem_filesBelow.1 ((isArchiveAt_iff htree).1 ((hmem names).1 hnames).1).1
    exact locate_pathBelow h htree hfile
  refine ⟨found.mergeSort namesLe, archives_of_within h, increasing_mergeSort hfound, ?_, hmem, hlocate, ?_⟩
  · rw [archives_of_within h]
    refine List.Nodup.map_on (fun names hnames names' hnames' heq => ?_)
      ((List.mergeSort_perm found namesLe).nodup_iff.2 hfound)
    have hplaces := (hlocate names hnames).symm.trans (heq ▸ hlocate names' hnames')
    simpa [Place.descend] using hplaces
  · intro names hrules
    rw [hmem, and_iff_left (not_isLeftOut hrules)]

/-! ### A directory of libraries -/

/-- A disk of files and directories, named by the ways to them. -/
def ofWays (nodes : List (List String × DiskNode)) : Disk :=
  nodes.foldl (fun d e => d.put ⟨false, e.1⟩ e.2) (blank 0)

/-- Libraries below `lib`: in a hidden directory, with capital letters, in a directory that is called like an
archive, and in one with the rule `*.jar`. -/
def libraries : Disk := ofWays
  [(["lib"], .directory 0), (["lib", ".hidden"], .directory 0), (["lib", ".hidden", "a.jar"], .file [] 0),
    (["lib", "B.JAR"], .file [] 0), (["lib", "c.zip"], .directory 0), (["lib", "c.zip", "d.war"], .file [] 0),
    (["lib", "note.txt"], .file [] 0), (["lib", "out"], .directory 0),
    (["lib", "out", ".ignore"], .file [0x2A, 0x2E, 0x6A, 0x61, 0x72, 0x0A] 0),
    (["lib", "out", "e.jar"], .file [] 0)]

theorem within_libraries : libraries.Within "lib" ⟨false, ["lib"]⟩ := ⟨rfl, rfl⟩

theorem isTree_libraries : libraries.IsTree ⟨false, ["lib"]⟩ := ⟨by decide, by decide⟩

theorem archives_libraries : libraries.archives "lib" = ["lib/.hidden/a.jar", "lib/B.JAR", "lib/c.zip/d.war"] := by
  rw [archives_of_within within_libraries]
  have hfound : ((libraries.filesBelow ⟨false, ["lib"]⟩).filter fun names =>
      ClassEntry.isArchive (names.getLastD "") && !libraries.isIgnored ⟨false, ["lib"]⟩ names) =
      [[".hidden", "a.jar"], ["B.JAR"], ["c.zip", "d.war"]] := by decide +kernel
  rw [hfound, List.mergeSort_of_pairwise (by decide)]
  rfl

/-- The library with a rule on the way to it is the one that is missing. -/
theorem archives_are_those_not_left_out_of_libraries :
    ∃ ways : List (List String), libraries.archives "lib" = ways.map (pathBelow "lib") ∧
      libraries.archives "lib" = ["lib/.hidden/a.jar", "lib/B.JAR", "lib/c.zip/d.war"] ∧
      (["B.JAR"] ∈ ways ↔ libraries.IsArchiveAt ⟨false, ["lib"]⟩ ["B.JAR"]) ∧
      ∀ names, names ∈ ways ↔ libraries.IsArchiveAt ⟨false, ["lib"]⟩ names ∧
        ¬ libraries.IsLeftOut ⟨false, ["lib"]⟩ names := by
  obtain ⟨ways, hways, -, -, hmem, -, hcomplete⟩ :=
    archives_are_those_not_left_out within_libraries isTree_libraries
  have hrules : ∀ outer ∈ ["lib", "B.JAR"].inits, libraries.ignoreRules ⟨false, outer⟩ = [] := by decide
  have hbigJar := hcomplete ["B.JAR"] fun outer houter => hrules outer ((List.mem_inits ..).2 houter)
  exact ⟨ways, hways, archives_libraries, hbigJar, hmem⟩

/-- A library and a rule that fits it. -/
def ignoredLibrary : Disk := ofWays
  [(["lib"], .directory 0), (["lib", ".ignore"], .file [0x2A, 0x2E, 0x6A, 0x61, 0x72, 0x0A] 0),
    (["lib", "a.jar"], .file [] 0)]

/-- An archive below the directory that the search does not report. -/
theorem library_is_left_out : ignoredLibrary.Within "lib" ⟨false, ["lib"]⟩ ∧
    ignoredLibrary.IsTree ⟨false, ["lib"]⟩ ∧ ignoredLibrary.IsArchiveAt ⟨false, ["lib"]⟩ ["a.jar"] ∧
    ignoredLibrary.archives "lib" = [] := by
  have harchive : IsArchiveName "a.jar" := ⟨"a", "jar", rfl, by decide, by decide⟩
  exact ⟨⟨rfl, rfl⟩, ⟨by decide, by decide⟩, ⟨by decide, ⟨[], 0, rfl⟩, "a.jar", rfl, harchive⟩, by decide +kernel⟩

end Disk

end ClassCatalog
