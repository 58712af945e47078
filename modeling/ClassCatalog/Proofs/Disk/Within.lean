import ClassCatalog.Proofs.Disk.Contents
import Mathlib.Data.List.Nodup

/-!
# Inside a directory

A name in a directory has a text of its own (`Place.key_child`), and what the disk has there is looked up
by the name (`Disk.inside`). With a path to the directory (`Disk.Within`), an operation on the path joined
with a name changes what is there under that name, and listing the directory gives the names that are there.
-/

namespace ClassCatalog

/-- What can be the name of something in a directory. -/
structure IsFileName (name : String) : Prop where
  nonempty : name ≠ ""
  not_current : name ≠ "."
  not_above : name ≠ ".."
  no_slash : '/' ∉ name.toList
  no_zero : '\x00' ∉ name.toList
  short : name.utf8ByteSize ≤ Disk.maxNameBytes

namespace IsFileName

variable {name : String}

instance : Decidable (IsFileName name) :=
  decidable_of_iff (name ≠ "" ∧ name ≠ "." ∧ name ≠ ".." ∧ '/' ∉ name.toList ∧ '\x00' ∉ name.toList ∧
      name.utf8ByteSize ≤ Disk.maxNameBytes)
    ⟨fun ⟨hne, hcurrent, habove, hslash, hzero, hshort⟩ => ⟨hne, hcurrent, habove, hslash, hzero, hshort⟩,
      fun h => ⟨h.nonempty, h.not_current, h.not_above, h.no_slash, h.no_zero, h.short⟩⟩

/-- The path of a name has it for its file name. -/
theorem fileName?_eq (hname : IsFileName name) : FilePath.fileName? name = some name := by
  have hne : name.toList ≠ [] := fun h => hname.nonempty (String.toList_eq_nil_iff.1 h)
  have hcurrent : name.toList ≠ ['.'] := fun h => hname.not_current (String.toList_inj.1 h)
  have habove : name.toList ≠ ['.', '.'] := fun h => hname.not_above (String.toList_inj.1 h)
  have hcomponents : FilePath.components name = [.name name] := by
    unfold FilePath.components
    rw [Text.splitAll_of_not_mem hname.no_slash]
    split
    · rename_i h
      nomatch h
    · rename_i h
      exact absurd (List.cons.inj h).1 hne
    · rename_i first rest _ h
      obtain ⟨rfl, rfl⟩ := List.cons.inj h
      rw [if_neg hcurrent]
      simp [FilePath.steps, FilePath.Component.ofPart, hne, hcurrent, habove]
  rw [FilePath.fileName?, hcomponents]
  rfl

end IsFileName

namespace Place

variable {p : Place} {a b name key : String}

/-- The place that names lead to from another. -/
def descend (p : Place) (names : List String) : Place := { p with names := p.names ++ names }

theorem descend_nil (p : Place) : p.descend [] = p := by
  rw [descend, List.append_nil]

theorem child_descend (p : Place) (names : List String) (name : String) :
    (p.descend names).child name = p.descend (names ++ [name]) := by
  rw [descend, descend, child, List.append_assoc]

theorem key_descend (p : Place) {names : List String} (h : names ≠ []) :
    (p.descend names).key.toList = Disk.below p ++ ['/'].intercalate (names.map String.toList) := by
  have hnames' : names.map String.toList ≠ [] := by simpa using h
  unfold key descend Disk.below
  by_cases hnames : p.names = []
  · simp [hnames, key, String.toList_intercalate]
  · have hnames'' : p.names.map String.toList ≠ [] := by simpa using hnames
    simp [hnames, key, String.toList_intercalate, Text.intercalate_append hnames'' hnames']

theorem key_child (p : Place) (name : String) :
    (p.child name).key.toList = Disk.below p ++ name.toList := by
  have hkey := key_descend p (List.cons_ne_nil name [])
  rwa [List.map_singleton, List.intercalate_singleton] at hkey

theorem child_key_inj (h : (p.child a).key = (p.child b).key) : a = b := by
  have htexts := congrArg String.toList h
  rw [key_child, key_child] at htexts
  exact String.toList_inj.1 (List.append_cancel_left htexts)

theorem above_child (hname : name ≠ "..") : (p.child name).above = p := by
  unfold above child
  split
  · simp
  · split
    · rename_i hlast
      simp at hlast
    · rename_i hlast
      exact absurd (by simpa using hlast) hname
    · simp

end Place

namespace Disk

variable {d d' : Disk} {p q : Place} {root path name key : String}

/-- A place below another is told by the names on the way to it. -/
theorem namesBelow?_eq_some {names : List String} : namesBelow? p key = some names ↔
    key = (p.descend names).key ∧ names ≠ [] ∧ names ≠ [""] ∧ ∀ name ∈ names, '/' ∉ name.toList := by
  unfold namesBelow?
  constructor
  · intro h
    split at h
    · nomatch h
    · nomatch h
    · rename_i rest hne hdrop
      obtain rfl := Option.some.inj h
      have hparts : (Text.splitAll '/' rest).map String.ofList ≠ [] := by
        simpa using Text.splitAll_ne_nil '/' rest
      refine ⟨?_, hparts, fun hempty => hne ?_, ?_⟩
      · rw [← String.toList_inj, Place.key_descend p hparts, Text.dropStart?_eq_some.1 hdrop]
        simp [Function.comp_def, Text.intercalate_splitAll]
      · obtain ⟨part, hpart, hname⟩ := List.map_eq_singleton_iff.1 hempty
        rw [← (Text.splitAll_eq_singleton hpart).1, ← String.toList_ofList (l := part), hname]
        rfl
      · intro name hname
        obtain ⟨part, hpart, rfl⟩ := List.mem_map.1 hname
        rw [String.toList_ofList]
        exact Text.not_mem_of_mem_splitAll hpart
  · rintro ⟨rfl, hne, hempty, hslash⟩
    have hdrop : Text.dropStart? (below p) (p.descend names).key.toList =
        some (['/'].intercalate (names.map String.toList)) :=
      Text.dropStart?_eq_some.2 (Place.key_descend p hne)
    have hsplit : Text.splitAll '/' (['/'].intercalate (names.map String.toList)) = names.map String.toList :=
      Text.splitAll_intercalate (by simpa using hslash) (by simpa using hne)
    rw [hdrop]
    split
    · rename_i h
      nomatch h
    · rename_i h
      rw [Option.some.inj h] at hsplit
      refine absurd ?_ hempty
      have hnames := congrArg (List.map String.ofList) hsplit
      simpa [Function.comp_def, Text.splitAll] using hnames.symm
    · rename_i rest _ h
      rw [← Option.some.inj h, hsplit]
      simp [Function.comp_def]

theorem namesBelow?_eq_singleton : namesBelow? p key = some [name] ↔
    key = (p.child name).key ∧ name ≠ "" ∧ '/' ∉ name.toList := by
  rw [namesBelow?_eq_some]
  simp [Place.descend, Place.child]

/-- What there is in a directory under a name. -/
def inside (d : Disk) (p : Place) (name : String) : Option (Option Bytes) := d.contents.find? (p.child name).key

theorem children_eq (d : Disk) (p : Place) :
    d.children p = d.contents.names.filterMap fun key =>
      match namesBelow? p key with
      | some [name] => some name
      | _ => none := by
  unfold children descendants
  rw [contents, NameMap.names_map, NameMap.names, List.filterMap_map, List.filterMap_filterMap]
  congr 1
  funext e
  dsimp only [Function.comp]
  cases namesBelow? p e.1 with
  | none => rfl
  | some names =>
    cases names with
    | nil => rfl
    | cons name rest => cases rest <;> rfl

theorem mem_children : name ∈ d.children p ↔ name ≠ "" ∧ '/' ∉ name.toList ∧ d.inside p name ≠ none := by
  rw [children_eq, List.mem_filterMap]
  constructor
  · rintro ⟨key, hkey, hname⟩
    split at hname
    · rename_i name' hbelow
      obtain rfl := Option.some.inj hname
      obtain ⟨rfl, hne, hslash⟩ := namesBelow?_eq_singleton.1 hbelow
      obtain ⟨node, hnode⟩ := NameMap.mem_names_iff.1 hkey
      exact ⟨hne, hslash, by rw [inside, hnode]; exact nofun⟩
    · nomatch hname
  · rintro ⟨hne, hslash, hinside⟩
    obtain ⟨node, hnode⟩ := Option.ne_none_iff_exists'.1 hinside
    refine ⟨(p.child name).key, NameMap.mem_names_iff.2 ⟨node, hnode⟩, ?_⟩
    rw [namesBelow?_eq_singleton.2 ⟨rfl, hne, hslash⟩]

theorem nodup_children (d : Disk) (p : Place) : (d.children p).Nodup := by
  rw [children_eq]
  refine List.Nodup.filterMap (fun key key' name hkey hkey' => ?_) (NameMap.nodup_names _)
  have hof : ∀ {key}, name ∈ (match namesBelow? p key with
      | some [name] => some name
      | _ => none : Option String) → key = (p.child name).key := by
    intro key hkey
    split at hkey
    · rename_i hbelow
      obtain rfl := Option.some.inj hkey
      exact (namesBelow?_eq_singleton.1 hbelow).1
    · nomatch hkey
  exact (hof hkey).trans (hof hkey').symm

/-! ### Paths -/

theorem step_of_isFileName (hname : IsFileName name) (p : Place) : step p name = .ok (p.child name) := by
  unfold step
  rw [if_neg (by simp [hname.nonempty, hname.not_current]), if_neg hname.not_above,
    if_neg (Nat.not_lt.2 hname.short)]

theorem follow_append (d : Disk) (p : Place) (parts rest : List String) :
    d.follow p (parts ++ rest) = (d.follow p parts).bind fun q => d.follow q rest := by
  induction parts generalizing p with
  | nil => rfl
  | cons part parts ih =>
    rw [List.cons_append, follow, follow]
    split
    · rfl
    · rfl
    · split
      · exact ih _
      · rfl

/-- The place that the parts of a path lead to. -/
def followParts (d : Disk) : List String → Except DiskError Place
  | "" :: rest => d.follow .root rest
  | parts => d.follow .working parts

def partsOf (path : String) : List String := (Text.splitAll '/' path.toList).map String.ofList

theorem locate_eq (d : Disk) (path : String) : d.locate path =
    if path = "" then .error .notFound
    else if path.toList.contains '\x00' then .error .zeroInName
    else d.followParts (partsOf path) := by
  unfold locate followParts partsOf
  rfl

theorem locate_eq_ok : d.locate path = .ok p ↔
    path ≠ "" ∧ '\x00' ∉ path.toList ∧ d.followParts (partsOf path) = .ok p := by
  rw [locate_eq]
  by_cases hempty : path = ""
  · simp [hempty]
  · by_cases hzero : '\x00' ∈ path.toList
    · simp [hempty, hzero]
    · simp [hempty, hzero]

theorem followParts_append (d : Disk) {parts : List String} (h : parts ≠ []) (rest : List String) :
    d.followParts (parts ++ rest) = (d.followParts parts).bind fun q => d.follow q rest := by
  cases parts with
  | nil => exact absurd rfl h
  | cons part parts =>
    by_cases hpart : part = ""
    · subst hpart
      exact follow_append ..
    · have hrelative : ∀ rest, d.followParts (part :: rest) = d.follow .working (part :: rest) := by
        intro rest
        unfold followParts
        split
        · rename_i h
          exact absurd (List.cons.inj h).1 hpart
        · rfl
      rw [List.cons_append, hrelative, hrelative]
      exact follow_append d .working (part :: parts) rest

theorem join_of_slash {before : List Char} (hroot : root.toList = before ++ ['/']) (hslash : '/' ∉ name.toList) :
    (FilePath.join root name).toList = before ++ '/' :: name.toList := by
  have hhead : name.toList.head? ≠ some '/' := fun h => hslash (List.mem_of_head? h)
  have hne : root ≠ "" := by
    rintro rfl
    simp at hroot
  have hlast : root.toList.getLast? = some '/' := by rw [hroot]; simp
  unfold FilePath.join
  rw [if_neg (by simp [hhead, hne]), if_pos hlast]
  simp [hroot]

theorem join_of_no_slash (hroot : root ≠ "") (hlast : root.toList.getLast? ≠ some '/')
    (hslash : '/' ∉ name.toList) : (FilePath.join root name).toList = root.toList ++ '/' :: name.toList := by
  have hhead : name.toList.head? ≠ some '/' := fun h => hslash (List.mem_of_head? h)
  unfold FilePath.join
  rw [if_neg (by simp [hhead, hroot]), if_neg hlast]
  simp

/-- A path leads to a directory. -/
structure Within (root : String) (p : Place) (d : Disk) : Prop where
  located : d.locate root = .ok p
  directory : d.contents.find? p.key = some none

theorem isDirectory_iff : d.isDirectory root = true ↔ ∃ p, d.Within root p := by
  unfold isDirectory find
  constructor
  · intro h
    cases hlocate : d.locate root with
    | error e => simp [hlocate] at h
    | ok p =>
      simp only [hlocate] at h
      cases hnode : d.node? p with
      | none => simp [hnode] at h
      | some n =>
        cases n with
        | file bytes t => simp [hnode, DiskNode.isDirectory] at h
        | directory t => exact ⟨p, hlocate, contents_eq_directory.2 ⟨t, hnode⟩⟩
  · rintro ⟨p, hlocate, hdirectory⟩
    obtain ⟨t, hnode⟩ := contents_eq_directory.1 hdirectory
    simp only [hlocate, hnode, DiskNode.isDirectory]

namespace Within

theorem keeps (h : d.Within root p) (hkeeps : d.Keeps d') : d'.Within root p :=
  ⟨hkeeps.locate h.located, hkeeps _ h.directory⟩

/-- A path joined with a name leads to the directory and one step on. -/
theorem followParts_join (h : d.Within root p) (hslash : '/' ∉ name.toList) :
    ∃ before, (FilePath.join root name).toList = before ++ '/' :: name.toList ∧ '\x00' ∉ before ∧
      d.followParts (partsOf (FilePath.join root name)) = d.follow p [name] := by
  obtain ⟨hne, hzero, hparts⟩ := locate_eq_ok.1 h.located
  obtain ⟨before, hjoin, hbefore, hfollow⟩ : ∃ before : List Char,
      (FilePath.join root name).toList = before ++ '/' :: name.toList ∧ '\x00' ∉ before ∧
      d.followParts ((Text.splitAll '/' before).map String.ofList) = .ok p := by
    by_cases hlast : root.toList.getLast? = some '/'
    · obtain ⟨before, hroot⟩ : ∃ before, root.toList = before ++ ['/'] :=
        ⟨root.toList.dropLast, (List.dropLast_append_getLast? '/' hlast).symm⟩
      refine ⟨before, join_of_slash hroot hslash, fun hmem => hzero (by simp [hroot, hmem]), ?_⟩
      have hnone : '/' ∉ ([] : List Char) := List.not_mem_nil
      rw [partsOf, hroot, Text.splitAll_append hnone, List.map_append,
        followParts_append d (by simpa using Text.splitAll_ne_nil '/' before)] at hparts
      -- The slash at the end makes an empty part, which leads nowhere else.
      cases hfollow : d.followParts ((Text.splitAll '/' before).map String.ofList) with
      | error e => simp [hfollow, Except.bind] at hparts
      | ok q =>
        simp only [hfollow, Except.bind, List.map_cons, List.map_nil, follow] at hparts
        split at hparts
        · cases hparts
        · cases hparts
        · exact hparts
    · exact ⟨root.toList, join_of_no_slash hne hlast hslash, hzero, hparts⟩
  have hparts' : partsOf (FilePath.join root name) = (Text.splitAll '/' before).map String.ofList ++ [name] := by
    unfold partsOf
    rw [hjoin, Text.splitAll_append hslash, List.map_append]
    simp
  refine ⟨before, hjoin, hbefore, ?_⟩
  rw [hparts', followParts_append d (by simpa using Text.splitAll_ne_nil '/' before), hfollow]
  rfl

/-- A name behind the path of a directory leads to what is there under the name. -/
theorem locate (h : d.Within root p) (hname : IsFileName name) :
    d.locate (FilePath.join root name) = .ok (p.child name) := by
  obtain ⟨before, hjoin, hbefore, hfollow⟩ := h.followParts_join hname.no_slash
  obtain ⟨t, hnode⟩ := contents_eq_directory.1 h.directory
  refine locate_eq_ok.2 ⟨fun hempty => ?_, ?_, ?_⟩
  · rw [hempty] at hjoin
    simp at hjoin
  · rw [hjoin]
    simp [hbefore, hname.no_zero]
  · rw [hfollow]
    simp only [follow, hnode, step_of_isFileName hname]

/-- A name in a directory to which a path leads is the name of a file. -/
theorem isFileName (h : d.Within root p) (hne : name ≠ "") (hcurrent : name ≠ ".") (habove : name ≠ "..")
    (hslash : '/' ∉ name.toList) (hlocate : d.locate (FilePath.join root name) = .ok q) : IsFileName name := by
  obtain ⟨before, hjoin, -, hfollow⟩ := h.followParts_join hslash
  obtain ⟨t, hnode⟩ := contents_eq_directory.1 h.directory
  obtain ⟨-, hzero, hparts⟩ := locate_eq_ok.1 hlocate
  rw [hfollow] at hparts
  refine ⟨hne, hcurrent, habove, hslash, fun hmem => hzero (by simp [hjoin, hmem]), Nat.not_lt.1 fun hlong => ?_⟩
  simp [follow, hnode, step, hne, hcurrent, habove, hlong] at hparts

variable {bytes : Bytes}

theorem directory_above (h : d.Within root p) (hname : IsFileName name) :
    d.contents.find? (p.child name).above.key = some none := by
  rw [Place.above_child hname.not_above]
  exact h.directory

theorem inside_insert {node : Option Bytes} (hcontents : d'.contents = d.contents.insert (p.child name).key node)
    (other : String) : d'.inside p other = if other = name then some node else d.inside p other := by
  unfold inside
  rw [hcontents, NameMap.find?_insert]
  by_cases heq : other = name
  · rw [if_pos (by rw [heq]), if_pos heq]
  · rw [if_neg fun hkey => heq (Place.child_key_inj hkey), if_neg heq]

theorem inside_erase (hcontents : d'.contents = d.contents.erase (p.child name).key) (other : String) :
    d'.inside p other = if other = name then none else d.inside p other := by
  unfold inside
  rw [hcontents, NameMap.find?_erase]
  by_cases heq : other = name
  · rw [if_pos (by rw [heq]), if_pos heq]
  · rw [if_neg fun hkey => heq (Place.child_key_inj hkey), if_neg heq]

theorem write (h : d.Within root p) (hname : IsFileName name) (hfree : d.inside p name ≠ some none)
    (bytes : Bytes) : ∃ d', d.write (FilePath.join root name) bytes = .ok d' ∧ d'.Within root p ∧
      ∀ other, d'.inside p other = if other = name then some (some bytes) else d.inside p other := by
  obtain ⟨d', hwrite, hcontents⟩ :=
    write_ok (h.locate hname) hfree (fun _ => h.directory_above hname) bytes
  exact ⟨d', hwrite, h.keeps (.of_insert hcontents fun hdirectory => absurd hdirectory hfree),
    inside_insert hcontents⟩

theorem remove (h : d.Within root p) (hname : IsFileName name) (hfile : d.inside p name = some (some bytes)) :
    ∃ d', d.remove (FilePath.join root name) = .ok d' ∧ d'.Within root p ∧
      ∀ other, d'.inside p other = if other = name then none else d.inside p other := by
  obtain ⟨d', hremove, hcontents⟩ := remove_ok (h.locate hname) hfile
  have hfree : d.contents.find? (p.child name).key ≠ some none := by
    rw [show d.contents.find? (p.child name).key = some (some bytes) from hfile]
    exact nofun
  exact ⟨d', hremove, h.keeps (.of_erase hcontents hfree), inside_erase hcontents⟩

theorem remove_missing (h : d.Within root p) (hname : IsFileName name) (hnone : d.inside p name = none) :
    d.remove (FilePath.join root name) = .error .notFound := Disk.remove_missing (h.locate hname) hnone

theorem rename {target : String} (h : d.Within root p) (hname : IsFileName name) (htarget : IsFileName target)
    (hfile : d.inside p name = some (some bytes)) (hfree : d.inside p target ≠ some none) :
    ∃ d', d.rename (FilePath.join root name) (FilePath.join root target) = .ok d' ∧ d'.Within root p ∧
      ∀ other, d'.inside p other = if other = target then some (some bytes)
        else if other = name then none else d.inside p other := by
  obtain ⟨d', hrename, hcontents⟩ :=
    rename_ok (h.locate hname) hfile (h.locate htarget) hfree (h.directory_above htarget)
  have hfree' : d.contents.find? (p.child name).key ≠ some none := by
    rw [show d.contents.find? (p.child name).key = some (some bytes) from hfile]
    exact nofun
  let erased : Disk := { d with nodes := d.nodes.erase (p.child name).key }
  have herased : erased.contents = d.contents.erase (p.child name).key := contents_erase ..
  rw [← herased] at hcontents
  have hkeeps : erased.Keeps d' := .of_insert hcontents fun hdirectory => by
    rw [herased, NameMap.find?_erase] at hdirectory
    split at hdirectory
    · nomatch hdirectory
    · exact absurd hdirectory hfree
  refine ⟨d', hrename, h.keeps ((Keeps.of_erase herased hfree').trans hkeeps), fun other => ?_⟩
  rw [inside_insert hcontents, inside_erase herased]

theorem read (h : d.Within root p) (hname : IsFileName name) :
    d.read (FilePath.join root name) = match d.inside p name with
      | none => .error .notFound
      | some none => .error .isADirectory
      | some (some bytes) => .ok bytes := read_eq (h.locate hname)

theorem list (h : d.Within root p) : d.list root = .ok (d.children p) := by
  obtain ⟨t, hnode⟩ := contents_eq_directory.1 h.directory
  unfold Disk.list find
  simp only [h.located, hnode]

theorem makeDirectories (h : d.Within root p) : d.makeDirectories root = .ok d :=
  makeDirectories_of_locate h.located h.directory

end Within

end Disk

end ClassCatalog
