import ClassCatalog.Disk.Basic
import ClassCatalog.Proofs.Text.Split

/-!
# What a disk holds

Times apart, a disk is a map from the texts of places to the bytes of files; a directory has none
(`Disk.contents`). Each operation is a change of this map at the places it names. A path leads where it
did as long as directories stay directories (`Disk.Keeps`), and below a directory that a path leads to,
names are looked up one by one (`Disk.Within`).
-/

namespace ClassCatalog

/-- The bytes of a file. -/
def DiskNode.bytes? : DiskNode → Option Bytes
  | file bytes _ => some bytes
  | directory _ => none

namespace Disk

variable {d d' d'' : Disk} {p q : Place} {path : String}

/-- What is at the places of a disk, times apart. -/
def contents (d : Disk) : NameMap (Option Bytes) := d.nodes.map DiskNode.bytes?

theorem find?_contents (d : Disk) (p : Place) :
    d.contents.find? p.key = (d.node? p).map DiskNode.bytes? := NameMap.find?_map ..

theorem contents_eq_none : d.contents.find? p.key = none ↔ d.node? p = none := by
  rw [find?_contents, Option.map_eq_none_iff]

theorem contents_eq_file {bytes : Bytes} :
    d.contents.find? p.key = some (some bytes) ↔ ∃ t, d.node? p = some (.file bytes t) := by
  rw [find?_contents]
  cases d.node? p with
  | none => simp
  | some n => cases n <;> simp [DiskNode.bytes?]

theorem contents_eq_directory :
    d.contents.find? p.key = some none ↔ ∃ t, d.node? p = some (.directory t) := by
  rw [find?_contents]
  cases d.node? p with
  | none => simp
  | some n => cases n <;> simp [DiskNode.bytes?]

theorem isDirectoryAt_iff : d.isDirectoryAt p = true ↔ d.contents.find? p.key = some none := by
  rw [contents_eq_directory, isDirectoryAt]
  cases d.node? p with
  | none => simp
  | some n => cases n <;> simp [DiskNode.isDirectory]

/-! ### Changes -/

theorem contents_put (d : Disk) (p : Place) (n : DiskNode) :
    (d.put p n).contents = d.contents.insert p.key n.bytes? := NameMap.map_insert ..

theorem contents_touch (d : Disk) (p : Place) (t : Int) : (d.touch p t).contents = d.contents := by
  unfold touch
  cases hnode : d.node? p with
  | none => rfl
  | some n =>
    rw [contents_put]
    refine NameMap.insert_of_find? ?_
    rw [find?_contents, hnode]
    cases n <;> rfl

theorem contents_touchAbove (d : Disk) (p : Place) : (d.touchAbove p).contents = d.contents :=
  contents_touch ..

theorem contents_erase (d : Disk) (key : String) :
    contents { d with nodes := d.nodes.erase key } = d.contents.erase key := NameMap.map_erase ..

theorem write_ok (hlocate : d.locate path = .ok p) (hfree : d.contents.find? p.key ≠ some none)
    (habove : d.contents.find? p.key = none → d.contents.find? p.above.key = some none) (bytes : Bytes) :
    ∃ d', d.write path bytes = .ok d' ∧ d'.contents = d.contents.insert p.key (some bytes) := by
  unfold write
  simp only [hlocate]
  cases hnode : d.node? p with
  | none =>
    have hdirectory : d.isDirectoryAt p.above = true :=
      isDirectoryAt_iff.2 (habove (contents_eq_none.2 hnode))
    simp only [hdirectory, if_true]
    exact ⟨_, rfl, (contents_touchAbove ..).trans (contents_put ..)⟩
  | some n =>
    cases n with
    | file old t => exact ⟨_, rfl, contents_put ..⟩
    | directory t => exact absurd (contents_eq_directory.2 ⟨t, hnode⟩) hfree

theorem contents_of_write {bytes : Bytes} (h : d.write path bytes = .ok d') :
    ∃ p, d.locate path = .ok p ∧ d.contents.find? p.key ≠ some none ∧
      d'.contents = d.contents.insert p.key (some bytes) := by
  unfold write at h
  cases hlocate : d.locate path with
  | error e => simp [hlocate] at h
  | ok p =>
    simp only [hlocate] at h
    refine ⟨p, rfl, ?_⟩
    cases hnode : d.node? p with
    | none =>
      simp only [hnode] at h
      split at h
      · obtain rfl := Except.ok.inj h
        refine ⟨?_, (contents_touchAbove ..).trans (contents_put ..)⟩
        rw [contents_eq_none.2 hnode]
        exact nofun
      · nomatch h
    | some n =>
      cases n with
      | file old t =>
        simp only [hnode] at h
        obtain rfl := Except.ok.inj h
        refine ⟨?_, contents_put ..⟩
        rw [contents_eq_file.2 ⟨t, hnode⟩]
        exact nofun
      | directory t => simp [hnode] at h

theorem remove_ok {bytes : Bytes} (hlocate : d.locate path = .ok p)
    (hfile : d.contents.find? p.key = some (some bytes)) :
    ∃ d', d.remove path = .ok d' ∧ d'.contents = d.contents.erase p.key := by
  obtain ⟨t, hnode⟩ := contents_eq_file.1 hfile
  unfold remove find
  simp only [hlocate, hnode]
  exact ⟨_, rfl, (contents_touchAbove ..).trans (contents_erase ..)⟩

theorem remove_missing (hlocate : d.locate path = .ok p) (hnone : d.contents.find? p.key = none) :
    d.remove path = .error .notFound := by
  unfold remove find
  simp only [hlocate, contents_eq_none.1 hnone]

theorem rename_ok {source target : String} {bytes : Bytes} (hsource : d.locate source = .ok p)
    (hfile : d.contents.find? p.key = some (some bytes)) (htarget : d.locate target = .ok q)
    (hfree : d.contents.find? q.key ≠ some none) (habove : d.contents.find? q.above.key = some none) :
    ∃ d', d.rename source target = .ok d' ∧
      d'.contents = (d.contents.erase p.key).insert q.key (some bytes) := by
  obtain ⟨t, hnode⟩ := contents_eq_file.1 hfile
  have hdirectory : d.isDirectoryAt q.above = true := isDirectoryAt_iff.2 habove
  unfold rename find
  simp only [hsource, hnode, htarget]
  split
  · rename_i t hnode'
    exact absurd (contents_eq_directory.2 ⟨t, hnode'⟩) hfree
  · rw [if_pos hdirectory]
    refine ⟨_, rfl, ?_⟩
    show contents (touchAbove (touchAbove _ p) q) = _
    rw [contents_touchAbove, contents_touchAbove, contents_put, contents_erase]
    rfl

theorem read_eq (hlocate : d.locate path = .ok p) :
    d.read path = match d.contents.find? p.key with
      | none => .error .notFound
      | some none => .error .isADirectory
      | some (some bytes) => .ok bytes := by
  unfold read find
  simp only [hlocate, find?_contents]
  cases d.node? p with
  | none => rfl
  | some n => cases n <;> rfl

theorem read_eq_ok {bytes : Bytes} : d.read path = .ok bytes ↔
    ∃ p, d.locate path = .ok p ∧ d.contents.find? p.key = some (some bytes) := by
  cases hlocate : d.locate path with
  | error e => simp [read, find, hlocate]
  | ok p =>
    rw [read_eq hlocate]
    cases hfind : d.contents.find? p.key with
    | none => simp [hfind]
    | some held => cases held <;> simp [hfind]

/-! ### Directories that stay -/

/-- What was a directory is one. -/
def Keeps (d d' : Disk) : Prop :=
  ∀ key, d.contents.find? key = some none → d'.contents.find? key = some none

namespace Keeps

theorem refl (d : Disk) : d.Keeps d := fun _ h => h

theorem trans (h : d.Keeps d') (h' : d'.Keeps d'') : d.Keeps d'' := fun key hkey => h' key (h key hkey)

theorem of_insert {key : String} {node : Option Bytes} (h : d'.contents = d.contents.insert key node)
    (hfree : d.contents.find? key = some none → node = none) : d.Keeps d' := by
  intro other hother
  rw [h, NameMap.find?_insert]
  split
  · rename_i heq
    rw [hfree (heq ▸ hother)]
  · exact hother

theorem of_erase {key : String} (h : d'.contents = d.contents.erase key)
    (hfree : d.contents.find? key ≠ some none) : d.Keeps d' := by
  intro other hother
  have hne : other ≠ key := by
    rintro rfl
    exact hfree hother
  rw [h, NameMap.find?_erase, if_neg hne]
  exact hother

theorem node (h : d.Keeps d') {t : Int} (hnode : d.node? p = some (.directory t)) :
    ∃ t', d'.node? p = some (.directory t') :=
  contents_eq_directory.1 (h _ (contents_eq_directory.2 ⟨t, hnode⟩))

theorem follow (h : d.Keeps d') {parts : List String} (hfollow : d.follow p parts = .ok q) :
    d'.follow p parts = .ok q := by
  induction parts generalizing p with
  | nil => exact hfollow
  | cons part rest ih =>
    unfold Disk.follow at hfollow ⊢
    split at hfollow
    · nomatch hfollow
    · nomatch hfollow
    · rename_i t hnode
      obtain ⟨t', hnode'⟩ := h.node hnode
      simp only [hnode']
      split at hfollow
      · rename_i hstep
        exact ih hfollow
      · nomatch hfollow

theorem locate (h : d.Keeps d') (hlocate : d.locate path = .ok p) : d'.locate path = .ok p := by
  unfold Disk.locate at hlocate ⊢
  split at hlocate
  · nomatch hlocate
  · split at hlocate
    · nomatch hlocate
    · rename_i hempty hzero
      rw [if_neg hempty, if_neg hzero]
      dsimp only at hlocate ⊢
      split at hlocate
      · exact h.follow hlocate
      · exact h.follow hlocate

end Keeps

/-! ### Files that can be read -/

theorem keeps_of_write {bytes : Bytes} (h : d.write path bytes = .ok d') : d.Keeps d' := by
  obtain ⟨p, -, hfree, hcontents⟩ := contents_of_write h
  exact .of_insert hcontents fun hdirectory => absurd hdirectory hfree

theorem write_of_read {old : Bytes} (h : d.read path = .ok old) (bytes : Bytes) :
    ∃ d', d.write path bytes = .ok d' := by
  obtain ⟨p, hlocate, hfile⟩ := read_eq_ok.1 h
  have hfree : d.contents.find? p.key ≠ some none := by
    rw [hfile]
    exact nofun
  obtain ⟨d', hwrite, -⟩ := write_ok hlocate hfree (fun hnone => nomatch hfile.symm.trans hnone) bytes
  exact ⟨d', hwrite⟩

theorem read_of_write {bytes : Bytes} (h : d.write path bytes = .ok d') : d'.read path = .ok bytes := by
  obtain ⟨p, hlocate, -, hcontents⟩ := contents_of_write h
  refine read_eq_ok.2 ⟨p, (keeps_of_write h).locate hlocate, ?_⟩
  rw [hcontents, NameMap.find?_insert_self]

/-- A file that could be read still can, whichever file is written. -/
theorem readable_of_write {other : String} {bytes old : Bytes} (h : d.write path bytes = .ok d')
    (hread : d.read other = .ok old) : ∃ new, d'.read other = .ok new := by
  obtain ⟨p, -, -, hcontents⟩ := contents_of_write h
  obtain ⟨q, hlocate, hfile⟩ := read_eq_ok.1 hread
  have hlocate' := (keeps_of_write h).locate hlocate
  by_cases heq : q.key = p.key
  · refine ⟨bytes, read_eq_ok.2 ⟨q, hlocate', ?_⟩⟩
    rw [hcontents, heq, NameMap.find?_insert_self]
  · refine ⟨old, read_eq_ok.2 ⟨q, hlocate', ?_⟩⟩
    rw [hcontents, NameMap.find?_insert_of_ne _ heq, hfile]

theorem find_of_read {bytes : Bytes} (h : d.read path = .ok bytes) :
    ∃ p t, d.find path = .ok (p, .file bytes t) := by
  obtain ⟨p, hlocate, hfile⟩ := read_eq_ok.1 h
  obtain ⟨t, hnode⟩ := contents_eq_file.1 hfile
  exact ⟨p, t, by simp only [find, hlocate, hnode]⟩

/-- What is there and no directory can be read. -/
theorem read_of_exists (hthere : d.exists? path = true) (hfile : d.isDirectory path = false) :
    ∃ bytes, d.read path = .ok bytes := by
  unfold exists? at hthere
  unfold isDirectory at hfile
  unfold read
  cases hfind : d.find path with
  | error e => simp [hfind, Except.toBool] at hthere
  | ok found =>
    obtain ⟨p, node⟩ := found
    cases node with
    | file bytes t => exact ⟨bytes, rfl⟩
    | directory t => simp [hfind, DiskNode.isDirectory] at hfile

theorem isDirectory_of_read {bytes : Bytes} (h : d.read path = .ok bytes) : d.isDirectory path = false := by
  obtain ⟨p, t, hfind⟩ := find_of_read h
  simp only [isDirectory, hfind, DiskNode.isDirectory]

/-! ### Directories that are made -/

/-- The directories on the way along names are all there. -/
def Passable (d : Disk) : Place → List String → Prop
  | _, [] => True
  | p, name :: rest => ∃ q, step p name = .ok q ∧ d.contents.find? q.key = some none ∧ d.Passable q rest

theorem Passable.mono {names : List String} (h : d.Passable p names) (hkeeps : d.Keeps d') :
    d'.Passable p names := by
  induction names generalizing p with
  | nil => trivial
  | cons name rest ih =>
    obtain ⟨q, hstep, hdirectory, hrest⟩ := h
    exact ⟨q, hstep, hkeeps _ hdirectory, ih hrest⟩

theorem Passable.makeDirectoriesFrom {names : List String} (h : d.Passable p names) :
    d.makeDirectoriesFrom p names = .ok d := by
  induction names generalizing p with
  | nil => rfl
  | cons name rest ih =>
    obtain ⟨q, hstep, hdirectory, hrest⟩ := h
    obtain ⟨t, hnode⟩ := contents_eq_directory.1 hdirectory
    simp only [Disk.makeDirectoriesFrom, hstep, hnode]
    exact ih hrest

theorem passable_of_makeDirectoriesFrom {names : List String} (h : d.makeDirectoriesFrom p names = .ok d') :
    d.Keeps d' ∧ d'.Passable p names := by
  induction names generalizing d p with
  | nil => exact Except.ok.inj h ▸ ⟨.refl d, trivial⟩
  | cons name rest ih =>
    unfold makeDirectoriesFrom at h
    split at h
    · nomatch h
    · rename_i q hstep
      split at h
      · rename_i t hnode
        obtain ⟨hkeeps, hrest⟩ := ih h
        exact ⟨hkeeps, q, hstep, hkeeps _ (contents_eq_directory.2 ⟨t, hnode⟩), hrest⟩
      · nomatch h
      · rename_i hnode
        obtain ⟨hkeeps, hrest⟩ := ih h
        have hmade : ((d.put q (.directory d.clock)).touchAbove q).tick.contents =
            d.contents.insert q.key none := (contents_touchAbove ..).trans (contents_put ..)
        refine ⟨(Keeps.of_insert hmade fun _ => rfl).trans hkeeps, q, hstep, hkeeps _ ?_, hrest⟩
        rw [hmade, NameMap.find?_insert_self]

theorem passable_of_follow {names : List String} (h : d.follow p names = .ok q)
    (hdirectory : d.contents.find? q.key = some none) : d.Passable p names := by
  induction names generalizing p with
  | nil => trivial
  | cons name rest ih =>
    unfold follow at h
    split at h
    · nomatch h
    · nomatch h
    · split at h
      · rename_i next hstep
        refine ⟨next, hstep, ?_, ih h⟩
        cases rest with
        | nil => exact Except.ok.inj h ▸ hdirectory
        | cons name' rest =>
          unfold follow at h
          split at h
          · nomatch h
          · nomatch h
          · rename_i t hnode
            exact contents_eq_directory.2 ⟨t, hnode⟩
      · nomatch h

/-- Directories that were made need not be made again. -/
theorem makeDirectories_again (h : d.makeDirectories path = .ok d') :
    d.Keeps d' ∧ ∀ d'', d'.Keeps d'' → d''.makeDirectories path = .ok d'' := by
  unfold makeDirectories at h ⊢
  split at h
  · rename_i hempty
    exact Except.ok.inj h ▸ ⟨.refl d, fun _ _ => if_pos hempty⟩
  · split at h
    · nomatch h
    · rename_i hempty hzero
      simp only [if_neg hempty, if_neg hzero]
      split at h
      all_goals
        obtain ⟨hkeeps, hpassable⟩ := passable_of_makeDirectoriesFrom h
        exact ⟨hkeeps, fun d'' hkeeps' => (hpassable.mono hkeeps').makeDirectoriesFrom⟩

theorem makeDirectories_of_locate (hlocate : d.locate path = .ok p)
    (hdirectory : d.contents.find? p.key = some none) : d.makeDirectories path = .ok d := by
  unfold locate at hlocate
  unfold makeDirectories
  split at hlocate
  · nomatch hlocate
  · split at hlocate
    · nomatch hlocate
    · rename_i hempty hzero
      rw [if_neg hempty, if_neg hzero]
      dsimp only at hlocate
      split at hlocate
      all_goals exact (passable_of_follow hlocate hdirectory).makeDirectoriesFrom

end Disk

end ClassCatalog
