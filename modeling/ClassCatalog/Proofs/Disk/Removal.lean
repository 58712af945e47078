import ClassCatalog.Engine.OnDisk
import ClassCatalog.Proofs.Disk.Within

/-!
# What is taken away and what stays

A disk is pruned if places in it have been emptied and nothing else has changed (`Disk.Pruned`). To take a
directory away prunes it of all that is at and below the directory (`removeTree_ok`), and to remove a database
prunes it of the two files (`removeStore_ok`). Directories that are made take no file away
(`of_makeDirectories`).
-/

namespace ClassCatalog

theorem NameMap.find?_filter_names {α : Type} (p : String → Bool) (m : NameMap α) (name : String) :
    (m.filter fun key _ => p key).find? name = if p name then m.find? name else none := by
  show lookupEntry name (m.entries.filter fun e => p e.1) = if p name then lookupEntry name m.entries else none
  induction m.entries with
  | nil => simp [lookupEntry]
  | cons e rest ih =>
    rw [List.filter_cons, lookupEntry]
    by_cases hname : name = e.1
    · subst hname
      by_cases he : p e.1 = true
      · rw [if_pos he, if_pos he, lookupEntry, if_pos rfl, if_pos rfl]
      · rw [if_neg he, ih, if_neg he, if_neg he]
    · rw [if_neg hname, ← ih]
      split
      · rw [lookupEntry, if_neg hname]
      · rfl

namespace Disk

variable {d d' d'' : Disk} {p q : Place} {path kind key : String} {gone gone' : String → Prop}

/-- Places, by their texts, have been emptied, and nothing else has changed. -/
def Pruned (gone : String → Prop) (d d' : Disk) : Prop :=
  ∀ key, d'.contents.find? key = d.contents.find? key ∨ gone key ∧ d'.contents.find? key = none

/-- Every file is as it was, those at some places apart. -/
def Spares (gone : String → Prop) (d d' : Disk) : Prop :=
  ∀ key bytes, ¬ gone key → d.contents.find? key = some (some bytes) → d'.contents.find? key = some (some bytes)

/-- The text of the place that a path leads to. -/
def LeadsTo (d : Disk) (path key : String) : Prop := ∃ p, d.locate path = .ok p ∧ key = p.key

theorem leadsTo_iff (h : d.locate path = .ok p) : d.LeadsTo path key ↔ key = p.key := by
  constructor
  · rintro ⟨q, hlocate, hkey⟩
    obtain rfl := Except.ok.inj (h.symm.trans hlocate)
    exact hkey
  · exact fun hkey => ⟨p, h, hkey⟩

namespace Pruned

theorem refl (gone : String → Prop) (d : Disk) : d.Pruned gone d := fun _ => .inl rfl

theorem trans (h : d.Pruned gone d') (h' : d'.Pruned gone' d'') :
    d.Pruned (fun key => gone key ∨ gone' key) d'' := by
  intro key
  rcases h' key with hsame | ⟨hgone, hnone⟩
  · rcases h key with hsame' | ⟨hgone, hnone⟩
    · exact .inl (hsame.trans hsame')
    · exact .inr ⟨.inl hgone, hsame.trans hnone⟩
  · exact .inr ⟨.inr hgone, hnone⟩

theorem mono (h : d.Pruned gone d') (hgone : ∀ key, gone key → gone' key) : d.Pruned gone' d' :=
  fun key => (h key).imp_right fun hkey => ⟨hgone key hkey.1, hkey.2⟩

/-- No directory is new. -/
theorem keeps (h : d.Pruned gone d') : d'.Keeps d := by
  intro key hdirectory
  rcases h key with hsame | ⟨-, hnone⟩
  · exact hsame ▸ hdirectory
  · nomatch hdirectory.symm.trans hnone

theorem spares (h : d.Pruned gone d') : d.Spares gone d' := by
  intro key bytes hkey hfile
  rcases h key with hsame | ⟨hgone, -⟩
  · exact hsame.trans hfile
  · exact absurd hgone hkey

theorem none_of_none (h : d.Pruned gone d') (hnone : d.contents.find? key = none) :
    d'.contents.find? key = none := by
  rcases h key with hsame | ⟨-, hnone'⟩
  · exact hsame.trans hnone
  · exact hnone'

end Pruned

theorem Spares.trans (h : d.Spares gone d') (h' : d'.Spares gone d'') : d.Spares gone d'' :=
  fun key bytes hkey hfile => h' key bytes hkey (h key bytes hkey hfile)

/-- Paths lead to the same places on two disks with the same directories. -/
theorem leadsTo_congr (h : d.Keeps d') (h' : d'.Keeps d) : d'.LeadsTo path key ↔ d.LeadsTo path key :=
  ⟨fun ⟨p, hlocate, hkey⟩ => ⟨p, h'.locate hlocate, hkey⟩, fun ⟨p, hlocate, hkey⟩ => ⟨p, h.locate hlocate, hkey⟩⟩

/-! ### Trees -/

/-- A text is that of a place or of one below it. -/
def AtOrBelow (p : Place) (key : String) : Prop := key = p.key ∨ (namesBelow? p key).isSome = true

instance (p : Place) (key : String) : Decidable (AtOrBelow p key) := inferInstanceAs (Decidable (_ ∨ _))

theorem find?_contents_eraseTree (d : Disk) (p : Place) (key : String) :
    (d.eraseTree p).contents.find? key = if AtOrBelow p key then none else d.contents.find? key := by
  show (contents { d with nodes := (d.nodes.filter fun key _ => (namesBelow? p key).isNone).erase p.key }).find? key = _
  unfold contents
  rw [NameMap.find?_map, NameMap.find?_erase, NameMap.find?_filter_names, NameMap.find?_map]
  by_cases hat : key = p.key
  · rw [if_pos hat, if_pos (.inl hat)]
    rfl
  · rw [if_neg hat]
    cases hbelow : namesBelow? p key with
    | none =>
      have hapart : ¬ AtOrBelow p key := by
        rintro (hat' | hbelow')
        · exact hat hat'
        · simp [hbelow] at hbelow'
      rw [if_neg hapart]
      rfl
    | some names =>
      have hinside : AtOrBelow p key := .inr (by rw [hbelow]; rfl)
      rw [if_pos hinside]
      rfl

theorem removeTree_ok (h : d.Within path p) : ∃ d', d.removeTree path = .ok d' ∧
    ∀ key, d'.contents.find? key = if AtOrBelow p key then none else d.contents.find? key := by
  obtain ⟨t, hnode⟩ := contents_eq_directory.1 h.directory
  unfold removeTree find
  simp only [h.located, hnode]
  refine ⟨_, rfl, fun key => ?_⟩
  rw [← find?_contents_eraseTree]
  exact congrArg (NameMap.find? · key) (contents_touchAbove ..)

/-! ### Directories that are made -/

theorem of_makeDirectoriesFrom {names : List String} (h : d.makeDirectoriesFrom p names = .ok d') (key : String) :
    d'.contents.find? key = d.contents.find? key ∨
      d.contents.find? key = none ∧ d'.contents.find? key = some none := by
  induction names generalizing d p with
  | nil => exact .inl (Except.ok.inj h ▸ rfl)
  | cons name rest ih =>
    unfold makeDirectoriesFrom at h
    split at h
    · cases h
    · rename_i q hstep
      split at h
      · exact ih h
      · cases h
      · rename_i hnode
        have hmade : ((d.put q (.directory d.clock)).touchAbove q).tick.contents =
            d.contents.insert q.key none := (contents_touchAbove ..).trans (contents_put ..)
        have hrest := ih h
        rw [hmade, NameMap.find?_insert] at hrest
        by_cases hkey : key = q.key
        · rw [if_pos hkey] at hrest
          refine .inr ⟨hkey ▸ contents_eq_none.2 hnode, ?_⟩
          rcases hrest with hsame | ⟨hnone, -⟩
          · exact hsame
          · cases hnone
        · rwa [if_neg hkey] at hrest

theorem of_makeDirectories (h : d.makeDirectories path = .ok d') (key : String) :
    d'.contents.find? key = d.contents.find? key ∨
      d.contents.find? key = none ∧ d'.contents.find? key = some none := by
  unfold makeDirectories at h
  split at h
  · exact .inl (Except.ok.inj h ▸ rfl)
  · split at h
    · nomatch h
    · split at h
      all_goals exact of_makeDirectoriesFrom h key

theorem spares_of_makeDirectories (h : d.makeDirectories path = .ok d') : d.Spares gone d' := by
  intro key bytes _ hfile
  rcases of_makeDirectories h key with hsame | ⟨hnone, -⟩
  · exact hsame.trans hfile
  · nomatch hfile.symm.trans hnone

theorem spares_of_write {bytes : Bytes} (h : d.write path bytes = .ok d') : d.Spares (d.LeadsTo path) d' := by
  obtain ⟨p, hlocate, -, hcontents⟩ := contents_of_write h
  intro key old hkey hfile
  rw [hcontents, NameMap.find?_insert, if_neg fun heq => hkey ⟨p, hlocate, heq⟩, hfile]

/-! ### Files -/

/-- A file that is there is taken away. -/
theorem removeIfThere_ok (kind : String) (h : d.isDirectory path = false) :
    ∃ d', d.removeIfThere kind path = .ok d' ∧ d.Keeps d' ∧ d.Pruned (d.LeadsTo path) d' ∧
      ∀ key, d.LeadsTo path key → d'.contents.find? key = none := by
  unfold removeIfThere
  by_cases hthere : d.exists? path = true
  · rw [if_pos hthere]
    obtain ⟨bytes, hread⟩ := read_of_exists hthere h
    obtain ⟨p, hlocate, hfile⟩ := read_eq_ok.1 hread
    obtain ⟨d', hremove, hcontents⟩ := remove_ok hlocate hfile
    have hfree : d.contents.find? p.key ≠ some none := by
      rw [hfile]
      exact nofun
    rw [hremove]
    refine ⟨d', rfl, .of_erase hcontents hfree, fun key => ?_, fun key hkey => ?_⟩
    · rw [hcontents, NameMap.find?_erase]
      by_cases heq : key = p.key
      · exact .inr ⟨⟨p, hlocate, heq⟩, if_pos heq⟩
      · exact .inl (if_neg heq)
    · rw [hcontents, NameMap.find?_erase, if_pos ((leadsTo_iff hlocate).1 hkey)]
  · rw [if_neg hthere]
    refine ⟨d, rfl, .refl d, .refl _ d, fun key hkey => ?_⟩
    obtain ⟨p, hlocate, rfl⟩ := hkey
    rw [contents_eq_none]
    cases hnode : d.node? p with
    | none => rfl
    | some n => simp [exists?, find, hlocate, hnode, Except.toBool] at hthere

/-- The place of a database or of the file for locking. -/
def OfDatabase (d : Disk) (path key : String) : Prop :=
  d.LeadsTo path key ∨ d.LeadsTo (Database.lockPath path) key

/-- Paths that lead where they did lead to the same two places. -/
theorem OfDatabase.mono (h : d.OfDatabase path key) (hkeeps : d.Keeps d') : d'.OfDatabase path key :=
  h.imp (fun ⟨p, hlocate, hkey⟩ => ⟨p, hkeeps.locate hlocate, hkey⟩)
    fun ⟨p, hlocate, hkey⟩ => ⟨p, hkeeps.locate hlocate, hkey⟩

theorem not_exists_of_none (h : ∀ key, d.LeadsTo path key → d.contents.find? key = none) :
    d.exists? path = false := by
  unfold exists? find
  cases hlocate : d.locate path with
  | error e => rfl
  | ok p => simp only [contents_eq_none.1 (h p.key ⟨p, hlocate, rfl⟩), Except.toBool]

/-- Where there is nothing, nothing is removed. -/
theorem removeStore_nothing (h : ∀ key, d.OfDatabase path key → d.contents.find? key = none)
    (hpath : d.isDirectory path = false) : d.removeStore path = .ok d := by
  have hfile := not_exists_of_none fun key hkey => h key (.inl hkey)
  have hlock := not_exists_of_none fun key hkey => h key (.inr hkey)
  simp [removeStore, hpath, removeIfThere, hfile, hlock, bind, Except.bind]

/-- Where there is no directory, the two files of a database are removed. -/
theorem removeStore_ok (hpath : d.isDirectory path = false)
    (hlock : d.isDirectory (Database.lockPath path) = false) :
    ∃ d', d.removeStore path = .ok d' ∧ d.Keeps d' ∧ d.Pruned (d.OfDatabase path) d' ∧
      ∀ key, d.OfDatabase path key → d'.contents.find? key = none := by
  obtain ⟨d₁, hremove, hkeeps, hpruned, hnone⟩ := removeIfThere_ok "db" hpath
  have hlock₁ : d₁.isDirectory (Database.lockPath path) = false := by
    refine Bool.eq_false_iff.2 fun hdirectory => ?_
    obtain ⟨q, hwithin⟩ := isDirectory_iff.1 hdirectory
    rw [isDirectory_iff.2 ⟨q, hwithin.keeps hpruned.keeps⟩] at hlock
    nomatch hlock
  obtain ⟨d₂, hremove₂, hkeeps₂, hpruned₂, hnone₂⟩ := removeIfThere_ok "db lock" hlock₁
  have hleads : ∀ key, d₁.LeadsTo (Database.lockPath path) key ↔ d.LeadsTo (Database.lockPath path) key :=
    fun key => leadsTo_congr hkeeps hpruned.keeps
  refine ⟨d₂, ?_, hkeeps.trans hkeeps₂, (hpruned.trans hpruned₂).mono fun key => Or.imp_right (hleads key).1, ?_⟩
  · unfold removeStore
    rw [if_neg (Bool.eq_false_iff.1 hpath), hremove]
    exact hremove₂
  · rintro key (hkey | hkey)
    · exact hpruned₂.none_of_none (hnone key hkey)
    · exact hnone₂ key ((hleads key).2 hkey)

end Disk

end ClassCatalog
