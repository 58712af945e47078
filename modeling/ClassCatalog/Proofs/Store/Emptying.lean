import ClassCatalog.Proofs.Disk.Removal
import ClassCatalog.Proofs.Store.Reopening

/-!
# Stores with nothing in them

A store opens empty if it can be opened and has nothing then (`Disk.OpensEmpty`). A database that is emptied
through its store opens empty again, and no other file has changed; a directory is emptied of what has the
extension of a blob or a staging file, and opens empty again. Where there is nothing yet but room for a database
(`Database.HasRoom`), an empty database is made.
-/

namespace ClassCatalog

/-- The store at a path can be opened and has nothing then. -/
def Disk.OpensEmpty (d : Disk) (path : String) (s : Store Disk) : Prop :=
  ∃ d', Store.openAt path d = .ok (s, d') ∧ s.size d' = .ok 0 ∧ ∀ key, IsCacheKey key → s.get key d' = .ok none

namespace Database

variable {d d' : Disk} {path : String} {b : Database}

theorem opensEmpty (hfile : d.isDirectory path = false) (hprepare : prepare path d = .ok d')
    (hload : load path d' = .ok {}) : d.OpensEmpty path (store path) := by
  refine ⟨d', (Store.openAt_eq_ok_iff hfile).2 ⟨hprepare, rfl⟩, ?_, fun key hkey => ?_⟩
  · show (load path d').map _ = _
    rw [hload]
    rfl
  · have hne : key ≠ "" := by
      rintro rfl
      exact absurd hkey.1 (by decide)
    show Database.get path key d' = _
    rw [Database.get, if_neg hne, hload]
    rfl

theorem keeps_of_prepare (h : prepare path d = .ok d') : d.Keeps d' := by
  obtain ⟨d₁, hmake, -, d₂, -, hkeeps, -, hupdate⟩ := of_prepare h
  obtain ⟨b, b', -, -, hwrite⟩ := of_transact hupdate
  exact ((Disk.makeDirectories_again hmake).1.trans hkeeps).trans (Disk.keeps_of_write hwrite)

/-- What locks a database that can be opened is no directory. -/
theorem lock_of_prepare (h : prepare path d = .ok d') : d.isDirectory (lockPath path) = false := by
  obtain ⟨b, -, hopen⟩ := isOpen_of_prepare h
  obtain ⟨bytes, hlock⟩ := hopen.lock
  refine Bool.eq_false_iff.2 fun hdirectory => ?_
  obtain ⟨q, hwithin⟩ := Disk.isDirectory_iff.1 hdirectory
  have hthere := Disk.isDirectory_iff.2 ⟨q, hwithin.keeps (keeps_of_prepare h)⟩
  nomatch hthere.symm.trans (Disk.isDirectory_of_read hlock)

/-- To open a database changes no file but its own two. -/
theorem spares_of_prepare (h : prepare path d = .ok d') : d.Spares (d'.OfDatabase path) d' := by
  obtain ⟨d₁, hmake, -, d₂, hstep, -, -, hupdate⟩ := of_prepare h
  obtain ⟨b, b', -, -, hwrite⟩ := of_transact hupdate
  have hkeeps := Disk.keeps_of_write hwrite
  have hlocked : d₁.Spares (d'.LeadsTo (lockPath path)) d₂ := by
    rcases hstep with rfl | hlock
    · exact (Disk.Pruned.refl _ _).spares
    · intro key bytes hkey hfile
      refine Disk.spares_of_write hlock key bytes (fun ⟨q, hlocate, hq⟩ => hkey ⟨q, ?_, hq⟩) hfile
      exact hkeeps.locate ((Disk.keeps_of_write hlock).locate hlocate)
  intro key bytes hkey hfile
  have hmade : d.Spares (fun _ => False) d₁ := Disk.spares_of_makeDirectories hmake
  refine Disk.spares_of_write hwrite key bytes (fun ⟨p, hlocate, hp⟩ => hkey (.inl ⟨p, hkeeps.locate hlocate, hp⟩)) ?_
  exact hlocked key bytes (fun hlock => hkey (.inr hlock)) (hmade key bytes id hfile)

/-- A database in which nothing is stored opens empty. -/
theorem IsOpen.opensEmpty (h : IsOpen path d b) (hempty : b.indexes = ∅) : d.OpensEmpty path (store path) := by
  obtain ⟨d', hprepare, hopen⟩ := h.prepare
  refine Database.opensEmpty (Disk.isDirectory_of_read h.file) hprepare ?_
  rw [hopen.load, sweep, hempty]

/-- An open database is emptied, opens empty again, and no other file has changed. -/
theorem clear_ok (h : prepare path d = .ok d') : ∃ d'', (store path).clear d' = (.ok (), d'') ∧
    d'.Spares (d'.OfDatabase path) d'' ∧ d''.OpensEmpty path (store path) := by
  obtain ⟨b, -, hopen⟩ := isOpen_of_prepare h
  obtain ⟨d'', hupdate, hwrite, hopen'⟩ : ∃ d'', Space.mapped.update path (fun _ => {}) d' = .ok d'' ∧
      d'.write path (encode {}) = .ok d'' ∧ IsOpen path d'' {} := hopen.update (hasSpace_empty b)
  refine ⟨d'', ?_, fun key bytes hkey => ?_, hopen'.opensEmpty rfl⟩
  · show finish () d' (Space.mapped.update path (fun _ => {}) d') = _
    rw [hupdate]
    rfl
  · exact Disk.spares_of_write hwrite key bytes fun hleads => hkey (.inl hleads)

/-- A database that is opened where nothing was is empty. -/
theorem load_of_prepare (h : prepare path d = .ok d') (hnone : ∀ key, d'.LeadsTo path key → d.contents.find? key = none) :
    load path d' = .ok {} := by
  obtain ⟨d₁, hmake, -, d₂, hstep, -, -, hupdate⟩ := of_prepare h
  obtain ⟨old, b, hload, hchange, hwrite⟩ := of_transact hupdate
  obtain rfl := Except.ok.inj hchange
  obtain ⟨p, hlocate, hfree, -⟩ := Disk.contents_of_write hwrite
  have hnode := hnone p.key ⟨p, (Disk.keeps_of_write hwrite).locate hlocate, rfl⟩
  -- What is at the path by now can only be the file for locking, if it has this path.
  have hheld : d₂.contents.find? p.key = none ∨ d₂.contents.find? p.key = some (some []) := by
    have hmade : d₁.contents.find? p.key = none ∨ d₁.contents.find? p.key = some none := by
      rcases Disk.of_makeDirectories hmake p.key with hsame | ⟨-, hdirectory⟩
      · exact .inl (hsame.trans hnode)
      · exact .inr hdirectory
    rcases hstep with rfl | hlock
    · exact .inl (hmade.resolve_right hfree)
    · obtain ⟨q, -, -, hcontents⟩ := Disk.contents_of_write hlock
      rw [hcontents, NameMap.find?_insert] at hfree ⊢
      by_cases hq : p.key = q.key
      · exact .inr (if_pos hq)
      · rw [if_neg hq] at hfree ⊢
        exact .inl (hmade.resolve_right hfree)
  have hempty : load path d₂ = .ok {} := by
    unfold load
    rw [Disk.read_eq hlocate]
    rcases hheld with hnone | hempty
    · rw [hnone]
    · rw [hempty]
      rfl
  obtain rfl := Except.ok.inj (hload.symm.trans hempty)
  simp only [load, Disk.read_of_write hwrite, decode?_encode]
  rfl

/-- There is room for a database: the path says in which directory, that directory is there, and neither the path
nor that of the file for locking leads to a directory. -/
structure HasRoom (path : String) (d : Disk) : Prop where
  named : (FilePath.parent? path).getD "" ≠ ""
  parent : d.makeDirectories ((FilePath.parent? path).getD "") = .ok d
  file : ∃ p, d.locate path = .ok p ∧ d.isDirectoryAt p = false ∧ d.isDirectoryAt p.above = true
  lock : ∃ q, d.locate (lockPath path) = .ok q ∧ d.isDirectoryAt q = false ∧ d.isDirectoryAt q.above = true

namespace HasRoom

theorem mono (h : HasRoom path d) (hkeeps : d.Keeps d') (hkeeps' : d'.Keeps d) : HasRoom path d' := by
  have hfree : ∀ {p : Place}, d.isDirectoryAt p = false → d'.isDirectoryAt p = false := by
    intro p hp
    refine Bool.eq_false_iff.2 fun hdirectory => ?_
    rw [Disk.isDirectoryAt_iff.2 (hkeeps' _ (Disk.isDirectoryAt_iff.1 hdirectory))] at hp
    nomatch hp
  have habove : ∀ {p : Place}, d.isDirectoryAt p = true → d'.isDirectoryAt p = true :=
    fun hp => Disk.isDirectoryAt_iff.2 (hkeeps _ (Disk.isDirectoryAt_iff.1 hp))
  obtain ⟨p, hp, hpfree, hpabove⟩ := h.file
  obtain ⟨q, hq, hqfree, hqabove⟩ := h.lock
  exact ⟨h.named, (Disk.makeDirectories_again h.parent).2 d' hkeeps, ⟨p, hkeeps.locate hp, hfree hpfree, habove hpabove⟩,
    ⟨q, hkeeps.locate hq, hfree hqfree, habove hqabove⟩⟩

/-- The file for locking is there or can be made, and then what was staged is dropped. -/
theorem prepare_eq (h : HasRoom path d) (hcheck : checkPath path d = .ok ()) : ∃ d', d.Keeps d' ∧
    (∀ key, d'.contents.find? key = d.contents.find? key ∨ d'.contents.find? key = some (some [])) ∧
    prepare path d = Space.mapped.update path sweep d' := by
  obtain ⟨q, hq, hqfree, hqabove⟩ := h.lock
  have hfree : d.contents.find? q.key ≠ some none := fun hdirectory => by
    rw [Disk.isDirectoryAt_iff.2 hdirectory] at hqfree
    nomatch hqfree
  by_cases hthere : d.exists? (lockPath path) = true
  · have hfile : d.isDirectory (lockPath path) = false := Bool.eq_false_iff.2 fun hdirectory => by
      obtain ⟨q', hwithin⟩ := Disk.isDirectory_iff.1 hdirectory
      obtain rfl := Except.ok.inj (hq.symm.trans hwithin.located)
      exact hfree hwithin.directory
    refine ⟨d, .refl d, fun key => .inl rfl, ?_⟩
    simp [Space.prepare, h.parent, Except.mapError, hcheck, hthere, hfile, bind, Except.bind]
  · obtain ⟨d', hwrite, hcontents⟩ := Disk.write_ok hq hfree (fun _ => Disk.isDirectoryAt_iff.1 hqabove) []
    refine ⟨d', Disk.keeps_of_write hwrite, fun key => ?_, ?_⟩
    · rw [hcontents, NameMap.find?_insert]
      by_cases hkey : key = q.key
      · exact .inr (if_pos hkey)
      · exact .inl (if_neg hkey)
    · simp [Space.prepare, h.parent, Except.mapError, hcheck, hthere, hwrite, bind, Except.bind]

/-- Where there is room and nothing else, an empty database is made. -/
theorem opensEmpty (h : HasRoom path d) (hnone : ∀ key, d.LeadsTo path key → d.contents.find? key = none) :
    d.OpensEmpty path (store path) := by
  obtain ⟨p, hp, -, hpabove⟩ := h.file
  have hnode := hnone p.key ⟨p, hp, rfl⟩
  have hfind : d.find path = .error .notFound := by
    simp only [Disk.find, hp, Disk.contents_eq_none.1 hnode]
  have hcheck : checkPath path d = .ok () := by
    simp only [checkPath, hfind, if_neg h.named]
  have hfile : d.isDirectory path = false := by
    simp only [Disk.isDirectory, hfind]
  obtain ⟨d₂, hkeeps, hcontents, hprepare⟩ := h.prepare_eq hcheck
  have hp' := hkeeps.locate hp
  -- If the path is that of the file for locking, the file is there, but it is empty.
  have hheld : d₂.contents.find? p.key = none ∨ d₂.contents.find? p.key = some (some []) := by
    rcases hcontents p.key with hsame | hlock
    · exact .inl (hsame.trans hnode)
    · exact .inr hlock
  have hload : load path d₂ = .ok {} := by
    unfold load
    rw [Disk.read_eq hp']
    rcases hheld with hnone | hempty
    · rw [hnone]
    · rw [hempty]
      rfl
  have hfree : d₂.contents.find? p.key ≠ some none := by
    rcases hheld with hnone | hempty
    · simp [hnone]
    · simp [hempty]
  obtain ⟨d₃, hwrite, -⟩ := Disk.write_ok hp' hfree (fun _ => hkeeps _ (Disk.isDirectoryAt_iff.1 hpabove))
    (encode (sweep {}))
  have hchecked : checked (Space.mapped.fits d₂) (fun b => .ok b.sweep) {} = .ok (sweep {}) :=
    checked_of_fits rfl (hasSpace_sweep {})
  have hupdate : Space.mapped.update path sweep d₂ = .ok d₃ := by
    simp only [Space.update, Space.transact, hload, hchecked, hwrite, Except.mapError]
  refine Database.opensEmpty hfile (hprepare.trans hupdate) ?_
  simp only [load, Disk.read_of_write hwrite, decode?_encode]
  rfl

end HasRoom

end Database

/-! ### Directories -/

namespace DirectoryStore

variable {d : Disk} {p : Place} {root key : String}

/-- What has the extension of a blob or a staging file is a file that can be read. -/
def Readable (root : String) (d : Disk) (p : Place) : Prop :=
  ∀ name ∈ d.children p, IsEntry name → ∃ bytes, d.read (FilePath.join root name) = .ok bytes

/-- The texts of the places of these files. -/
def Entry (d : Disk) (p : Place) (key : String) : Prop :=
  ∃ name ∈ d.children p, IsEntry name ∧ key = (p.child name).key

theorem isFileName_of_read {name : String} {bytes : Bytes} (h : d.Within root p) (hname : name ∈ d.children p)
    (hentry : IsEntry name) (hread : d.read (FilePath.join root name) = .ok bytes) :
    IsFileName name ∧ d.inside p name = some (some bytes) := by
  obtain ⟨extension, -, hextension⟩ := hentry
  obtain ⟨hne, hcurrent, habove⟩ := ne_of_extension? hextension
  obtain ⟨-, hslash, -⟩ := Disk.mem_children.1 hname
  obtain ⟨q, hlocate, hfile⟩ := Disk.read_eq_ok.1 hread
  have hfilename := h.isFileName hne hcurrent habove hslash hlocate
  obtain rfl := Except.ok.inj ((h.locate hfilename).symm.trans hlocate)
  exact ⟨hfilename, hfile⟩

/-- A directory in which there is no such file opens empty. -/
theorem opensEmpty (h : d.Within root p) (hnone : ∀ name ∈ d.children p, ¬ IsEntry name) :
    d.OpensEmpty root (store root) := by
  refine ⟨d, Store.openAt_of_within h, ?_, fun key hkey => ?_⟩
  · obtain ⟨names, hnames, -⟩ := namesWith_ok h [blobExtension]
    have hempty : names = [] := List.eq_nil_iff_forall_not_mem.2 fun name hname => by
      obtain ⟨hmem, extension, hextension, heq⟩ := (mem_namesWith h hnames).1 hname
      obtain rfl := List.mem_singleton.1 hextension
      exact hnone name hmem ⟨_, .inl rfl, heq⟩
    show (namesWith root [blobExtension] d).map List.length = _
    rw [hnames, hempty]
    rfl
  · have hname := isFileName_blob hkey
    have hinside : d.inside p (entryName key blobExtension) = none := by
      by_contra hthere
      exact hnone _ (Disk.mem_children.2 ⟨hname.nonempty, hname.no_slash, hthere⟩)
        ⟨_, .inl rfl, extension?_entryName hkey (.inl rfl)⟩
    show DirectoryStore.get root key d = _
    unfold DirectoryStore.get
    rw [blobPath_eq, h.read hname, hinside]

/-- A directory is emptied of its blobs and staging files, opens empty again, and nothing else has changed. -/
theorem clear_opensEmpty (h : d.Within root p) (hreadable : Readable root d p) :
    ∃ d', (store root).clear d = (.ok (), d') ∧ d.Pruned (Entry d p) d' ∧
      (∀ key, Entry d p key → d'.contents.find? key = none) ∧ d'.OpensEmpty root (store root) := by
  obtain ⟨d', names, hclear, hwithin, hmem, hfind⟩ := clear_ok h fun name hname hentry => by
    obtain ⟨bytes, hread⟩ := hreadable name hname hentry
    exact ⟨(isFileName_of_read h hname hentry hread).1, bytes, (isFileName_of_read h hname hentry hread).2⟩
  have hentry : ∀ key, Entry d p key ↔ key ∈ names.map fun name => (p.child name).key := by
    intro key
    rw [List.mem_map]
    constructor
    · rintro ⟨name, hname, hentry, rfl⟩
      exact ⟨name, (hmem name).2 ⟨hname, hentry⟩, rfl⟩
    · rintro ⟨name, hname, rfl⟩
      exact ⟨name, ((hmem name).1 hname).1, ((hmem name).1 hname).2, rfl⟩
  refine ⟨d', hclear, fun key => ?_, fun key hkey => ?_,
    opensEmpty hwithin fun name hname => not_isEntry_of_cleared hmem hfind hname⟩
  · by_cases hkey : key ∈ names.map fun name => (p.child name).key
    · exact .inr ⟨(hentry key).2 hkey, (hfind key).trans (if_pos hkey)⟩
    · exact .inl ((hfind key).trans (if_neg hkey))
  · exact (hfind key).trans (if_pos ((hentry key).1 hkey))

end DirectoryStore

end ClassCatalog
