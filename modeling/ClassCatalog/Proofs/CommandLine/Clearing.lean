import ClassCatalog.CommandLine.Run
import ClassCatalog.Proofs.Engine.OnDisk
import ClassCatalog.Proofs.Store.Emptying

/-!
# Two ways to clear a store

The command `clear` removes the store at a path; an engine empties it. Where the store is a database, or where
nothing is yet, both come to the same: no other file has changed, and an empty database is found or made when the
store is opened again. A directory is another matter. The command takes it away with all that is in it, so that
a database is made in its place; the engine takes its blobs and staging files only, and it stays a directory
(`clear_compared_with_clearStore`).
-/

namespace ClassCatalog.CommandLine

variable {d d' : Disk} {path : String} {lookup : String → Option String} {args : List String} {i : Invocation}
  {o : EngineOptions} {env : Environment DiskWorld} {e : Engine} {w : DiskWorld}

/-- To clear is to remove the store, and that is all. -/
theorem run_clear (hargs : Invocation.ofArguments args = .ok i) (hclear : i.command = .clear)
    (hoptions : i.engineOptions lookup = .ok o) (hpath : o.resolvedPath lookup = .ok path)
    (hremove : d.removeStore path = .ok d') :
    ∃ outcome, run lookup args d = (outcome, d') ∧ outcome.code = 0 := by
  have hcarry : wp (carryOut i lookup) (fun r d'' => r = .ok (fixed (.cleared path)) ∧ d'' = d') d := by
    unfold carryOut
    rw [wp_bind, wp_except, hoptions, andThen_ok, hclear]
    unfold clear
    rw [wp_bind, wp_except, hpath, andThen_ok]
    simp only [wp_bind, wp_get, andThen_ok, wp_except, hremove, wp_set, wp_pure, and_self]
  obtain ⟨hr, hd⟩ := hcarry
  unfold run
  rw [hargs]
  dsimp only
  rw [← Prod.eta ((carryOut i lookup).run.run d), hr, hd]
  exact ⟨_, rfl, rfl⟩

/-- An engine that may write its store empties it. -/
theorem clearStore_of_opened {s : Store Disk} {d'' : Disk} {result : Except StoreError Unit}
    (h : e.options.readOnly = false) (hclear : s.clear d' = (result, d'')) :
    e.clearStore (DiskWorld.environment (DiskWorld.onDisk s)) { disk := d' } = (result, { disk := d'' }) := by
  unfold Engine.clearStore Engine.restricted Store.restrict
  rw [h]
  show (match s.clear d' with | (r, x) => (r, ({ disk := x } : DiskWorld))) = _
  rw [hclear]

/-- Where there is no directory, a database that can be opened is removed, and its place is empty then. -/
theorem removeStore_of_prepare (hfile : d.isDirectory path = false) (hprepare : Database.prepare path d = .ok d') :
    ∃ cleared, d.removeStore path = .ok cleared ∧ d.Spares (d'.OfDatabase path) cleared ∧
      ((∀ key, d'.OfDatabase path key → d.contents.find? key = none) ∨ Database.HasRoom path d →
        cleared.OpensEmpty path (Database.store path)) := by
  have hkeeps := Database.keeps_of_prepare hprepare
  obtain ⟨cleared, hremove, hkept, hpruned, hnone⟩ :=
    Disk.removeStore_ok hfile (Database.lock_of_prepare hprepare)
  refine ⟨cleared, hremove, (hpruned.mono fun key hkey => hkey.mono hkeeps).spares, ?_⟩
  rintro (habsent | hroom)
  · have hnothing := Disk.removeStore_nothing (fun key hkey => habsent key (hkey.mono hkeeps)) hfile
    obtain rfl := Except.ok.inj (hremove.symm.trans hnothing)
    exact Database.opensEmpty hfile hprepare
      (Database.load_of_prepare hprepare fun key hkey => habsent key (.inl hkey))
  · exact (hroom.mono hkept hpruned.keeps).opensEmpty fun key hkey =>
      hnone key (.inl ((Disk.leadsTo_congr hkept hpruned.keeps).1 hkey))

/-- A directory is removed with all that is in it. -/
theorem removeStore_of_within {p : Place} (h : d.Within path p) : ∃ cleared, d.removeStore path = .ok cleared ∧
    (∀ key, cleared.contents.find? key = if Disk.AtOrBelow p key then none else d.contents.find? key) ∧
    (Database.HasRoom path cleared → cleared.OpensEmpty path (Database.store path)) := by
  obtain ⟨cleared, hremove, hcontents⟩ := Disk.removeTree_ok h
  have hpruned : d.Pruned (Disk.AtOrBelow p) cleared := by
    intro key
    by_cases hkey : Disk.AtOrBelow p key
    · exact .inr ⟨hkey, (hcontents key).trans (if_pos hkey)⟩
    · exact .inl ((hcontents key).trans (if_neg hkey))
  refine ⟨cleared, ?_, hcontents, fun hroom => hroom.opensEmpty ?_⟩
  · unfold Disk.removeStore
    rw [if_pos (Disk.isDirectory_iff.2 ⟨p, h⟩), hremove]
    rfl
  · rintro key ⟨q, hlocate, hkey⟩
    have hsame := (Disk.leadsTo_iff h.located).1 ⟨q, hpruned.keeps.locate hlocate, hkey⟩
    exact (hcontents key).trans (if_pos (.inl hsame))

/-- What the command `clear` does to a disk, and what the engine does that is opened on the same disk. -/
theorem clear_compared_with_clearStore (hargs : Invocation.ofArguments args = .ok i) (hclear : i.command = .clear)
    (hoptions : i.engineOptions lookup = .ok o) (hpath : o.resolvedPath lookup = .ok path)
    (henabled : o.disabled = false) (hwrites : o.readOnly = false)
    (hopen : Engine.openOnDisk o lookup d = .ok (env, e, w)) :
    (d.isDirectory path = false → ∃ outcome cleared emptied,
      run lookup args d = (outcome, cleared) ∧ outcome.code = 0 ∧ e.clearStore env w = (.ok (), emptied) ∧
      d.Spares (w.disk.OfDatabase path) cleared ∧ d.Spares (w.disk.OfDatabase path) emptied.disk ∧
      emptied.disk.OpensEmpty path (Database.store path) ∧
      ((∀ key, w.disk.OfDatabase path key → d.contents.find? key = none) ∨ Database.HasRoom path d →
        cleared.OpensEmpty path (Database.store path))) ∧
    (∀ p, d.Within path p → ∃ outcome cleared,
      run lookup args d = (outcome, cleared) ∧ outcome.code = 0 ∧
      (∀ key, cleared.contents.find? key = if Disk.AtOrBelow p key then none else d.contents.find? key) ∧
      (Database.HasRoom path cleared → cleared.OpensEmpty path (Database.store path)) ∧
      (DirectoryStore.Readable path d p → ∃ emptied, e.clearStore env w = (.ok (), emptied) ∧
        d.Pruned (DirectoryStore.Entry d p) emptied.disk ∧
        (∀ key, DirectoryStore.Entry d p key → emptied.disk.contents.find? key = none) ∧
        emptied.disk.OpensEmpty path (DirectoryStore.store path))) := by
  cases Engine.opened_of_openOnDisk hopen with
  | without h => nomatch h.symm.trans henabled
  | stored h hresolved hstore =>
    rename_i path' s d'
    obtain rfl := Except.ok.inj (hresolved.symm.trans hpath)
    refine ⟨fun hfile => ?_, fun p hwithin => ?_⟩
    · obtain ⟨hprepare, rfl⟩ := (Store.openAt_eq_ok_iff hfile).1 hstore
      obtain ⟨cleared, hremove, hspares, hempty⟩ := removeStore_of_prepare hfile hprepare
      obtain ⟨outcome, hrun, hcode⟩ := run_clear hargs hclear hoptions hpath hremove
      obtain ⟨emptied, hemptied, hspares', hempty'⟩ := Database.clear_ok hprepare
      exact ⟨outcome, cleared, _, hrun, hcode, clearStore_of_opened hwrites hemptied, hspares,
        (Database.spares_of_prepare hprepare).trans hspares', hempty', hempty⟩
    · obtain ⟨rfl, rfl⟩ := Prod.mk.inj (Except.ok.inj ((Store.openAt_of_within hwithin).symm.trans hstore))
      obtain ⟨cleared, hremove, hcontents, hempty⟩ := removeStore_of_within hwithin
      obtain ⟨outcome, hrun, hcode⟩ := run_clear hargs hclear hoptions hpath hremove
      refine ⟨outcome, cleared, hrun, hcode, hcontents, hempty, fun hreadable => ?_⟩
      obtain ⟨emptied, hemptied, hpruned, hnone, hempty'⟩ := DirectoryStore.clear_opensEmpty hwithin hreadable
      exact ⟨_, clearStore_of_opened hwrites hemptied, hpruned, hnone, hempty'⟩

/-! ### A shelf with a note -/

/-- A directory with a blob and a note in it. -/
def notedShelf : Disk :=
  (((Disk.blank 0).put ⟨false, ["cache"]⟩ (.directory 0)).put ⟨false, ["cache", "k.bin"]⟩ (.file [1, 2] 0)).put
    ⟨false, ["cache", "note.txt"]⟩ (.file [3] 0)

/-- No variable is set. -/
def noneSet (_ : String) : Option String := none

theorem within_notedShelf : notedShelf.Within "./cache" ⟨false, ["cache"]⟩ := ⟨rfl, rfl⟩

theorem children_notedShelf : notedShelf.children ⟨false, ["cache"]⟩ = ["k.bin", "note.txt"] := rfl

theorem not_isEntry_note : ¬ DirectoryStore.IsEntry "note.txt" := by
  rintro ⟨extension, rfl | rfl, h⟩
  all_goals exact absurd h (by decide)

theorem readable_notedShelf : DirectoryStore.Readable "./cache" notedShelf ⟨false, ["cache"]⟩ := by
  intro name hname hentry
  rw [children_notedShelf] at hname
  rcases List.mem_pair.1 hname with rfl | rfl
  · exact ⟨[1, 2], rfl⟩
  · exact absurd hentry not_isEntry_note

/-- The directory with the note, and the database that is made where nothing is. -/
theorem clear_compared_with_clearStore_of_notedShelf :
    (∃ env e w outcome cleared emptied,
      Engine.openOnDisk { cachePath := some "./cache" } noneSet notedShelf = .ok (env, e, w) ∧
      run noneSet ["--db", "./cache", "clear"] notedShelf = (outcome, cleared) ∧ outcome.code = 0 ∧
      cleared.contents.find? "./cache/note.txt" = none ∧
      cleared.OpensEmpty "./cache" (Database.store "./cache") ∧
      e.clearStore env w = (.ok (), emptied) ∧
      emptied.disk.contents.find? "./cache/note.txt" = some (some [3]) ∧
      emptied.disk.contents.find? "./cache/k.bin" = none ∧
      emptied.disk.OpensEmpty "./cache" (DirectoryStore.store "./cache")) ∧
    (∃ env e w outcome cleared emptied,
      Engine.openOnDisk { cachePath := some "./db" } noneSet notedShelf = .ok (env, e, w) ∧
      run noneSet ["--db", "./db", "clear"] notedShelf = (outcome, cleared) ∧ outcome.code = 0 ∧
      cleared.contents.find? "./cache/note.txt" = some (some [3]) ∧
      cleared.OpensEmpty "./db" (Database.store "./db") ∧ e.clearStore env w = (.ok (), emptied) ∧
      emptied.disk.contents.find? "./cache/note.txt" = some (some [3]) ∧
      emptied.disk.OpensEmpty "./db" (Database.store "./db")) := by
  constructor
  · have hargs : Invocation.ofArguments ["--db", "./cache", "clear"] =
        .ok ⟨{ store := some "./cache" }, .clear⟩ := rfl
    obtain ⟨env, e, w, hopen⟩ : ∃ env e w,
        Engine.openOnDisk { cachePath := some "./cache" } noneSet notedShelf = .ok (env, e, w) := ⟨_, _, _, rfl⟩
    obtain ⟨outcome, cleared, hrun, hcode, hcontents, hempty, hclear⟩ :=
      (clear_compared_with_clearStore hargs rfl rfl rfl rfl rfl hopen).2 _ within_notedShelf
    obtain ⟨emptied, hemptied, hpruned, hnone, hempty'⟩ := hclear readable_notedShelf
    have hroom : Database.HasRoom "./cache" cleared := by
      obtain rfl : (run noneSet ["--db", "./cache", "clear"] notedShelf).2 = cleared := congrArg Prod.snd hrun
      exact ⟨by decide, rfl, ⟨_, rfl, rfl, rfl⟩, ⟨_, rfl, rfl, rfl⟩⟩
    refine ⟨env, e, w, outcome, cleared, emptied, hopen, hrun, hcode, hcontents _, hempty hroom, hemptied, ?_, ?_,
      hempty'⟩
    · refine (hpruned _).resolve_right ?_
      rintro ⟨⟨name, hname, hentry, hkey⟩, -⟩
      rw [children_notedShelf] at hname
      rcases List.mem_pair.1 hname with rfl | rfl
      · exact absurd hkey (by decide)
      · exact not_isEntry_note hentry
    · exact hnone _ ⟨"k.bin", List.mem_cons_self, ⟨_, .inl rfl, rfl⟩, rfl⟩
  · have hargs : Invocation.ofArguments ["--db", "./db", "clear"] = .ok ⟨{ store := some "./db" }, .clear⟩ := rfl
    obtain ⟨env, e, w, hopen, hdb, hlock⟩ : ∃ env e w,
        Engine.openOnDisk { cachePath := some "./db" } noneSet notedShelf = .ok (env, e, w) ∧
        w.disk.locate "./db" = .ok ⟨false, ["db"]⟩ ∧
        w.disk.locate (Database.lockPath "./db") = .ok ⟨false, ["db-lock"]⟩ := ⟨_, _, _, rfl, rfl, rfl⟩
    obtain ⟨outcome, cleared, emptied, hrun, hcode, hclear, hspares, hspares', hempty, hempty'⟩ :=
      (clear_compared_with_clearStore hargs rfl rfl rfl rfl rfl hopen).1 rfl
    have hplaces : ∀ key, w.disk.OfDatabase "./db" key → key = "./db" ∨ key = "./db-lock" :=
      fun key hkey => hkey.imp (Disk.leadsTo_iff hdb).1 (Disk.leadsTo_iff hlock).1
    have hnone : ∀ key, w.disk.OfDatabase "./db" key → notedShelf.contents.find? key = none := by
      intro key hkey
      rcases hplaces key hkey with rfl | rfl
      all_goals rfl
    have hnote : ¬ w.disk.OfDatabase "./db" "./cache/note.txt" :=
      fun hkey => absurd (hplaces _ hkey) (by decide)
    exact ⟨env, e, w, outcome, cleared, emptied, hopen, hrun, hcode, hspares _ _ hnote rfl, hempty' (.inl hnone), hclear,
      hspares' _ _ hnote rfl, hempty⟩

/-- The command makes a database of the directory, and the note is gone; the engine leaves both as they are. -/
theorem clear_differs_from_clearStore_at_notedShelf :
    ∃ env e w, Engine.openOnDisk { cachePath := some "./cache" } noneSet notedShelf = .ok (env, e, w) ∧
      notedShelf.read "./cache/note.txt" = .ok [3] ∧
      (e.clearStore env w).1 = .ok () ∧ (e.clearStore env w).2.disk.read "./cache/note.txt" = .ok [3] ∧
      (Store.openAt "./cache" (e.clearStore env w).2.disk).map (fun opened => opened.1.description) =
        .ok "dir:./cache" ∧
      (run noneSet ["--db", "./cache", "clear"] notedShelf).1.code = 0 ∧
      (run noneSet ["--db", "./cache", "clear"] notedShelf).2.read "./cache/note.txt" = .error .notFound ∧
      (Store.openAt "./cache" (run noneSet ["--db", "./cache", "clear"] notedShelf).2).map
        (fun opened => opened.1.description) = .ok "lmdb:./cache" :=
  ⟨_, _, _, rfl, rfl, rfl, rfl, rfl, rfl, rfl, rfl⟩

end ClassCatalog.CommandLine
