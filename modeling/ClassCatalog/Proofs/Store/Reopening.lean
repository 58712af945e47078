import ClassCatalog.Proofs.Store.Database

/-!
# Opening a store again

Opening a store may make directories, the file of a database and the one for locking, and it drops what was
staged. After that there is nothing left to do: a store that was opened can be opened again, and has then
what it had (`Store.openAt_again`).
-/

namespace ClassCatalog

namespace Store

variable {path : String} {p : Place} {d d' : Disk} {s : Store Disk}

/-- A directory is opened as it is. -/
theorem openAt_of_within (h : d.Within path p) : Store.openAt path d = .ok (DirectoryStore.store path, d) := by
  rw [Store.openAt, if_pos (Disk.isDirectory_iff.2 ⟨p, h⟩), DirectoryStore.prepare, h.makeDirectories]
  rfl

/-- Where there is no directory, a database is opened. -/
theorem openAt_eq_ok_iff (hfile : d.isDirectory path = false) :
    Store.openAt path d = .ok (s, d') ↔ Database.prepare path d = .ok d' ∧ s = Database.store path := by
  rw [Store.openAt, if_neg (Bool.eq_false_iff.1 hfile)]
  cases Database.prepare path d with
  | error e => simp [Except.map]
  | ok made => simp [Except.map, and_comm, eq_comm]

/-- A store that was opened can be opened again, and has then what it had. -/
theorem openAt_again (h : Store.openAt path d = .ok (s, d')) :
    ∃ d'', Store.openAt path d' = .ok (s, d'') ∧ ∀ key, s.get key d'' = s.get key d' := by
  cases hdirectory : d.isDirectory path with
  | true =>
    obtain ⟨p, hwithin⟩ := Disk.isDirectory_iff.1 hdirectory
    obtain ⟨rfl, rfl⟩ := Prod.mk.inj (Except.ok.inj ((openAt_of_within hwithin).symm.trans h))
    exact ⟨d, h, fun key => rfl⟩
  | false =>
    obtain ⟨hprepare, rfl⟩ := (openAt_eq_ok_iff hdirectory).1 h
    obtain ⟨⟨indexes, staging⟩, rfl, hopen⟩ := Database.isOpen_of_prepare hprepare
    obtain ⟨d'', hagain, hopen'⟩ := hopen.prepare
    refine ⟨d'', (openAt_eq_ok_iff (Disk.isDirectory_of_read hopen.file)).2 ⟨hagain, rfl⟩, fun key => ?_⟩
    show Database.get path key d'' = Database.get path key d'
    rw [Database.get, Database.get, hopen.load, hopen'.load]
    rfl

end Store

end ClassCatalog
