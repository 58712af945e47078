import ClassCatalog.Bytes.Numbers
import ClassCatalog.Proofs.Disk.Contents
import ClassCatalog.Proofs.Store.Directory
import ClassCatalog.Proofs.Text.Utf8

/-!
# A database as a map

Once it is opened, a file is the text of a database (`Database.IsOpen`), and every transaction that there is space
for replaces it by the text of another. What is stored is the map; what is staged shows in no answer and is dropped
when the file is opened again. All this holds however a file decides what it has space for. Where the bytes of the
entries are counted, what only takes away is never refused, and bytes can be put that fit in twice.
-/

namespace ClassCatalog

namespace Database

open Blob.Get

variable {space : Space} {path key : String} {d d' d₀ : Disk} {b b' after : Database} {bytes : Bytes} {c : StoreCall}
  {calls : List StoreCall} {m : NameMap Bytes}

/-! ### The text of a database -/

theorem u64_putU64 (n : Nat) (rest : Bytes) : u64 (Blob.putU64 n ++ rest) = .ok (n % UInt64.size, rest) := by
  have hlength : (Blob.putU64 n).length = 8 := Bytes.length_littleEndian 8 n
  have hslice : sliceOr .endOfInput 8 (Blob.putU64 n ++ rest) = .ok (Blob.putU64 n, rest) := by
    rw [sliceOr, ← hlength, Bytes.splitAt?_append]
  show (sliceOr .endOfInput 8 (Blob.putU64 n ++ rest) >>= fun p => Except.ok (Bytes.ofLittleEndian p.1, p.2)) = _
  rw [hslice]
  exact congrArg (fun n => Except.ok (n, rest)) (Bytes.ofLittleEndian_littleEndian 8 n)

theorem getNat_putNat (n : Nat) (rest : Bytes) : getNat (putNat n ++ rest) = .ok (n, rest) := by
  have hones : ∀ k, getNat (List.replicate k 1 ++ 0 :: (Blob.putU64 n ++ rest)) =
      .ok (UInt64.size * k + n % UInt64.size, rest) := by
    intro k
    induction k with
    | zero =>
      show u64 (Blob.putU64 n ++ rest) = _
      rw [u64_putU64, Nat.mul_zero, Nat.zero_add]
    | succ k ih =>
      rw [List.replicate_succ, List.cons_append, getNat, if_neg (by decide), ih, Nat.mul_succ, Nat.add_comm _ UInt64.size,
        Nat.add_assoc]
      rfl
  rw [putNat, List.append_assoc, List.cons_append, hones, Nat.div_add_mod]

theorem getBytes_putBytes (bytes rest : Bytes) : getBytes (putBytes bytes ++ rest) = .ok (bytes, rest) := by
  show (getNat (putBytes bytes ++ rest) >>= fun p => slice p.1 p.2) = _
  rw [putBytes, List.append_assoc, getNat_putNat]
  show sliceOr .endOfString bytes.length (bytes ++ rest) = _
  rw [sliceOr, Bytes.splitAt?_append]

theorem getText_putText (s : String) (rest : Bytes) : getText (putText s ++ rest) = .ok (s, rest) := by
  have hbytes := getBytes_putBytes (Utf8.encode s) rest
  simp only [getText, putText, bind, StateT.bind, hbytes, Except.bind, Utf8.decode_encode]
  rfl

theorem repeated_flatMap {α : Type} {item : Blob.Get α} {put : α → Bytes} (items : List α)
    (h : ∀ a rest, item (put a ++ rest) = .ok (a, rest)) (rest : Bytes) :
    repeated item items.length (items.flatMap put ++ rest) = .ok (items, rest) := by
  induction items with
  | nil => rfl
  | cons a items ih =>
    rw [List.flatMap_cons, List.append_assoc]
    simp only [List.length_cons, repeated, bind, StateT.bind, h, Except.bind, ih]
    rfl

theorem getEntries_putEntries (m : NameMap Bytes) (rest : Bytes) :
    getEntries (putEntries m ++ rest) = .ok (m, rest) := by
  have hpair : ∀ e rest, pair getText getBytes (Blob.putPair putText putBytes e ++ rest) = .ok (e, rest) := by
    intro e rest
    simp only [pair, Blob.putPair, List.append_assoc, bind, StateT.bind, getText_putText, Except.bind,
      getBytes_putBytes]
    rfl
  rw [putEntries, List.append_assoc]
  simp only [getEntries, bind, StateT.bind, getNat_putNat, Except.bind, repeated_flatMap m.entries hpair,
    NameMap.ofList_entries]
  rfl

/-- The text of a database stands for it. -/
theorem decode?_encode (b : Database) : decode? (encode b) = some b := by
  have hsplit : Bytes.splitAt? mark.length (encode b) = some (mark, putEntries b.indexes ++ putEntries b.staging) := by
    rw [encode, List.append_assoc, Bytes.splitAt?_append]
  have hne : encode b ≠ [] := by
    rw [encode, List.append_assoc]
    exact nofun
  have hread : getDatabase (putEntries b.indexes ++ putEntries b.staging) = .ok (b, []) := by
    have hstaging := getEntries_putEntries b.staging []
    rw [List.append_nil] at hstaging
    simp only [getDatabase, bind, StateT.bind, getEntries_putEntries, Except.bind, hstaging]
    rfl
  rw [decode?, if_neg hne, hsplit]
  simp only [if_true]
  rw [StateT.run, hread]

/-! ### Space -/

theorem removeAll_of_subset {xs ys : List (String × Bytes)} (h : xs ⊆ ys) : xs.removeAll ys = [] := by
  rw [List.removeAll, List.filter_eq_nil_iff]
  exact fun e he => by simpa using h he

theorem written_eq_zero (hindexes : after.indexes.entries ⊆ b.indexes.entries)
    (hstaging : after.staging.entries ⊆ b.staging.entries) : written b after = 0 := by
  rw [written, removeAll_of_subset hindexes, removeAll_of_subset hstaging]
  rfl

/-- What only takes away is never refused. -/
theorem hasSpace_of_written (h : written b after = 0) : hasSpace b after = true := by
  simp [hasSpace, h]

theorem hasSpace_sweep (b : Database) : hasSpace b b.sweep = true :=
  hasSpace_of_written (written_eq_zero (List.Subset.refl _) nofun)

theorem hasSpace_empty (b : Database) : hasSpace b {} = true := hasSpace_of_written (written_eq_zero nofun nofun)

theorem checked_of_fits {fits : Database → Database → Bool} {change : Database → Except StoreError Database}
    (hchange : change b = .ok after) (hfits : fits b after = true) : checked fits change b = .ok after := by
  simp only [checked, hchange, hfits, if_true]

theorem checked_of_full {fits : Database → Database → Bool} {change : Database → Except StoreError Database}
    (hchange : change b = .ok after) (hfull : fits b after = false) : checked fits change b = .error full := by
  simp [checked, hchange, hfull]

theorem checked_eq_ok {fits : Database → Database → Bool} {change : Database → Except StoreError Database}
    (h : checked fits change b = .ok after) : change b = .ok after ∧ fits b after = true := by
  unfold checked at h
  split at h
  · nomatch h
  · rename_i hchange
    split at h
    · obtain rfl := Except.ok.inj h
      exact ⟨hchange, ‹_›⟩
    · nomatch h

/-- A transaction that comes to an end has read a database, changed it and written it back. -/
theorem of_transact {change : Database → Except StoreError Database} (h : space.transact path change d = .ok d') :
    ∃ b b', load path d = .ok b ∧ change b = .ok b' ∧ d.write path (encode b') = .ok d' := by
  unfold Space.transact at h
  split at h
  · nomatch h
  · rename_i b hload
    split at h
    · nomatch h
    · rename_i b' hchecked
      refine ⟨b, b', hload, (checked_eq_ok hchecked).1, ?_⟩
      cases hwrite : d.write path (encode b') with
      | error e => simp [hwrite, Except.mapError] at h
      | ok written => simpa [hwrite, Except.mapError] using h

/-- Where the file and the one for locking are there already, what is staged is dropped and that is all. -/
theorem prepare_eq_update {lock : Bytes} (hfile : d.read path = .ok bytes)
    (hlock : d.read (lockPath path) = .ok lock)
    (hparent : d.makeDirectories ((FilePath.parent? path).getD "") = .ok d) :
    space.prepare path d = space.update path sweep d := by
  obtain ⟨p, t, hfind⟩ := Disk.find_of_read hfile
  obtain ⟨q, t', hfind'⟩ := Disk.find_of_read hlock
  have hcheck : checkPath path d = .ok () := by simp only [checkPath, hfind]
  have hthere : d.exists? (lockPath path) = true := by simp [Disk.exists?, hfind', Except.toBool]
  have hnone : d.isDirectory (lockPath path) = false := by
    simp [Disk.isDirectory, hfind', DiskNode.isDirectory]
  simp [Space.prepare, hparent, Except.mapError, hcheck, hthere, hnone, bind, Except.bind]

/-- The steps of an opening that comes to an end: directories, the file for locking, and what is staged. -/
theorem of_prepare (h : space.prepare path d₀ = .ok d) :
    ∃ d₁, d₀.makeDirectories ((FilePath.parent? path).getD "") = .ok d₁ ∧ checkPath path d₁ = .ok () ∧
      ∃ d₂, (d₂ = d₁ ∨ d₁.write (lockPath path) [] = .ok d₂) ∧ d₁.Keeps d₂ ∧
        (∃ lock, d₂.read (lockPath path) = .ok lock) ∧ space.update path sweep d₂ = .ok d := by
  unfold Space.prepare at h
  cases hmake : d₀.makeDirectories ((FilePath.parent? path).getD "") with
  | error e => simp [hmake, Except.mapError, bind, Except.bind] at h
  | ok d₁ =>
    refine ⟨d₁, rfl, ?_⟩
    cases hcheck : checkPath path d₁ with
    | error e => simp [hmake, hcheck, Except.mapError, bind, Except.bind] at h
    | ok u =>
      refine ⟨rfl, ?_⟩
      simp only [hmake, hcheck, Except.mapError, bind, Except.bind] at h
      by_cases hthere : d₁.exists? (lockPath path) = true
      · cases hdirectory : d₁.isDirectory (lockPath path) with
        | true => simp [hthere, hdirectory] at h
        | false =>
          simp only [hthere, hdirectory, if_true] at h
          exact ⟨d₁, .inl rfl, .refl d₁, Disk.read_of_exists hthere hdirectory, by simpa using h⟩
      · cases hwrite : d₁.write (lockPath path) [] with
        | error e => simp [hthere, hwrite] at h
        | ok d₂ =>
          simp only [hthere, hwrite] at h
          exact ⟨d₂, .inr rfl, Disk.keeps_of_write hwrite, ⟨_, Disk.read_of_write hwrite⟩, by simpa using h⟩

/-- At a path is the text of a database; the file for locking is there, and so are the directories. -/
structure IsOpen (path : String) (d : Disk) (b : Database) : Prop where
  file : d.read path = .ok (encode b)
  lock : ∃ bytes, d.read (lockPath path) = .ok bytes
  parent (d' : Disk) : d.Keeps d' → d'.makeDirectories ((FilePath.parent? path).getD "") = .ok d'

namespace IsOpen

theorem load (h : IsOpen path d b) : Database.load path d = .ok b := by
  simp only [Database.load, h.file, decode?_encode]

/-- A change that there is space for replaces the text. -/
theorem transact {change : Database → Except StoreError Database} (h : IsOpen path d b)
    (hchange : change b = .ok after) (hfits : space.fits d b after = true) :
    ∃ d', space.transact path change d = .ok d' ∧ d.write path (encode after) = .ok d' ∧ IsOpen path d' after := by
  obtain ⟨d', hwrite⟩ := Disk.write_of_read h.file (encode after)
  obtain ⟨bytes, hlock⟩ := h.lock
  have hkeeps := Disk.keeps_of_write hwrite
  refine ⟨d', ?_, hwrite, Disk.read_of_write hwrite, Disk.readable_of_write hwrite hlock,
    fun d'' hkeeps' => h.parent d'' (hkeeps.trans hkeeps')⟩
  simp only [Space.transact, h.load, checked_of_fits hchange hfits, hwrite, Except.mapError]

theorem transact_of_full {change : Database → Except StoreError Database} (h : IsOpen path d b)
    (hchange : change b = .ok after) (hfull : space.fits d b after = false) :
    space.transact path change d = .error full := by
  simp only [Space.transact, h.load, checked_of_full hchange hfull]

theorem update {change : Database → Database} (h : IsOpen path d b) (hfits : space.fits d b (change b) = true) :
    ∃ d', space.update path change d = .ok d' ∧ d.write path (encode (change b)) = .ok d' ∧
      IsOpen path d' (change b) := h.transact rfl hfits

theorem update_of_full (h : IsOpen path d b) (change : Database → Database)
    (hfull : space.fits d b (change b) = false) : space.update path change d = .error full :=
  h.transact_of_full rfl hfull

theorem staged (h : IsOpen path d b) (hfits : space.fits d b (b.stage key bytes) = true) :
    ∃ d', space.update path (stage · key bytes) d = .ok d' ∧ IsOpen path d' (b.stage key bytes) := by
  obtain ⟨d', hupdate, -, hopen⟩ : ∃ d', space.update path (stage · key bytes) d = .ok d' ∧ _ ∧
      IsOpen path d' (b.stage key bytes) := h.update hfits
  exact ⟨d', hupdate, hopen⟩

/-- Opened again, a database has nothing staged. -/
theorem prepare_eq (h : IsOpen path d b) : space.prepare path d = space.update path sweep d := by
  obtain ⟨bytes, hlock⟩ := h.lock
  exact prepare_eq_update h.file hlock (h.parent d (.refl d))

theorem prepare (h : IsOpen path d b) : ∃ d', Database.prepare path d = .ok d' ∧ IsOpen path d' b.sweep := by
  obtain ⟨d', hupdate, -, hopen⟩ : ∃ d', Space.mapped.update path sweep d = .ok d' ∧ _ ∧ IsOpen path d' b.sweep :=
    h.update (hasSpace_sweep b)
  exact ⟨d', h.prepare_eq.trans hupdate, hopen⟩

end IsOpen

theorem isOpen_of_prepare (h : space.prepare path d = .ok d') : ∃ b, b.staging = ∅ ∧ IsOpen path d' b := by
  obtain ⟨d₁, hmake, -, d₂, -, hkeeps, ⟨lock, hlock⟩, hupdate⟩ := of_prepare h
  obtain ⟨old, b, hload, hchange, hwrite⟩ := of_transact hupdate
  obtain rfl := Except.ok.inj hchange
  obtain ⟨-, hagain⟩ := Disk.makeDirectories_again hmake
  exact ⟨_, rfl, Disk.read_of_write hwrite, Disk.readable_of_write hwrite hlock,
    fun d'' hkeeps' => hagain d'' ((hkeeps.trans (Disk.keeps_of_write hwrite)).trans hkeeps')⟩

/-! ### Calls -/

theorem ne_empty_of_isCacheKey (hkey : IsCacheKey key) : key ≠ "" := by
  rintro rfl
  exact absurd hkey.1 (by decide)

theorem isKey_of_isCacheKey (hkey : IsCacheKey key) : isKey key = true := by
  have hsize : key.utf8ByteSize = key.toList.length :=
    utf8ByteSize_of_single fun c hc => (DirectoryStore.char_of_isCacheKey hkey hc).2.2.2
  have hshort : key.utf8ByteSize ≤ maxKeyBytes := by
    rw [hsize, hkey.1]
    decide
  simp [isKey, ne_empty_of_isCacheKey hkey, hshort]

theorem find?_stage (b : Database) (key : String) (bytes : Bytes) :
    (b.stage key bytes).staging.find? key = some bytes := NameMap.find?_insert_self ..

theorem indexes_promote (b : Database) (key : String) (bytes : Bytes) :
    (b.promote key bytes).indexes.find? key = some bytes := NameMap.find?_insert_self ..

theorem staging_promote (b : Database) (key : String) (bytes : Bytes) :
    (b.promote key bytes).staging.find? key = none := by
  rw [promote, NameMap.find?_erase, if_pos rfl]

theorem commit_of_find? (h : b.staging.find? key = some bytes) : commit key b = .ok (b.promote key bytes) := by
  rw [commit, h]

theorem commit_stage (b : Database) (key : String) (bytes : Bytes) :
    commit key (b.stage key bytes) = .ok ((b.stage key bytes).promote key bytes) :=
  commit_of_find? (find?_stage b key bytes)

theorem put_of_error {e : StoreError} (hkey : isKey key = true)
    (hstage : space.update path (stage · key bytes) d = .error e) : space.put path key bytes d = (.error e, d) := by
  rw [Space.put, if_neg (not_not_intro hkey), hstage]

theorem put_of_staged {staged : Disk} (hkey : isKey key = true)
    (hstage : space.update path (stage · key bytes) d = .ok staged) :
    space.put path key bytes d = finish () staged (space.transact path (commit key) staged) := by
  rw [Space.put, if_neg (not_not_intro hkey), hstage]

/-- How a put ends: there is no space to stage the bytes, or then none to store them, or they are stored. -/
inductive Put (space : Space) (path key : String) (bytes : Bytes) (d : Disk) (b : Database) : Prop
  | refused (hfull : space.fits d b (b.stage key bytes) = false)
      (hput : space.put path key bytes d = (.error full, d))
  | leftStaged {d' : Disk} (hfits : space.fits d b (b.stage key bytes) = true)
      (hfull : space.fits d' (b.stage key bytes) ((b.stage key bytes).promote key bytes) = false)
      (hput : space.put path key bytes d = (.error full, d')) (hopen : IsOpen path d' (b.stage key bytes))
  | done {staged d' : Disk} (hfits : space.fits d b (b.stage key bytes) = true)
      (hfits' : space.fits staged (b.stage key bytes) ((b.stage key bytes).promote key bytes) = true)
      (hput : space.put path key bytes d = (.ok (), d'))
      (hopen : IsOpen path d' ((b.stage key bytes).promote key bytes))

/-- What a call comes to: there is no space for it and what is stored is as before, or it is answered as by the
map, and what is stored is as in the map. -/
inductive Called (space : Space) (path : String) (c : StoreCall) (d : Disk) (b : Database) : Prop
  | refused {d' : Disk} {b' : Database} (hfull : ∃ d, ∃ t ∈ c.transactions b, space.fits d t.1 t.2 = false)
      (hcall : (Backend.database space path).call c d = (c.refusal, d')) (hopen : IsOpen path d' b')
      (hindexes : b'.indexes = b.indexes)
  | answered {d' : Disk} {b' : Database}
      (hcall : (Backend.database space path).call c d = ((Backend.plain.call c b.indexes).1, d'))
      (hopen : IsOpen path d' b') (hindexes : b'.indexes = (Backend.plain.call c b.indexes).2)
      (hstaging : b.staging = ∅ → b'.staging = ∅)

namespace IsOpen

theorem put (space : Space) (h : IsOpen path d b) (hkey : isKey key = true) (bytes : Bytes) :
    Put space path key bytes d b := by
  cases hfits : space.fits d b (b.stage key bytes) with
  | false => exact .refused hfits (put_of_error hkey (h.update_of_full (stage · key bytes) hfits))
  | true =>
    obtain ⟨staged, hstage, hstaged⟩ := h.staged hfits
    cases hfits' : space.fits staged (b.stage key bytes) ((b.stage key bytes).promote key bytes) with
    | false =>
      refine .leftStaged hfits hfits' ?_ hstaged
      rw [put_of_staged hkey hstage, hstaged.transact_of_full (commit_stage b key bytes) hfits', finish]
    | true =>
      obtain ⟨d', hcommit, -, hopen⟩ := hstaged.transact (commit_stage b key bytes) hfits'
      refine .done hfits hfits' ?_ hopen
      rw [put_of_staged hkey hstage, hcommit, finish]

theorem call_put (space : Space) (h : IsOpen path d b) (hkey : IsCacheKey key) (bytes : Bytes) :
    Called space path (.put key bytes) d b := by
  have hcall {r : Except StoreError Unit} {d' : Disk} (hput : space.put path key bytes d = (r, d')) :
      (Backend.database space path).call (.put key bytes) d = (.done r, d') :=
    congrArg (Prod.map StoreAnswer.done id) hput
  cases h.put space (isKey_of_isCacheKey hkey) bytes with
  | refused hfull hput => exact .refused ⟨d, _, List.mem_cons_self, hfull⟩ (hcall hput) h rfl
  | leftStaged _ hfull hput hopen =>
    exact .refused ⟨_, _, List.mem_cons_of_mem _ List.mem_cons_self, hfull⟩ (hcall hput) hopen rfl
  | done _ _ hput hopen =>
    refine .answered (hcall hput) hopen rfl fun hnone => ?_
    show (b.staging.insert key bytes).erase key = ∅
    rw [hnone]
    exact NameMap.erase_insert rfl bytes

/-- A writer that dies leaves at most its staged bytes, and those are dropped. -/
theorem call_abandon (space : Space) (h : IsOpen path d b) (key : String) (bytes : Bytes) :
    Called space path (.abandon key bytes) d b := by
  have hcall {r : Except StoreError Unit} {d' : Disk}
      (habandon : (Backend.database space path).abandon key bytes d = (r, d')) :
      (Backend.database space path).call (.abandon key bytes) d = (.done r, d') :=
    congrArg (Prod.map StoreAnswer.done id) habandon
  cases hfits : space.fits d b (b.stage key bytes) with
  | false =>
    have habandon : (Backend.database space path).abandon key bytes d = (.error full, d) := by
      simp only [Backend.database, h.update_of_full (stage · key bytes) hfits]
    exact .refused ⟨d, _, List.mem_cons_self, hfits⟩ (hcall habandon) h rfl
  | true =>
    obtain ⟨staged, hstage, hstaged⟩ := h.staged hfits
    cases hfits' : space.fits staged (b.stage key bytes) (b.stage key bytes).sweep with
    | false =>
      have habandon : (Backend.database space path).abandon key bytes d = (.error full, staged) := by
        simp only [Backend.database, hstage, hstaged.prepare_eq, hstaged.update_of_full sweep hfits', finish]
      exact .refused ⟨staged, _, List.mem_cons_of_mem _ List.mem_cons_self, hfits'⟩ (hcall habandon) hstaged rfl
    | true =>
      obtain ⟨d', hsweep, -, hopen⟩ : ∃ d', space.update path sweep staged = .ok d' ∧ _ ∧
          IsOpen path d' (b.stage key bytes).sweep := hstaged.update hfits'
      have habandon : (Backend.database space path).abandon key bytes d = (.ok (), d') := by
        simp only [Backend.database, hstage, hstaged.prepare_eq, hsweep, finish]
      exact .answered (hcall habandon) hopen rfl fun _ => rfl

theorem call_delete (space : Space) (h : IsOpen path d b) (hkey : IsCacheKey key) :
    Called space path (.delete key) d b := by
  have hcall {r : Except StoreError Bool} {d' : Disk} (hdelete : space.delete path key d = (r, d')) :
      (Backend.database space path).call (.delete key) d = (.deleted r, d') :=
    congrArg (Prod.map StoreAnswer.deleted id) hdelete
  have hdelete : space.delete path key d = finish (b.indexes.contains key) d (space.update path (erase · key) d) := by
    rw [Space.delete, if_neg (ne_empty_of_isCacheKey hkey)]
    simp only [h.load]
  cases hfits : space.fits d b (b.erase key) with
  | false =>
    rw [h.update_of_full (erase · key) hfits] at hdelete
    exact .refused ⟨d, _, List.mem_cons_self, hfits⟩ (hcall hdelete) h rfl
  | true =>
    obtain ⟨d', hupdate, -, hopen⟩ : ∃ d', space.update path (erase · key) d = .ok d' ∧ _ ∧
        IsOpen path d' (b.erase key) := h.update hfits
    rw [hupdate] at hdelete
    refine .answered (hcall hdelete) hopen rfl fun hnone => ?_
    show b.staging.erase key = ∅
    rw [hnone]
    rfl

theorem call_clear (space : Space) (h : IsOpen path d b) : Called space path .clear d b := by
  have hcall {r : Except StoreError Unit} {d' : Disk}
      (hclear : finish () d (space.update path (fun _ => {}) d) = (r, d')) :
      (Backend.database space path).call .clear d = (.done r, d') :=
    congrArg (Prod.map StoreAnswer.done id) hclear
  cases hfits : space.fits d b {} with
  | false =>
    have hclear := congrArg (finish () d) (h.update_of_full (fun _ => {}) hfits)
    exact .refused ⟨d, _, List.mem_cons_self, hfits⟩ (hcall hclear) h rfl
  | true =>
    obtain ⟨d', hupdate, -, hopen⟩ : ∃ d', space.update path (fun _ => {}) d = .ok d' ∧ _ ∧ IsOpen path d' {} :=
      h.update hfits
    exact .answered (hcall (congrArg (finish () d) hupdate)) hopen rfl fun _ => rfl

theorem call (space : Space) (h : IsOpen path d b) (hkey : c.HasCacheKey) : Called space path c d b := by
  cases c with
  | put key bytes => exact h.call_put space hkey bytes
  | abandon key bytes => exact h.call_abandon space key bytes
  | get key =>
    have hget : Database.get path key d = .ok (b.indexes.find? key) := by
      rw [Database.get, if_neg (ne_empty_of_isCacheKey hkey), h.load]
      rfl
    exact .answered (congrArg (fun r => (StoreAnswer.found r, d)) hget) h rfl id
  | delete key => exact h.call_delete space hkey
  | size =>
    have hsize : (space.store path).size d = .ok b.indexes.size := congrArg (Except.map _) h.load
    exact .answered (congrArg (fun r => (StoreAnswer.counted r, d)) hsize) h rfl id
  | clear => exact h.call_clear space

/-- Whatever there is space for, the answers are those of the map of what is stored, in which the rest has never
happened. -/
theorem within (space : Space) (h : IsOpen path d b) (hkeys : ∀ c ∈ calls, c.HasCacheKey) :
    Backend.Within space b.indexes calls ((Backend.database space path).answers calls d) := by
  induction calls generalizing d b with
  | nil => exact .nil
  | cons c calls ih =>
    obtain ⟨hkey, hkeys⟩ := List.forall_mem_cons.1 hkeys
    rw [Backend.answers]
    cases h.call space hkey with
    | refused hfull hcall hopen hindexes =>
      rw [hcall]
      exact .refused ⟨b.staging, hfull⟩ (hindexes ▸ ih hopen hkeys)
    | answered hcall hopen hindexes =>
      rw [hcall]
      exact .answered (hindexes ▸ ih hopen hkeys)

end IsOpen

end Database

end ClassCatalog
