import ClassCatalog.ClassFile.Blueprint
import ClassCatalog.Container.Scripted
import ClassCatalog.Proofs.Blob.RoundTrip
import ClassCatalog.Proofs.Cache.Loading

/-!
# The cache is transparent

Let the contents of a container be determined by its identity. Then a load returns what a manager
without a cache would: the invariant `Cache.Genuine` says that every index in memory, and every index
that the store could be read to hold, is what a scan makes of the contents that belong to its own
identity. An index is accepted for the identity it has, so it does not matter how it got where it is;
what a store loses, refuses or fails to return costs a scan and nothing else.
-/

namespace ClassCatalog

variable {ω : Type} {env : Environment ω} {settings : CacheSettings}
  {contents : Identity → Enumeration} {held : ω → String → Option Bytes}

/-- An index is what a scan makes of the contents that belong to its identity. -/
structure Index.Genuine (contents : Identity → Enumeration) (index : Index) : Prop where
  complete : (contents index.identity).failure = none
  scanned : index = .ofEntries index.identity (contents index.identity).entries

/-- A store that makes nothing up: it returns what it holds, and after a change it holds under every
key what it held, nothing, or what was to be put there. It may fail whenever it likes. -/
structure Store.Honest (store : Store ω) (held : ω → String → Option Bytes) : Prop where
  get {key : String} {w : ω} {bytes : Bytes} :
    store.get key w = .ok (some bytes) → held w key = some bytes
  put (key : String) (bytes : Bytes) (w : ω) (k : String) :
    held (store.put key bytes w).2 k = held w k ∨ held (store.put key bytes w).2 k = none ∨
      held (store.put key bytes w).2 k = some bytes
  delete (key : String) (w : ω) (k : String) :
    held (store.delete key w).2 k = held w k ∨ held (store.delete key w).2 k = none

namespace Store.Honest

theorem readOnly {store : Store ω} (h : store.Honest held) : store.readOnly.Honest held :=
  ⟨h.get, fun _ _ _ _ => .inl rfl, fun _ _ _ => .inl rfl⟩

theorem memory : MemoryStore.store.Honest fun m key => m.entries.find? key := by
  refine ⟨fun h => Except.ok.inj h, fun key bytes m k => ?_, fun key m k => ?_⟩
  · by_cases hfail : m.failWrites = true
    · exact .inl (by simp [MemoryStore.store, MemoryStore.put, hfail])
    · simp only [MemoryStore.store, MemoryStore.put, hfail]
      by_cases hk : k = key
      · exact .inr (.inr (by simp [hk]))
      · exact .inl (NameMap.find?_insert_of_ne _ hk _)
  · by_cases hk : k = key
    · exact .inr ((NameMap.find?_erase ..).trans (if_pos hk))
    · exact .inl ((NameMap.find?_erase ..).trans (if_neg hk))

theorem onPart {σ : Type} {store : Store σ} {held : σ → String → Option Bytes} (part : ω → σ)
    (update : σ → ω → ω) (hpart : ∀ x w, part (update x w) = x) (h : store.Honest held) :
    (store.onPart part update).Honest fun w => held (part w) := by
  refine ⟨h.get, fun key bytes w k => ?_, fun key w k => ?_⟩
  · simpa only [Store.onPart, hpart] using h.put key bytes (part w) k
  · simpa only [Store.onPart, hpart] using h.delete key (part w) k

end Store.Honest

theorem ScriptedWorld.honest :
    environment.store.Honest fun w key => w.store.entries.find? key :=
  Store.Honest.memory.onPart ScriptedWorld.store (fun m w => { w with store := m }) fun _ _ => rfl

/-- Every index in memory is genuine, and so is every index that stored bytes would be read as. -/
structure Cache.Genuine (contents : Identity → Enumeration) (held : ω → String → Option Bytes)
    (c : Cache) (w : ω) : Prop where
  published {key : String} {loaded : Loaded} :
    c.published.find? key = some loaded → loaded.index.Genuine contents
  stored {key : String} {bytes : Bytes} {index : Index} :
    held w key = some bytes → Blob.decode bytes = .ok index → index.Genuine contents

namespace Cache.Genuine
variable {c c' : Cache} {w w' : ω}

theorem congr (h : c.Genuine contents held w) (hc : c.SameIndexes c') : c'.Genuine contents held w :=
  ⟨fun hfind => h.published (hc.published ▸ hfind), h.stored⟩

theorem publish (h : c.Genuine contents held w) {index : Index} (hindex : index.Genuine contents)
    (key : String) : (c.publish key index).2.Genuine contents held w := by
  refine ⟨fun {k loaded} hfind => ?_, h.stored⟩
  rw [Cache.publish, NameMap.find?_insert] at hfind
  split at hfind
  · obtain rfl := Option.some.inj hfind
    exact hindex
  · exact h.published hfind

/-- What is stored of a genuine index is read as nothing else. -/
theorem put (h : c.Genuine contents held w) (hstore : env.store.Honest held) {index : Index}
    (hindex : index.Genuine contents) (hlen : (Blob.encode index).length < Blob.addressable)
    (key : String) : c.Genuine contents held (env.store.put key (Blob.encode index) w).2 := by
  refine ⟨h.published, fun {k bytes i} hheld hdecode => ?_⟩
  obtain hk | hk | hk := hstore.put key (Blob.encode index) w k
  · exact h.stored (hk ▸ hheld) hdecode
  · rw [hk] at hheld
    nomatch hheld
  · rw [hk] at hheld
    obtain rfl := Option.some.inj hheld
    rw [Blob.decode_encode hlen] at hdecode
    exact Except.ok.inj hdecode ▸ hindex

end Cache.Genuine

/-! ### Loads -/

namespace Loading

/-- What a manager without a cache makes of a container: its identity is resolved and every entry is
scanned. -/
def loadAfresh (env : Environment ω) (settings : CacheSettings) (l : Location) : Loading ω Index := do
  let current ← resolve env settings l
  let course ← enumerate env l
  match course.failure with
  | some reason => throw (.containerUnreadable l.logicalPath reason)
  | none => return .ofEntries current course.entries

/-- What a manager without a cache returns for a container. -/
def afresh (env : Environment ω) (settings : CacheSettings) (l : Location) (w : ω) :
    Except ScanError Index := ((loadAfresh env settings l).run.run ⟨{}, w, false⟩).1

/-- A container, read undisturbed, has the contents that belong to the identity it has, and memory
can hold the blob of their index. -/
structure Shows (env : Environment ω) (settings : CacheSettings) (contents : Identity → Enumeration)
    (l : Location) (w : ω) (course : Enumeration) : Prop extends Undisturbed env l w course where
  described {current : Identity} :
    identityOf env settings l w = .ok current → course = contents current
  fits {current : Identity} : identityOf env settings l w = .ok current →
    (Blob.encode (.ofEntries current course.entries)).length < Blob.addressable

variable {l : Location} {course : Enumeration} {s : Session ω} {c : Cache} {w : ω}

theorem afresh_eq (h : Undisturbed env l w course) :
    afresh env settings l w =
      (identityOf env settings l w).bind fun current => Scan.outcome l current course := by
  show wp (loadAfresh env settings l) (fun r _ => r = _) ⟨{}, w, false⟩
  unfold loadAfresh
  rw [wp_bind, wp_resolve h]
  cases identityOf env settings l w with
  | error e => exact rfl
  | ok current =>
    rw [andThen_ok, wp_bind, wp_enumerate h rfl, andThen_ok]
    unfold Except.bind Scan.outcome
    cases course.failure <;> exact rfl

/-- Scanning a container for the identity it has makes a genuine index. -/
theorem Shows.genuine (h : Shows env settings contents l w course) {current : Identity}
    (hid : identityOf env settings l w = .ok current) {index : Index}
    (hindex : Scan.outcome l current course = .ok index) :
    index.Genuine contents ∧ (Blob.encode index).length < Blob.addressable := by
  obtain ⟨hcomplete, rfl⟩ := Scan.outcome_eq_ok.1 hindex
  have hfits := h.fits hid
  obtain rfl := h.described hid
  refine ⟨⟨?_, ?_⟩, hfits⟩
  · rw [Index.ofEntries_identity]
    exact hcomplete
  · rw [Index.ofEntries_identity]

/-- A session in which a container can be loaded: it shows the contents of its identity, the cache is
genuine and nobody has asked to cancel. -/
structure Ready (env : Environment ω) (settings : CacheSettings) (contents : Identity → Enumeration)
    (held : ω → String → Option Bytes) (l : Location) (course : Enumeration) (current : Identity)
    (s : Session ω) : Prop where
  shown : Shows env settings contents l s.world course
  resolved : identityOf env settings l s.world = .ok current
  genuine : s.cache.Genuine contents held s.world
  running : s.cancelled = false

/-- A load ends as a scan would, and leaves a genuine cache. -/
def Renders (contents : Identity → Enumeration) (held : ω → String → Option Bytes)
    (outcome : Except ScanError Index) (r : Except ScanError Loaded) (s : Session ω) : Prop :=
  r.map Loaded.index = outcome ∧ s.cache.Genuine contents held s.world ∧ s.cancelled = false

variable {current : Identity}

/-- What changes neither the indexes nor the world leaves a session ready. -/
theorem Ready.congr (h : Ready env settings contents held l course current s) {s' : Session ω}
    (hcache : s'.cache.published = s.cache.published) (hworld : s'.world = s.world)
    (hcancelled : s'.cancelled = s.cancelled) :
    Ready env settings contents held l course current s' :=
  ⟨hworld ▸ h.shown, hworld ▸ h.resolved,
    ⟨fun hfind => h.genuine.published (hcache ▸ hfind), hworld ▸ h.genuine.stored⟩,
    hcancelled.trans h.running⟩

/-- An accepted index of a genuine cache is the one that scanning would make. -/
theorem Ready.outcome_of_accepts (h : Ready env settings contents held l course current s)
    (hvalid : settings.alwaysValid = false) {index : Index} (hindex : index.Genuine contents)
    (haccepts : accepts settings index.identity current = true) :
    Scan.outcome l current course = .ok index := by
  have heq : index.identity = current := by simpa [accepts, hvalid] using haccepts
  rw [Scan.outcome_eq_ok, h.shown.described h.resolved, ← heq]
  exact ⟨hindex.complete, hindex.scanned⟩

theorem Ready.outcome_of_remembered (h : Ready env settings contents held l course current s)
    (hvalid : settings.alwaysValid = false) {key : String} {forced : Bool} {loaded : Loaded}
    (hfound : (if forced then none else (s.cache.published.find? key).filter fun loaded =>
      accepts settings loaded.index.identity current) = some loaded) :
    Scan.outcome l current course = .ok loaded.index := by
  cases forced with
  | true => nomatch hfound
  | false =>
    obtain ⟨hfind, haccepts⟩ := Option.filter_eq_some_iff.1 hfound
    exact h.outcome_of_accepts hvalid (h.genuine.published hfind) haccepts

theorem wp_renew (hstore : env.store.Honest held)
    (h : Ready env settings contents held l course current s) (key : String) (forced : Bool) :
    wp (renew env settings key l current forced)
      (Renders contents held (Scan.outcome l current course)) s := by
  unfold renew
  rw [wp_bind, wp_tryCatch]
  refine wp_mono (wp_rebuild h.shown.toUndisturbed h.running) ?_
  rintro r s' ⟨rfl, hsame, hworld, hrunning⟩
  have h' := h.congr hsame.published hworld (hrunning.trans h.running.symm)
  cases houtcome : Scan.outcome l current course with
  | error e =>
    rw [orElse_error]
    cases forced with
    | false => exact ⟨rfl, h'.genuine, hrunning⟩
    | true => exact ⟨rfl, ⟨h'.genuine.published, h'.genuine.stored⟩, hrunning⟩
  | ok index =>
    obtain ⟨hindex, hfits⟩ := h.shown.genuine h.resolved houtcome
    rw [orElse_ok, andThen_ok]
    cases settings.disabled with
    | true => exact ⟨rfl, h'.genuine.publish hindex key, hrunning⟩
    | false =>
      refine (wp_bind ..).2 (wp_mono (wp_persist key index) ?_)
      rintro r s'' ⟨rfl, hsame', hworld', hcancelled⟩
      have hput := (h'.genuine.put hstore hindex hfits key).congr hsame'
      rw [← hworld'] at hput
      exact ⟨rfl, hput.publish hindex key, hcancelled.trans hrunning⟩

theorem wp_fetch (hstore : env.store.Honest held) (hvalid : settings.alwaysValid = false)
    (h : Ready env settings contents held l course current s) (key : String) (forced : Bool) :
    wp (fetch env settings key l current forced)
      (Renders contents held (Scan.outcome l current course)) s := by
  unfold fetch
  refine (wp_bind ..).2 (wp_mono (wp_fromStore ..) ?_)
  rintro r s' ⟨⟨stored, rfl, hstored⟩, hsame, hworld, hcancelled⟩
  have h' := h.congr hsame.published hworld hcancelled
  cases stored with
  | error reason =>
    have hmiss : Ready env settings contents held l course current
        { s' with cache := s'.cache.report (.miss current.path reason) } := h'.congr rfl rfl rfl
    rw [andThen_ok, wp_bind, wp_report, andThen_ok]
    exact wp_renew hstore hmiss key forced
  | ok index =>
    obtain ⟨-, -, haccepts, hread⟩ := hstored index rfl
    obtain ⟨bytes, hget, hdecode⟩ := readStored_eq_ok.1 hread
    have hindex := h.genuine.stored (hstore.get hget) hdecode
    rw [h.outcome_of_accepts hvalid hindex haccepts]
    exact ⟨rfl, (h'.genuine.congr (.report ..)).publish hindex key, h'.running⟩

theorem wp_attempt (hstore : env.store.Honest held) (hvalid : settings.alwaysValid = false)
    (h : Ready env settings contents held l course current s) (key : String) :
    wp (attempt env settings key l current)
      (Renders contents held (Scan.outcome l current course)) s := by
  unfold attempt
  simp only [wp_bind, wp_get, andThen_ok, wp_onCache, wp_remembered]
  have h' : Ready env settings contents held l course current
      { s with cache := s.cache.unforce key } := h.congr rfl rfl rfl
  cases hfound : (if s.cache.forced.contains key = true then none else _ : Option Loaded) with
  | some loaded =>
    rw [h'.outcome_of_remembered hvalid hfound]
    exact ⟨rfl, h'.genuine.congr (.report ..), h'.running⟩
  | none => exact wp_fetch hstore hvalid h' key _

theorem wp_attempts (hstore : env.store.Honest held) (hvalid : settings.alwaysValid = false)
    (h : Ready env settings contents held l course current s) (key : String) (n : Nat) :
    wp (attempts env settings key l current n)
      (Renders contents held (Scan.outcome l current course)) s := by
  have hattempt := wp_attempt hstore hvalid h key
  cases n with
  | zero => exact hattempt
  | succ n =>
    rw [attempts, wp_tryCatch]
    refine wp_mono hattempt ?_
    rintro r s' ⟨hr, hgenuine, hrunning⟩
    cases r with
    | ok loaded => exact ⟨hr, hgenuine, hrunning⟩
    | error e =>
      -- The container cannot be read, and that ends the attempts.
      obtain ⟨reason, rfl⟩ := Scan.outcome_eq_error hr.symm
      exact ⟨hr, hgenuine, hrunning⟩

/-- What one load does: it returns what a manager without a cache returns, and keeps the cache
genuine. -/
theorem wp_load (hstore : env.store.Honest held) (hvalid : settings.alwaysValid = false)
    (h : Shows env settings contents l s.world course)
    (hgenuine : s.cache.Genuine contents held s.world) (hrunning : s.cancelled = false) :
    wp (load env settings l) (Renders contents held (afresh env settings l s.world)) s := by
  unfold load
  rw [afresh_eq h.toUndisturbed, wp_bind, wp_resolve h.toUndisturbed]
  cases hid : identityOf env settings l s.world with
  | error e => exact ⟨rfl, hgenuine, hrunning⟩
  | ok current =>
    have hready : Ready env settings contents held l course current s := ⟨h, hid, hgenuine, hrunning⟩
    simp only [andThen_ok, wp_bind, wp_get, wp_remembered]
    show wp _ (Renders contents held (Scan.outcome l current course)) s
    cases hfound : (if s.cache.forced.contains l.cacheKey = true then none else _ : Option Loaded) with
    | some loaded =>
      rw [hready.outcome_of_remembered hvalid hfound]
      exact ⟨rfl, hgenuine.congr (.report ..), hrunning⟩
    | none => exact wp_attempts hstore hvalid hready _ _

end Loading

/-! ### Runs -/

namespace Cache

variable {c : Cache} {w w' : ω} {l : Location} {course : Enumeration}

theorem Genuine.evict (h : c.Genuine contents held w) (l : Location) :
    (c.evict l).2.Genuine contents held w := by
  refine ⟨fun {key loaded} hfind => ?_, h.stored⟩
  rw [Cache.evict, NameMap.find?_erase] at hfind
  split at hfind
  · nomatch hfind
  · exact h.published hfind

theorem Genuine.delete (h : c.Genuine contents held w) (hstore : env.store.Honest held) (key : String) :
    c.Genuine contents held (env.store.delete key w).2 := by
  refine ⟨h.published, fun {k bytes index} hheld hdecode => ?_⟩
  obtain hk | hk := hstore.delete key w k
  · exact h.stored (hk ▸ hheld) hdecode
  · rw [hk] at hheld
    nomatch hheld

theorem Genuine.invalidate (h : c.Genuine contents held w) (hstore : env.store.Honest held)
    (l : Location) :
    (c.invalidate env.store settings l w).2.1.Genuine contents held
      (c.invalidate env.store settings l w).2.2 := by
  have hforced : (c.force l.cacheKey).Genuine contents held w := ⟨h.published, h.stored⟩
  have hevicted := (hforced.evict l).congr (.report _ (.invalidated l.logicalPath))
  rw [invalidate_cache, invalidate_world]
  split
  · exact hevicted
  · exact hevicted.delete hstore l.cacheKey

/-- What can become of a cache and its world. At first nothing is in memory, and the store holds what
is no blob or the blob of a genuine index. Containers change at will between calls. -/
inductive Run (env : Environment ω) (settings : CacheSettings) (contents : Identity → Enumeration)
    (held : ω → String → Option Bytes) : Cache → ω → Prop
  | start {w : ω} (hheld : ∀ key bytes, held w key = some bytes →
      (∃ e, Blob.decode bytes = .error e) ∨
      ∃ index : Index, index.Genuine contents ∧ bytes = Blob.encode index ∧
        bytes.length < Blob.addressable) : Run env settings contents held {} w
  | change {c : Cache} {w w' : ω} (h : Run env settings contents held c w)
      (hheld : ∀ key, held w' key = held w key) : Run env settings contents held c w'
  | load {c : Cache} {w : ω} {l : Location} {course : Enumeration}
      (h : Run env settings contents held c w)
      (hshown : Loading.Shows env settings contents l w course) :
      Run env settings contents held
        ((Loading.load env settings l).run.run ⟨c, w, false⟩).2.cache
        ((Loading.load env settings l).run.run ⟨c, w, false⟩).2.world
  | evict {c : Cache} {w : ω} (h : Run env settings contents held c w) (l : Location) :
      Run env settings contents held (c.evict l).2 w
  | invalidate {c : Cache} {w : ω} (h : Run env settings contents held c w) (l : Location) :
      Run env settings contents held (c.invalidate env.store settings l w).2.1
        (c.invalidate env.store settings l w).2.2

theorem Run.genuine (hstore : env.store.Honest held) (hvalid : settings.alwaysValid = false)
    (h : Run env settings contents held c w) : c.Genuine contents held w := by
  induction h with
  | start hheld =>
    refine ⟨nofun, fun {key bytes index} hbytes hdecode => ?_⟩
    obtain ⟨e, he⟩ | ⟨i, hi, rfl, hlen⟩ := hheld key bytes hbytes
    · rw [he] at hdecode
      nomatch hdecode
    · rw [Blob.decode_encode hlen] at hdecode
      exact Except.ok.inj hdecode ▸ hi
  | change _ hheld ih => exact ⟨ih.published, fun hbytes => ih.stored (hheld _ ▸ hbytes)⟩
  | load _ hshown ih => exact (Loading.wp_load hstore hvalid hshown ih rfl).2.1
  | evict _ l ih => exact ih.evict l
  | invalidate _ l ih => exact ih.invalidate hstore l

/-- Every load of every run returns what a manager without a cache would return at that moment: the
index that a scan makes, or the failure to read the container. Nothing that is wrong with the store
shows in it. -/
theorem load_eq_afresh (hstore : env.store.Honest held) (hvalid : settings.alwaysValid = false)
    (hrun : Run env settings contents held c w) (hshown : Loading.Shows env settings contents l w course) :
    let r := ((Loading.load env settings l).run.run ⟨c, w, false⟩).1
    r.map Loaded.index = Loading.afresh env settings l w ∧
      ∀ e, r = .error e → ∃ reason, e = .containerUnreadable l.logicalPath reason := by
  intro r
  have hr : r.map Loaded.index = Loading.afresh env settings l w :=
    (Loading.wp_load hstore hvalid hshown (hrun.genuine hstore hvalid) rfl).1
  refine ⟨hr, fun e he => ?_⟩
  rw [he, Loading.afresh_eq hshown.toUndisturbed] at hr
  cases hid : Loading.identityOf env settings l w with
  | error e' =>
    rw [hid] at hr
    obtain rfl := Except.error.inj hr
    exact Loading.identityOf_eq_error hshown.toUndisturbed hid
  | ok current =>
    rw [hid] at hr
    exact Scan.outcome_eq_error hr.symm

/-- An archive that gets other classes after a load, over a store that holds bytes that are no blob.
The second load finds an index in memory and a blob in the store, both of the earlier classes. -/
theorem load_eq_afresh_of_changed_archive :
    let l := Location.archive "a.jar"
    let classes : UInt64 → List ClassEntry := fun time =>
      if time = 1 then [⟨"a/A.class", ClassFile.Blueprint.assemble { name := "a.A" }⟩]
      else [⟨"a/B.class", ClassFile.Blueprint.assemble { name := "a.B" }⟩, ⟨"C.class", [0xCA]⟩]
    let contents : Identity → Enumeration := fun i => ⟨(classes i.lastModified).map .entry, none⟩
    let world : UInt64 → MemoryStore → ScriptedWorld := fun time store =>
      { containers := NameMap.empty.insert "a.jar"
          { entries := classes time, size := some 9, lastModified := time }
        store }
    let held : ScriptedWorld → String → Option Bytes := fun w key => w.store.entries.find? key
    let w := world 1 { entries := NameMap.empty.insert l.cacheKey [1, 2, 3] }
    let s := ((Loading.load ScriptedWorld.environment {} l).run.run ⟨{}, w, false⟩).2
    let w' := world 2 s.world.store
    ScriptedWorld.environment.store.Honest held ∧ CacheSettings.alwaysValid {} = false ∧
      Run ScriptedWorld.environment {} contents held s.cache w' ∧
      Loading.Shows ScriptedWorld.environment {} contents l w' (contents ⟨"a.jar", 9, 2, none⟩) ∧
      ((Loading.load ScriptedWorld.environment {} l).run.run ⟨s.cache, w', false⟩).1.map Loaded.index =
        .ok (.ofEntries ⟨"a.jar", 9, 2, none⟩ (classes 2)) := by
  intro l classes contents world held w s w'
  have hstart : ∀ key bytes, held w key = some bytes → ∃ e, Blob.decode bytes = .error e := by
    intro key bytes hheld
    have hfind : (NameMap.empty.insert l.cacheKey [1, 2, 3]).find? key = some bytes := hheld
    rw [NameMap.find?_insert] at hfind
    split at hfind
    · exact Option.some.inj hfind ▸ ⟨_, rfl⟩
    · nomatch hfind
  have hid : ∀ {time m current},
      Loading.identityOf ScriptedWorld.environment {} l (world time m) = .ok current →
      ⟨"a.jar", 9, time, none⟩ = current := fun h => Except.ok.inj h
  have hshown : ∀ m, Loading.Shows ScriptedWorld.environment {} contents l (world 1 m)
      (contents ⟨"a.jar", 9, 1, none⟩) :=
    fun m => ⟨⟨rfl, rfl⟩, fun h => hid h ▸ rfl, fun h => hid h ▸ by decide +kernel⟩
  have hshown' : ∀ m, Loading.Shows ScriptedWorld.environment {} contents l (world 2 m)
      (contents ⟨"a.jar", 9, 2, none⟩) :=
    fun m => ⟨⟨rfl, rfl⟩, fun h => hid h ▸ rfl, fun h => hid h ▸ by decide +kernel⟩
  have hrun : Run ScriptedWorld.environment {} contents held s.cache w' :=
    .change (.load (.start fun key bytes h => .inl (hstart key bytes h)) (hshown _)) fun _ => rfl
  exact ⟨ScriptedWorld.honest, rfl, hrun, hshown' _,
    (load_eq_afresh ScriptedWorld.honest rfl hrun (hshown' _)).1⟩

end Cache

end ClassCatalog
