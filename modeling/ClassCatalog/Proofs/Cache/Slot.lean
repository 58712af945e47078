import ClassCatalog.Proofs.Cache.Loading
import ClassCatalog.Store.Memory

/-!
# One container's part of the cache

What a load looks at and what it changes has its place under the key of the container: an index in
memory, the note that it is to be made anew, and what the store keeps (`Slot`). If the store keeps keys
apart (`Store.Cells`) and nobody else is at work, a load is a function of its slot (`Slot.load`, by
`Loading.wp_load_slot`), and a second load finds what the first one left (`Slot.load_load`).
-/

namespace ClassCatalog

/-- A store with a cell for every key: reading looks at the cell of the key only, and writing changes no
other. -/
structure Store.Cells {ω : Type} (store : Store ω) (κ : Type) where
  cell : ω → String → κ
  read : String → κ → Except StoreError (Option Bytes)
  write : String → Bytes → κ → κ
  get (key : String) (w : ω) : store.get key w = read key (cell w key)
  put (key : String) (bytes : Bytes) (w : ω) :
    cell (store.put key bytes w).2 key = write key bytes (cell w key)
  put_other {key k : String} (bytes : Bytes) (w : ω) (hne : k ≠ key) :
    cell (store.put key bytes w).2 k = cell w k

namespace Store.Cells

variable {ω σ κ : Type} {store : Store ω}

theorem memory_put (key : String) (bytes : Bytes) (m : MemoryStore) :
    ((m.put key bytes).2.failWrites, (m.put key bytes).2.entries.find? key) =
      if m.failWrites then (m.failWrites, m.entries.find? key) else (m.failWrites, some bytes) := by
  unfold MemoryStore.put
  split
  · rfl
  · simp

theorem memory_put_other {key k : String} (bytes : Bytes) (m : MemoryStore) (hne : k ≠ key) :
    ((m.put key bytes).2.failWrites, (m.put key bytes).2.entries.find? k) =
      (m.failWrites, m.entries.find? k) := by
  unfold MemoryStore.put
  split
  · rfl
  · simp [NameMap.find?_insert_of_ne _ hne]

/-- A store that refuses every change keeps its cells. -/
def readOnly (cells : store.Cells κ) : store.readOnly.Cells κ where
  cell := cells.cell
  read := cells.read
  write _ _ c := c
  get := cells.get
  put _ _ _ := rfl
  put_other _ _ _ := rfl

def restrict (cells : store.Cells κ) : (restricted : Bool) → (store.restrict restricted).Cells κ
  | true => cells.readOnly
  | false => cells

theorem cell_restrict (cells : store.Cells κ) (restricted : Bool) :
    (cells.restrict restricted).cell = cells.cell := by
  cases restricted with
  | true => rfl
  | false => rfl

/-- In memory a cell holds the bytes under its key, and whether writes are to fail. -/
def memory : MemoryStore.store.Cells (Bool × Option Bytes) where
  cell m key := (m.failWrites, m.entries.find? key)
  read _ c := .ok c.2
  write _ bytes c := if c.1 then c else (c.1, some bytes)
  get _ _ := rfl
  put := memory_put
  put_other := memory_put_other

def onPart {store : Store σ} (cells : store.Cells κ) (part : ω → σ) (update : σ → ω → ω)
    (hpart : ∀ x w, part (update x w) = x) : (store.onPart part update).Cells κ where
  cell w := cells.cell (part w)
  read := cells.read
  write := cells.write
  get key w := cells.get key (part w)
  put key bytes w := by simpa only [Store.onPart, hpart] using cells.put key bytes (part w)
  put_other bytes w hne := by simpa only [Store.onPart, hpart] using cells.put_other bytes (part w) hne

end Store.Cells

/-- What writing to the store, under the keys of containers, can make of a world. -/
inductive Environment.Writes {ω : Type} (env : Environment ω) (w : ω) : ω → Prop
  | refl : Writes env w w
  | put {w' : ω} (h : Writes env w w') (l : Location) (bytes : Bytes) :
      Writes env w (env.store.put l.cacheKey bytes w').2

/-- Nobody changes a container meanwhile: as long as nothing but the store is written to, its size, its
time and its digest stay as they are, and reading it comes to the same. -/
structure Environment.Still {ω : Type} (env : Environment ω) (w : ω) (l : Location)
    (course : Enumeration) : Prop where
  stat {w' : ω} (h : env.Writes w w') : env.stat l w' = env.stat l w
  ownDigest {w' : ω} (h : env.Writes w w') : env.ownDigest l w' = env.ownDigest l w
  undisturbed {w' : ω} (h : env.Writes w w') : Loading.Undisturbed env l w' course

section

variable {ω : Type} {env : Environment ω} {settings : CacheSettings} {w w' w'' : ω} {l : Location}
  {course : Enumeration}

theorem Environment.Writes.trans (h : env.Writes w w') (h' : env.Writes w' w'') : env.Writes w w'' := by
  induction h' with
  | refl => exact h
  | put _ l bytes ih => exact ih.put l bytes

theorem Environment.Still.identityOf (h : env.Still w l course) (hw : env.Writes w w') :
    Loading.identityOf env settings l w' = Loading.identityOf env settings l w := by
  rw [Loading.identityOf_eq (h.undisturbed hw), Loading.identityOf_eq (h.undisturbed .refl), h.stat hw,
    h.ownDigest hw]

end

/-- What reading a container comes to for a caller who may have asked to cancel before. Such a caller
gets no further than to the first entry. -/
def Scan.outcomeFor (cancelled : Bool) (l : Location) (current : Identity) (course : Enumeration) :
    Except ScanError Index :=
  match cancelled, course.deliveries, course.failure with
  | false, _, _ => outcome l current course
  | true, [], some reason => .error (.containerUnreadable l.logicalPath reason)
  | true, _, _ => .error (.cancelled current.path)

theorem Scan.identity_of_outcomeFor {cancelled : Bool} {l : Location} {current : Identity}
    {course : Enumeration} {index : Index} (h : outcomeFor cancelled l current course = .ok index) :
    index.identity = current := by
  unfold outcomeFor at h
  split at h
  · obtain ⟨-, rfl⟩ := outcome_eq_ok.1 h
    exact Index.ofEntries_identity current course.entries
  · nomatch h
  · nomatch h

/-- A caller who has asked to cancel gets no entry. -/
theorem Scan.run_of_cancelled {ds : List Delivery} (h : ds.contains .cancel = false) (scan : Scan)
    (hscan : scan.cancelled = true) :
    (Scan.run ds scan).stopped = (scan.stopped || !ds.isEmpty) ∧ (Scan.run ds scan).cancelled = true := by
  cases ds with
  | nil => simp [Scan.run, hscan]
  | cons d ds =>
    cases d with
    | cancel => simp at h
    | entry e => simp [Scan.run, hscan]

/-! ### Slots -/

/-- What the cache has of one container. -/
structure Slot (κ : Type) where
  index : Option Index
  forced : Bool
  cell : κ

namespace Slot

variable {ω κ : Type} {store : Store ω} (settings : CacheSettings) (cells : store.Cells κ) (key : String)
  (current : Identity) (made : Except ScanError Index)

/-- The index in memory, if it may be used. -/
def remembered? (slot : Slot κ) : Option Index :=
  if slot.forced then none else slot.index.filter fun i => Loading.accepts settings i.identity current

/-- The index in the store, if it may be used. -/
def stored? (slot : Slot κ) : Option Index :=
  if settings.disabled || slot.forced then none
  else
    match cells.read key slot.cell with
    | .ok (some bytes) =>
      (Blob.decode bytes).toOption.filter fun i => Loading.accepts settings i.identity current
    | _ => none

/-- What making the index anew leaves; a failure leaves everything as it was. -/
def renew (slot : Slot κ) : Except ScanError Index × Slot κ :=
  match made with
  | .ok index =>
    (.ok index, ⟨some index, false,
      if settings.disabled then slot.cell else cells.write key (Blob.encode index) slot.cell⟩)
  | .error e => (.error e, slot)

def fetch (slot : Slot κ) : Except ScanError Index × Slot κ :=
  match slot.stored? settings cells key current with
  | some index => (.ok index, { slot with index := some index, forced := false })
  | none => slot.renew settings cells key made

/-- What a load of a container returns, and what it leaves. -/
def load (slot : Slot κ) : Except ScanError Index × Slot κ :=
  match slot.remembered? settings current with
  | some index => (.ok index, slot)
  | none => slot.fetch settings cells key current made

variable {settings cells key current made} {slot : Slot κ} {index : Index}

theorem index_of_remembered? (h : slot.remembered? settings current = some index) :
    slot.index = some index ∧ slot.forced = false ∧
      Loading.accepts settings index.identity current = true := by
  unfold remembered? at h
  cases hforced : slot.forced with
  | true => simp [hforced] at h
  | false =>
    rw [hforced] at h
    obtain ⟨hindex, haccepts⟩ := Option.filter_eq_some_iff.1 h
    exact ⟨hindex, rfl, haccepts⟩

theorem accepts_of_stored? (h : slot.stored? settings cells key current = some index) :
    Loading.accepts settings index.identity current = true := by
  unfold stored? at h
  split at h
  · nomatch h
  · split at h
    · obtain ⟨-, haccepts⟩ := Option.filter_eq_some_iff.1 h
      exact haccepts
    · nomatch h

variable (settings cells key) in
/-- A load either succeeds and leaves in memory what it returns, or fails and changes nothing. -/
theorem load_cases (hmade : ∀ index, made = .ok index → index.identity = current) (slot : Slot κ) :
    (∃ index left, slot.load settings cells key current made = (.ok index, left) ∧
      left.index = some index ∧ left.forced = false ∧
      Loading.accepts settings index.identity current = true) ∨
    (∃ e, made = .error e ∧ slot.load settings cells key current made = (.error e, slot)) := by
  unfold load
  cases hfound : slot.remembered? settings current with
  | some index => exact .inl ⟨index, slot, rfl, index_of_remembered? hfound⟩
  | none =>
    simp only [fetch]
    cases hstored : slot.stored? settings cells key current with
    | some index => exact .inl ⟨index, _, rfl, rfl, rfl, accepts_of_stored? hstored⟩
    | none =>
      simp only [renew]
      cases hresult : made with
      | error e => exact .inr ⟨e, rfl, rfl⟩
      | ok index =>
        refine .inl ⟨index, _, rfl, rfl, rfl, ?_⟩
        rw [hmade index hresult]
        unfold Loading.accepts
        split
        · exact beq_self_eq_true _
        · exact beq_self_eq_true _

theorem load_of_index (hindex : slot.index = some index) (hforced : slot.forced = false)
    (haccepts : Loading.accepts settings index.identity current = true) :
    slot.load settings cells key current made = (.ok index, slot) := by
  have hfound : slot.remembered? settings current = some index := by
    simp [remembered?, hforced, hindex, Option.filter, haccepts]
  rw [load, hfound]

/-- A second load returns the same and changes nothing more. -/
theorem load_load (hmade : ∀ index, made = .ok index → index.identity = current) (slot : Slot κ) :
    (slot.load settings cells key current made).2.load settings cells key current made =
      slot.load settings cells key current made := by
  obtain ⟨index, left, hload, hindex, hforced, haccepts⟩ | ⟨e, -, hload⟩ :=
    load_cases settings cells key hmade slot
  · rw [hload]
    exact load_of_index hindex hforced haccepts
  · rw [hload, hload]

end Slot

/-! ### Loads -/

namespace Session

variable {ω κ : Type} {store : Store ω} (cells : store.Cells κ) {s s' : Session ω} {key k : String}

/-- What the cache has of the container with a key. -/
def slot (s : Session ω) (key : String) : Slot κ :=
  ⟨(s.cache.published.find? key).map Loaded.index, s.cache.forced.contains key, cells.cell s.world key⟩

theorem slot_congr (h : s.cache.SameIndexes s'.cache) (hworld : s'.world = s.world) (k : String) :
    s'.slot cells k = s.slot cells k := by
  unfold slot
  rw [h.published, h.forced, hworld]

theorem slot_report (e : Event) (k : String) :
    ({ s with cache := s.cache.report e } : Session ω).slot cells k = s.slot cells k := rfl

theorem slot_publish (index : Index) :
    ({ s with cache := (s.cache.publish key index).2 } : Session ω).slot cells key =
      { s.slot cells key with index := some index } := by
  simp [slot, Cache.publish]

theorem slot_publish_of_ne (hne : k ≠ key) (index : Index) :
    ({ s with cache := (s.cache.publish key index).2 } : Session ω).slot cells k = s.slot cells k := by
  simp [slot, Cache.publish, NameMap.find?_insert_of_ne _ hne]

theorem slot_force :
    ({ s with cache := s.cache.force key } : Session ω).slot cells key =
      { s.slot cells key with forced := true } := by
  simp [slot, Cache.force, NameMap.contains]

theorem slot_force_of_ne (hne : k ≠ key) :
    ({ s with cache := s.cache.force key } : Session ω).slot cells k = s.slot cells k := by
  simp [slot, Cache.force, NameMap.contains, NameMap.find?_insert_of_ne _ hne]

theorem slot_unforce :
    ({ s with cache := s.cache.unforce key } : Session ω).slot cells key =
      { s.slot cells key with forced := false } := by
  simp [slot, Cache.unforce, NameMap.contains, NameMap.find?_erase]

theorem slot_unforce_of_ne (hne : k ≠ key) :
    ({ s with cache := s.cache.unforce key } : Session ω).slot cells k = s.slot cells k := by
  simp [slot, Cache.unforce, NameMap.contains, NameMap.find?_erase, hne]

theorem remembered?_slot (settings : CacheSettings) (current : Identity) :
    (s.slot cells key).remembered? settings current =
      (if s.cache.forced.contains key then none else (s.cache.published.find? key).filter fun loaded =>
        Loading.accepts settings loaded.index.identity current).map Loaded.index := by
  unfold slot Slot.remembered?
  cases s.cache.forced.contains key with
  | true => rfl
  | false =>
    cases s.cache.published.find? key with
    | none => rfl
    | some loaded =>
      cases haccepts : Loading.accepts settings loaded.index.identity current with
      | true => simp [Option.filter, haccepts]
      | false => simp [Option.filter, haccepts]

end Session

namespace Loading

variable {ω κ : Type} {env : Environment ω} {cells : env.store.Cells κ} {settings : CacheSettings}
  {key : String} {l : Location} {current : Identity} {course : Enumeration} {s t : Session ω}

/-- A step of a load has come to what was expected of it: a result and a slot. The slots of other keys
are as before. -/
structure Leaves (cells : env.store.Cells κ) (key : String) (s : Session ω)
    (expected : Except ScanError Index × Slot κ) (r : Except ScanError Loaded) (s' : Session ω) : Prop where
  result : r.map Loaded.index = expected.1
  slot : s'.slot cells key = expected.2
  others {k : String} (hne : k ≠ key) : s'.slot cells k = s.slot cells k
  world : env.Writes s.world s'.world
  cancelled : s'.cancelled = s.cancelled

theorem Leaves.after {expected : Except ScanError Index × Slot κ} {r : Except ScanError Loaded}
    {s' : Session ω} (h : Leaves cells key t expected r s')
    (hothers : ∀ {k}, k ≠ key → t.slot cells k = s.slot cells k) (hworld : env.Writes s.world t.world)
    (hcancelled : t.cancelled = s.cancelled) : Leaves cells key s expected r s' where
  result := h.result
  slot := h.slot
  others hne := (h.others hne).trans (hothers hne)
  world := hworld.trans h.world
  cancelled := h.cancelled.trans hcancelled

theorem Leaves.publish {expected : Except ScanError Index × Slot κ} {index : Index}
    (hresult : expected.1 = .ok index)
    (hslot : { t.slot cells key with index := some index } = expected.2)
    (hothers : ∀ {k}, k ≠ key → t.slot cells k = s.slot cells k) (hworld : env.Writes s.world t.world)
    (hcancelled : t.cancelled = s.cancelled) :
    Leaves cells key s expected (.ok (t.cache.publish key index).1)
      { t with cache := (t.cache.publish key index).2 } where
  result := hresult.symm
  slot := (Session.slot_publish cells index).trans hslot
  others hne := (Session.slot_publish_of_ne cells hne index).trans (hothers hne)
  world := hworld
  cancelled := hcancelled

/-- Reading a container changes counts and events only, also for a caller who has asked to cancel. -/
theorem wp_rebuild_outcomeFor (h : Undisturbed env l s.world course) :
    wp (rebuild env l current) (fun r s' => r = Scan.outcomeFor s.cancelled l current course ∧
      s.cache.SameIndexes s'.cache ∧ s'.world = s.world ∧ s'.cancelled = s.cancelled) s := by
  cases hcancelled : s.cancelled with
  | false => exact wp_rebuild h hcancelled
  | true =>
    obtain ⟨hstopped, hrunning⟩ := Scan.run_of_cancelled h.cancels
      { index := { identity := current }, cancelled := true } rfl
    unfold rebuild
    simp only [wp_bind, wp_onCache, andThen_ok, wp_enumerate h, wp_get, wp_set, hcancelled]
    generalize Scan.run course.deliveries _ = scan at hstopped hrunning ⊢
    simp only [hstopped, hrunning, Bool.false_or, Scan.outcomeFor]
    cases course.deliveries with
    | cons d ds => exact ⟨rfl, ⟨rfl, rfl⟩, rfl, rfl⟩
    | nil =>
      cases course.failure with
      | some reason => exact ⟨rfl, ⟨rfl, rfl⟩, rfl, rfl⟩
      | none => exact ⟨rfl, ⟨rfl, rfl⟩, rfl, rfl⟩

/-- While an index is made anew, that it has to be is forgotten; a failure notes it again. -/
theorem wp_renew_slot (h : Undisturbed env l s.world course) (hkey : l.cacheKey = key) {slot : Slot κ}
    (hslot : s.slot cells key = { slot with forced := false }) :
    wp (renew env settings key l current slot.forced)
      (Leaves cells key s
        (slot.renew settings cells key (Scan.outcomeFor s.cancelled l current course))) s := by
  unfold renew
  rw [wp_bind, wp_tryCatch]
  refine wp_mono (wp_rebuild_outcomeFor h) ?_
  rintro r t ⟨rfl, hsame, hworld, hcancelled⟩
  have hslots : ∀ k, t.slot cells k = s.slot cells k := Session.slot_congr cells hsame hworld
  have hwrites : env.Writes s.world t.world := by
    rw [hworld]
    exact .refl
  unfold Slot.renew
  cases Scan.outcomeFor s.cancelled l current course with
  | error e =>
    rw [orElse_error]
    cases hforced : slot.forced with
    | false =>
      show Leaves cells key s (.error e, slot) (.error e) t
      refine ⟨rfl, ?_, fun _ => hslots _, hwrites, hcancelled⟩
      rw [hslots, hslot, ← hforced]
    | true =>
      show Leaves cells key s (.error e, slot) (.error e) { t with cache := t.cache.force key }
      refine ⟨rfl, ?_, fun hne => ?_, hwrites, hcancelled⟩
      · rw [Session.slot_force, hslots, hslot, ← hforced]
      · rw [Session.slot_force_of_ne cells hne, hslots]
  | ok index =>
    rw [orElse_ok, andThen_ok]
    cases settings.disabled with
    | true =>
      refine Leaves.publish rfl ?_ (fun _ => hslots _) hwrites hcancelled
      rw [hslots, hslot]
      rfl
    | false =>
      refine (wp_bind ..).2 (wp_mono (wp_persist key index) ?_)
      rintro r u ⟨rfl, hsame', hworld', hcancelled'⟩
      have hput : ∀ k, u.slot cells k = { t.slot cells k with cell := cells.cell u.world k } := by
        intro k
        unfold Session.slot
        rw [hsame'.published, hsame'.forced]
      refine Leaves.publish rfl ?_ (fun hne => ?_) ?_ (hcancelled'.trans hcancelled)
      · rw [hput, hslots, hslot, hworld', cells.put, hworld]
        have hcell : cells.cell s.world key = slot.cell := congrArg Slot.cell hslot
        rw [hcell]
        rfl
      · rw [hput, hslots, hworld', cells.put_other _ _ hne, hworld]
        rfl
      · rw [hworld']
        exact hkey ▸ hwrites.put l (Blob.encode index)

/-- What the store has for a slot is found in it. -/
theorem wp_fromStore_slot {slot : Slot κ} (hcell : slot.cell = cells.cell s.world key) :
    wp (fromStore env settings key slot.forced current) (fun r t =>
      (∃ found, r = .ok found ∧ found.toOption = slot.stored? settings cells key current) ∧
      s.cache.SameIndexes t.cache ∧ t.world = s.world ∧ t.cancelled = s.cancelled) s := by
  unfold fromStore Slot.stored?
  cases settings.disabled with
  | true => exact ⟨⟨.error .disabled, rfl, rfl⟩, .refl _, rfl, rfl⟩
  | false =>
    cases slot.forced with
    | true => exact ⟨⟨.error .forced, rfl, rfl⟩, .refl _, rfl, rfl⟩
    | false =>
      have hget : env.store.get key s.world = cells.read key slot.cell := by
        rw [cells.get, hcell]
      rw [← hget]
      simp only [Bool.or_false, Bool.false_eq_true, if_false, wp_bind, wp_get, andThen_ok, readStored]
      cases env.store.get key s.world with
      | error e => exact ⟨⟨.error .corrupt, rfl, rfl⟩, .report .., rfl, rfl⟩
      | ok bytes? =>
        cases bytes? with
        | none => exact ⟨⟨.error .absent, rfl, rfl⟩, .refl _, rfl, rfl⟩
        | some bytes =>
          dsimp only
          cases Blob.decode bytes with
          | error e => exact ⟨⟨.error .corrupt, rfl, rfl⟩, .report .., rfl, rfl⟩
          | ok index =>
            refine ⟨⟨_, rfl, ?_⟩, .refl _, rfl, rfl⟩
            cases haccepts : accepts settings index.identity current with
            | true => simp [Except.toOption, Option.filter, haccepts]
            | false => simp [Except.toOption, Option.filter, haccepts]

theorem wp_fetch_slot (h : Undisturbed env l s.world course) (hkey : l.cacheKey = key) {slot : Slot κ}
    (hslot : s.slot cells key = { slot with forced := false }) :
    wp (fetch env settings key l current slot.forced)
      (Leaves cells key s
        (slot.fetch settings cells key current (Scan.outcomeFor s.cancelled l current course))) s := by
  have hcell : slot.cell = cells.cell s.world key := (congrArg Slot.cell hslot).symm
  unfold fetch
  refine (wp_bind ..).2 (wp_mono (wp_fromStore_slot hcell) ?_)
  rintro r t ⟨⟨found, rfl, hfound⟩, hsame, hworld, hcancelled⟩
  have hwrites : env.Writes s.world t.world := by
    rw [hworld]
    exact .refl
  unfold Slot.fetch
  rw [← hfound]
  cases found with
  | ok index =>
    have hslots : ∀ k, ({ t with cache := t.cache.report (.hit current.path true) } : Session ω).slot cells k =
        s.slot cells k := Session.slot_congr cells (hsame.trans (.report ..)) hworld
    simp only [andThen_ok, wp_bind, wp_report, wp_publish]
    refine Leaves.publish rfl ?_ (fun _ => hslots _) hwrites hcancelled
    rw [hslots, hslot]
    rfl
  | error reason =>
    have hslots : ∀ k, ({ t with cache := t.cache.report (.miss current.path reason) } : Session ω).slot cells k =
        s.slot cells k := Session.slot_congr cells (hsame.trans (.report ..)) hworld
    simp only [andThen_ok, wp_bind, wp_report]
    rw [← hcancelled]
    refine wp_mono (wp_renew_slot (hworld ▸ h) hkey ((hslots key).trans hslot)) ?_
    intro r u hleaves
    exact hleaves.after (fun _ => hslots _) hwrites hcancelled

theorem wp_attempt_slot (h : Undisturbed env l s.world course) (hkey : l.cacheKey = key) :
    wp (attempt env settings key l current)
      (Leaves cells key s ((s.slot cells key).load settings cells key current
        (Scan.outcomeFor s.cancelled l current course))) s := by
  let t : Session ω := { s with cache := s.cache.unforce key }
  have hunforced : t.slot cells key = { s.slot cells key with forced := false } := Session.slot_unforce cells
  have hothers : ∀ {k}, k ≠ key → t.slot cells k = s.slot cells k := Session.slot_unforce_of_ne cells
  have hremembered : (s.slot cells key).remembered? settings current = _ :=
    Session.remembered?_slot cells settings current
  unfold attempt Slot.load
  simp only [wp_bind, wp_get, andThen_ok, wp_onCache, wp_remembered]
  cases hfound : (if s.cache.forced.contains key = true then none else _ : Option Loaded) with
  | some loaded =>
    replace hremembered : _ = some loaded.index :=
      hremembered.trans (congrArg (Option.map Loaded.index) hfound)
    obtain ⟨-, hforced, -⟩ := Slot.index_of_remembered? hremembered
    rw [hremembered]
    show Leaves cells key s (.ok loaded.index, s.slot cells key) (.ok loaded)
      { t with cache := t.cache.report (.hit current.path false) }
    refine ⟨rfl, ?_, fun hne => ?_, .refl, rfl⟩
    · rw [Session.slot_report, hunforced, ← hforced]
    · rw [Session.slot_report, hothers hne]
  | none =>
    replace hremembered : _ = none := hremembered.trans (congrArg (Option.map Loaded.index) hfound)
    rw [hremembered]
    have hfetch : wp (fetch env settings key l current (s.slot cells key).forced) (Leaves cells key t
        ((s.slot cells key).fetch settings cells key current (Scan.outcomeFor s.cancelled l current course))) t :=
      wp_fetch_slot (s := t) h hkey hunforced
    refine wp_mono hfetch ?_
    intro r u hleaves
    exact hleaves.after hothers .refl rfl

/-- Nobody else interrupts a load, so there is no second attempt. -/
theorem wp_attempts_slot (h : Undisturbed env l s.world course) (hkey : l.cacheKey = key) (n : Nat) :
    wp (attempts env settings key l current n)
      (Leaves cells key s ((s.slot cells key).load settings cells key current
        (Scan.outcomeFor s.cancelled l current course))) s := by
  cases n with
  | zero => exact wp_attempt_slot h hkey
  | succ n =>
    rw [attempts, wp_tryCatch]
    have hattempt : wp (attempt env settings key l current) (Leaves cells key s ((s.slot cells key).load
        settings cells key current (Scan.outcomeFor s.cancelled l current course))) s :=
      wp_attempt_slot h hkey
    refine wp_mono hattempt ?_
    intro r t hleaves
    cases r with
    | ok loaded => exact hleaves
    | error e =>
      have hown : t.cancelled = true ∨ ∀ path, e ≠ .cancelled path := by
        cases hcancelled : s.cancelled with
        | true => exact .inl (hleaves.cancelled.trans hcancelled)
        | false =>
          have hmade : ∀ index, Scan.outcomeFor s.cancelled l current course = .ok index →
              index.identity = current := fun _ => Scan.identity_of_outcomeFor
          obtain ⟨index, left, hload, -⟩ | ⟨e', hmade', hload⟩ :=
            Slot.load_cases settings cells key hmade (s.slot cells key)
          · have hresult := hleaves.result
            rw [hload] at hresult
            nomatch hresult
          · have hresult := hleaves.result
            rw [hload] at hresult
            obtain rfl := Except.error.inj hresult
            rw [hcancelled] at hmade'
            obtain ⟨reason, rfl⟩ := Scan.outcome_eq_error hmade'
            exact .inr nofun
      rw [orElse_error, wp_bind, wp_isCancelled, andThen_ok]
      split
      next path hmine =>
        obtain hcancelled | hne := hown
        · nomatch hcancelled.symm.trans hmine
        · exact absurd rfl (hne path)
      next => exact hleaves

variable (cells) in
/-- A load of a container that nobody disturbs is a function of the container's slot. -/
theorem wp_load_slot (h : Undisturbed env l s.world course) :
    wp (load env settings l) (Leaves cells l.cacheKey s
      (match identityOf env settings l s.world with
      | .ok current => (s.slot cells l.cacheKey).load settings cells l.cacheKey current
          (Scan.outcomeFor s.cancelled l current course)
      | .error e => (.error e, s.slot cells l.cacheKey))) s := by
  unfold load
  rw [wp_bind, wp_resolve h]
  cases identityOf env settings l s.world with
  | error e => exact ⟨rfl, rfl, fun _ => rfl, .refl, rfl⟩
  | ok current =>
    have hremembered : (s.slot cells l.cacheKey).remembered? settings current = _ :=
      Session.remembered?_slot cells settings current
    simp only [andThen_ok, wp_bind, wp_get, wp_remembered]
    cases hfound : (if s.cache.forced.contains l.cacheKey then none else
        (s.cache.published.find? l.cacheKey).filter fun loaded =>
          accepts settings loaded.index.identity current) with
    | some loaded =>
      rw [hfound] at hremembered
      rw [Slot.load, hremembered]
      exact ⟨rfl, Session.slot_report cells .., fun _ => Session.slot_report cells .., .refl, rfl⟩
    | none => exact wp_attempts_slot h rfl _

end Loading

end ClassCatalog
