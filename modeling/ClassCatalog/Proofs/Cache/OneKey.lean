import ClassCatalog.Proofs.Cache.Slot

/-!
# What a load sees of the store

A load reads and writes the store under the key of its container and under no other (`Loading.load_under`), and in
a store with one key the whole world can be taken for the cell. So whatever a store does, what a load returns and
writes depends on what there is under its key (`Loading.wp_load_found`).
-/

namespace ClassCatalog

variable {ω : Type} {env : Environment ω} {settings : CacheSettings} {key : String} {l : Location}
  {current : Identity} {made : Except ScanError Index} {course : Enumeration}

namespace Store

/-- The store as far as one key goes: there is nothing under any other, and nothing is written there. -/
def under (store : Store ω) (key : String) : Store ω :=
  { store with
    get := fun k w => if k = key then store.get k w else .ok none
    put := fun k bytes w => if k = key then store.put k bytes w else (.ok (), w) }

def Cells.under (store : Store ω) (key : String) : (store.under key).Cells (Option ω) where
  cell w k := if k = key then some w else none
  read k c := c.elim (.ok none) (store.get k)
  write k bytes c := c.map fun w => (store.put k bytes w).2
  get k w := by
    unfold Store.under
    by_cases hk : k = key <;> simp [hk]
  put k bytes w := by
    unfold Store.under
    by_cases hk : k = key <;> simp [hk]
  put_other {other k} bytes w hne := by
    unfold Store.under
    by_cases hk : k = key
    · have hother : other ≠ key := fun h => hne (hk.trans h.symm)
      simp [hother]
    · simp [hk]

end Store

/-- The environment as far as one key of the store goes. -/
abbrev Environment.under (env : Environment ω) (key : String) : Environment ω :=
  { env with store := env.store.under key }

theorem Environment.Writes.of_under {w w' : ω} (h : (env.under key).Writes w w') : env.Writes w w' := by
  induction h with
  | refl => exact .refl
  | @put w' _ l bytes ih =>
    show env.Writes w (if l.cacheKey = key then env.store.put l.cacheKey bytes w' else (.ok (), w')).2
    split
    · exact ih.put l bytes
    · exact ih

/-- The three ways in which a load succeeds. -/
theorem Slot.load_eq_ok {κ : Type} {store : Store ω} {cells : store.Cells κ} {slot left : Slot κ} {index : Index}
    (h : slot.load settings cells key current made = (.ok index, left)) :
    slot.remembered? settings current = some index ∧ left = slot ∨
    slot.stored? settings cells key current = some index ∧ left.cell = slot.cell ∨
    slot.stored? settings cells key current = none ∧ made = .ok index ∧
      left.cell = if settings.disabled then slot.cell else cells.write key (Blob.encode index) slot.cell := by
  unfold load at h
  cases hremembered : slot.remembered? settings current with
  | some i =>
    rw [hremembered] at h
    cases h
    exact .inl ⟨rfl, rfl⟩
  | none =>
    rw [hremembered, fetch] at h
    cases hstored : slot.stored? settings cells key current with
    | some i =>
      rw [hstored] at h
      cases h
      exact .inr (.inl ⟨rfl, rfl⟩)
    | none =>
      rw [hstored] at h
      cases made with
      | error e => cases h
      | ok i =>
        cases h
        exact .inr (.inr ⟨rfl, rfl, rfl⟩)

namespace Loading

theorem fromStore_under (forced : Bool) :
    fromStore (env.under key) settings key forced current = fromStore env settings key forced current := by
  simp only [fromStore, readStored, Store.under, if_pos]

theorem renew_under (forced : Bool) :
    renew (env.under key) settings key l current forced = renew env settings key l current forced := by
  simp only [renew, persist, Environment.under, Store.under, if_pos]
  rfl

theorem attempt_under : attempt (env.under key) settings key l current = attempt env settings key l current := by
  simp only [attempt, fetch, fromStore_under, renew_under]

theorem attempts_under (n : Nat) :
    attempts (env.under key) settings key l current n = attempts env settings key l current n := by
  induction n with
  | zero => exact attempt_under
  | succ n ih => simp only [attempts, attempt_under, ih]

theorem load_under : load (env.under l.cacheKey) settings l = load env settings l := by
  unfold load
  simp only [attempts_under]
  rfl

end Loading

/-! ### What there is under a key -/

/-- The index in memory, if it may be used. -/
def Cache.usable? (c : Cache) (settings : CacheSettings) (key : String) (current : Identity) : Option Index :=
  if c.forced.contains key then none
  else ((c.published.find? key).map Loaded.index).filter fun i => Loading.accepts settings i.identity current

/-- The index in the store, if it may be used. -/
def Environment.stored? (env : Environment ω) (settings : CacheSettings) (key : String) (current : Identity)
    (w : ω) : Option Index :=
  if settings.disabled then none
  else
    match env.store.get key w with
    | .ok (some bytes) =>
      (Blob.decode bytes).toOption.filter fun i => Loading.accepts settings i.identity current
    | _ => none

theorem Environment.stored?_eq_some {w : ω} {index : Index} : env.stored? settings key current w = some index ↔
    settings.disabled = false ∧ ∃ bytes, env.store.get key w = .ok (some bytes) ∧
      Blob.decode bytes = .ok index ∧ Loading.accepts settings index.identity current = true := by
  unfold stored?
  cases settings.disabled with
  | true => simp
  | false =>
    cases env.store.get key w with
    | error e => simp
    | ok found =>
      cases found with
      | none => simp
      | some bytes =>
        cases hdecode : Blob.decode bytes with
        | error e => simp [Except.toOption, hdecode]
        | ok i => simp [Except.toOption, hdecode, Option.filter_eq_some_iff]

namespace Loading

variable {c : Cache} {w : ω} {s : Session ω}

/-- What a load returns: what memory has, or else the store, or else what is made of the container. -/
def yields (env : Environment ω) (settings : CacheSettings) (key : String) (current : Identity)
    (made : Except ScanError Index) (c : Cache) (w : ω) : Except ScanError Index :=
  match c.usable? settings key current with
  | some index => .ok index
  | none =>
    match if c.forced.contains key then none else env.stored? settings key current w with
    | some index => .ok index
    | none => made

/-- How a load comes by an index, and to which world. -/
inductive Finds (env : Environment ω) (settings : CacheSettings) (key : String) (current : Identity)
    (made : Except ScanError Index) (c : Cache) (w : ω) (index : Index) : ω → Prop
  | remembered (h : c.usable? settings key current = some index) : Finds env settings key current made c w index w
  | stored (hforced : c.forced.contains key = false) (h : env.stored? settings key current w = some index) :
      Finds env settings key current made c w index w
  | made (h : c.forced.contains key = true ∨ env.stored? settings key current w = none)
      (hmade : made = .ok index) : Finds env settings key current made c w index
        (if settings.disabled then w else (env.store.put key (Blob.encode index) w).2)

theorem cell_under (store : Store ω) (key : String) (w : ω) :
    (Store.Cells.under store key).cell w key = some w := if_pos rfl

theorem slot_under (s : Session ω) : s.slot (.under env.store key) key =
    ⟨(s.cache.published.find? key).map Loaded.index, s.cache.forced.contains key, some s.world⟩ := by
  rw [Session.slot, cell_under]

variable (env settings key current) in
theorem stored?_slot_under (s : Session ω) :
    (s.slot (.under env.store key) key).stored? settings (.under env.store key) key current =
      if s.cache.forced.contains key then none else env.stored? settings key current s.world := by
  rw [slot_under]
  unfold Slot.stored? Environment.stored?
  cases settings.disabled <;> cases s.cache.forced.contains key <;> rfl

theorem fst_load_slot_under (s : Session ω) :
    ((s.slot (.under env.store key) key).load settings (.under env.store key) key current made).1 =
      yields env settings key current made s.cache s.world := by
  have hremembered : (s.slot (.under env.store key) key).remembered? settings current =
      s.cache.usable? settings key current := rfl
  unfold Slot.load Slot.fetch Slot.renew yields
  rw [hremembered, stored?_slot_under]
  cases s.cache.usable? settings key current with
  | some index => rfl
  | none =>
    cases (if s.cache.forced.contains key then none else env.stored? settings key current s.world) with
    | some index => rfl
    | none => cases made <;> rfl

theorem finds_of_load {index : Index} {left : Slot (Option ω)} {w' : ω}
    (hload : (s.slot (.under env.store key) key).load settings (.under env.store key) key current made =
      (.ok index, left)) (hcell : left.cell = some w') :
    Finds env settings key current made s.cache s.world index w' := by
  have hstored := stored?_slot_under env settings key current s
  have hslot : (s.slot (.under env.store key) key).cell = some s.world := cell_under env.store ..
  rcases Slot.load_eq_ok hload with ⟨hremembered, rfl⟩ | ⟨hfound, hsame⟩ | ⟨hnone, hmade, hwritten⟩
  · obtain rfl := Option.some.inj (hslot.symm.trans hcell)
    exact .remembered hremembered
  · obtain rfl := Option.some.inj (hslot.symm.trans (hsame.symm.trans hcell))
    rw [hfound] at hstored
    cases hforced : s.cache.forced.contains key with
    | true =>
      rw [hforced] at hstored
      nomatch hstored
    | false =>
      rw [hforced] at hstored
      exact .stored hforced hstored.symm
  · rw [hnone] at hstored
    have hworld : w' = if settings.disabled then s.world else (env.store.put key (Blob.encode index) s.world).2 := by
      rw [hwritten, hslot] at hcell
      cases hdisabled : settings.disabled with
      | true =>
        rw [hdisabled] at hcell
        exact (Option.some.inj hcell).symm
      | false =>
        rw [hdisabled] at hcell
        exact (Option.some.inj hcell).symm
    rw [hworld]
    refine .made ?_ hmade
    cases hforced : s.cache.forced.contains key with
    | true => exact .inl rfl
    | false =>
      rw [hforced] at hstored
      exact .inr hstored.symm

/-- What a load returns is what there is under its key, or what is made of the container; and it writes that only. -/
theorem wp_load_found (h : Undisturbed env l s.world course)
    (hcurrent : identityOf env settings l s.world = .ok current) :
    wp (load env settings l) (fun r s' =>
      r.map Loaded.index = yields env settings l.cacheKey current (Scan.outcomeFor s.cancelled l current course)
        s.cache s.world ∧
      (∀ loaded, r = .ok loaded → Finds env settings l.cacheKey current
        (Scan.outcomeFor s.cancelled l current course) s.cache s.world loaded.index s'.world) ∧
      env.Writes s.world s'.world ∧ s'.cancelled = s.cancelled) s := by
  have hunder : Undisturbed (env.under l.cacheKey) l s.world course := ⟨h.enumerate, h.cancels⟩
  have hload : wp (load (env.under l.cacheKey) settings l) _ s := wp_load_slot (.under env.store l.cacheKey) hunder
  rw [load_under, show identityOf (env.under l.cacheKey) settings l s.world = .ok current from hcurrent] at hload
  refine wp_mono hload ?_
  rintro r s' ⟨hresult, hslot, -, hwrites, hcancelled⟩
  refine ⟨hresult.trans (fst_load_slot_under s), ?_, hwrites.of_under, hcancelled⟩
  rintro loaded rfl
  have hleft : (s'.slot (.under env.store l.cacheKey) l.cacheKey).cell = some s'.world := cell_under env.store ..
  exact finds_of_load (Prod.ext hresult.symm hslot.symm) hleft

end Loading

end ClassCatalog
