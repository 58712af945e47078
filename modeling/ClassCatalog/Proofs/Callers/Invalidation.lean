import ClassCatalog.Proofs.Callers.JoinedIdentity

/-!
# Loads after an invalidation

While a container is invalidated, its old index may still be in memory; but then the container is noted
to be made anew, or whoever fills a cell has taken the note and either brings a new index or puts the
note back (`Crowd.Renewed`). So if nobody was filling a cell when the invalidation began, a load that
begins after it gets an index that was made since. A cell that was set up before is not taken down,
though, and the load that finds it gets what comes of it.
-/

namespace ClassCatalog

namespace Filling

variable {ω : Type} {env : Environment ω} {settings : CacheSettings} {key : String} {l : Location}
  {current : Identity} {σ σ' : Session ω} {f f' : Filling}

/-- Whether a filling will either put an index into memory or note that one is to be made. -/
def Owes : Filling → Prop
  | flagged forced => forced = true
  | missed forced => forced = true
  | opening forced => forced = true
  | reading forced _ _ _ => forced = true
  | failed forced _ => forced = true
  | built _ => True
  | kept _ => True
  | _ => False

/-- What is owed is paid at the end. -/
theorem Advance.owes (h : Advance env settings key l current σ f f' σ') (hf : f.Owes) :
    f'.Owes ∨ σ'.cache.forced.contains key = true ∨
      ∃ index, σ'.cache.published.find? key = some ⟨index, σ.cache.nextSerial⟩ := by
  cases h with
  | takeForce => nomatch hf
  | hit => nomatch hf
  | find => nomatch hf
  | close => exact .inl trivial
  | keep => exact .inl trivial
  | store => exact .inl trivial
  | giveUp =>
    obtain rfl : _ = true := hf
    exact .inr (.inl Cache.contains_force_self)
  | @publish index => exact .inr (.inr ⟨index, NameMap.find?_insert_self ..⟩)
  | _ => exact .inl hf

/-- Only the first step of a filling takes a note away, and then owes what it says. -/
theorem Advance.forced (h : Advance env settings key l current σ f f' σ') {k : String}
    (hk : σ.cache.forced.contains k = true) :
    σ'.cache.forced.contains k = true ∨ k = key ∧ f'.Owes := by
  cases h with
  | takeForce =>
    by_cases hkey : k = key
    · exact .inr ⟨hkey, hkey ▸ hk⟩
    · exact .inl ((Cache.contains_unforce_of_ne hkey).trans hk)
  | @giveUp forced =>
    refine .inl ?_
    cases forced with
    | false => exact hk
    | true => exact Cache.contains_force hk key
  | _ => exact .inl hk

/-- Only the last step of a filling puts an index into memory, with a number of its own. -/
theorem Advance.published (h : Advance env settings key l current σ f f' σ') {k : String}
    {loaded : Loaded} (hk : σ'.cache.published.find? k = some loaded) :
    σ.cache.published.find? k = some loaded ∨
      loaded.serial = σ.cache.nextSerial ∧ σ'.cache.nextSerial = σ.cache.nextSerial + 1 := by
  cases h with
  | @publish index =>
    have hk : (σ.cache.published.insert key ⟨index, σ.cache.nextSerial⟩).find? k = some loaded := hk
    rw [NameMap.find?_insert] at hk
    split at hk
    · exact .inr ⟨Option.some.inj hk ▸ rfl, rfl⟩
    · exact .inl hk
  | @giveUp forced =>
    cases forced <;> exact .inl hk
  | _ => exact .inl hk

/-- The index a filling ends with was in memory, or has been put there. -/
theorem Advance.ended {loaded : Loaded}
    (h : Advance env settings key l current σ f (.ended (.ok loaded)) σ') :
    (f = .flagged false ∧ σ.cache.published.find? key = some loaded) ∨
      loaded.serial = σ.cache.nextSerial := by
  cases h with
  | hit hfound => exact .inl ⟨rfl, hfound⟩
  | publish => exact .inr rfl

theorem Advance.unflagged (h : Advance env settings key l current σ f (.flagged false) σ') :
    f = .begun ∧ σ.cache.forced.contains key = false := by
  generalize hf : flagged false = f' at h
  cases h with
  | takeForce => exact ⟨rfl, (Filling.flagged.inj hf).symm⟩
  | _ => nomatch hf

theorem Advance.nextSerial (h : Advance env settings key l current σ f f' σ') :
    σ.cache.nextSerial ≤ σ'.cache.nextSerial := by
  cases h with
  | publish => exact Nat.le_succ _
  | @giveUp forced => cases forced <;> exact Nat.le_refl _
  | _ => exact Nat.le_refl _

end Filling

namespace Crowd

variable {ι ω : Type} [DecidableEq ι] {env : Environment ω} {settings : CacheSettings}
  {s s' t : Crowd ι ω} {i v : ι} {c c' : Caller} {key : String} {cells serials : Nat}

omit [DecidableEq ι] in
theorem Move.forced (h : Move env settings i s c c' t) (hk : s.cache.forced.contains key = true) :
    t.cache.forced.contains key = true ∨
      ∃ l current n f, c' = .load l (.filling current n f) ∧ l.cacheKey = key ∧ f.Owes := by
  cases h with
  | refuse _ hcache => exact .inl ((congrArg (·.forced.contains key) hcache).trans hk)
  | resolve _ hcache => exact .inl ((congrArg (·.forced.contains key) hcache).trans hk)
  | fill hadvance =>
    obtain hforced | ⟨rfl, howes⟩ := hadvance.forced hk
    · exact .inl hforced
    · exact .inr ⟨_, _, _, _, rfl, rfl, howes⟩
  | @force l => exact .inl (Cache.contains_force hk l.cacheKey)
  | _ => exact .inl hk

omit [DecidableEq ι] in
theorem Move.published (h : Move env settings i s c c' t) {loaded : Loaded}
    (hk : t.cache.published.find? key = some loaded) :
    s.cache.published.find? key = some loaded ∨
      loaded.serial = s.cache.nextSerial ∧ t.cache.nextSerial = s.cache.nextSerial + 1 := by
  cases h with
  | refuse _ hcache => exact .inl ((congrArg (·.published.find? key) hcache).symm.trans hk)
  | resolve _ hcache => exact .inl ((congrArg (·.published.find? key) hcache).symm.trans hk)
  | fill hadvance => exact hadvance.published hk
  | @evict l =>
    have hk : (s.cache.published.erase l.cacheKey).find? key = some loaded := hk
    rw [NameMap.find?_erase] at hk
    split at hk
    · nomatch hk
    · exact .inl hk
  | @drop l =>
    have hk : (s.cache.published.erase l.cacheKey).find? key = some loaded := hk
    rw [NameMap.find?_erase] at hk
    split at hk
    · nomatch hk
    · exact .inl hk
  | _ => exact .inl hk

omit [DecidableEq ι] in
theorem Move.nextSerial (h : Move env settings i s c c' t) :
    s.cache.nextSerial ≤ t.cache.nextSerial := by
  cases h with
  | refuse _ hcache => exact Nat.le_of_eq (congrArg (·.nextSerial) hcache).symm
  | resolve _ hcache => exact Nat.le_of_eq (congrArg (·.nextSerial) hcache).symm
  | fill hadvance => exact hadvance.nextSerial
  | _ => exact Nat.le_refl _

omit [DecidableEq ι] in
theorem Move.nextCell (h : Move env settings i s c c' t) : s.nextCell ≤ t.nextCell := by
  cases h with
  | setUp => exact Nat.le_succ _
  | _ => exact Nat.le_refl _

/-- What is in memory for the key was made since so many loadings. -/
def Recent (key : String) (serials : Nat) (s : Crowd ι ω) : Prop :=
  ∀ loaded, s.cache.published.find? key = some loaded → serials ≤ loaded.serial

/-- Since an invalidation by `v` began, with so many cells and loadings before it and nobody filling a
cell for the key. -/
structure Renewed (v : ι) (key : String) (cells serials : Nat) (s : Crowd ι ω) : Prop where
  cells_le : cells ≤ s.nextCell
  serials_le : serials ≤ s.cache.nextSerial
  set_new : ∀ {n}, s.cells.find? key = some n → cells ≤ n
  ended_new : ∀ {i l current n loaded}, l.cacheKey = key →
    s.callers i = .load l (.filling current n (.ended (.ok loaded))) → serials ≤ loaded.serial
  filled_new : ∀ {i n loaded}, (s.callers i).key = key → (s.callers i).cell? = some n → cells ≤ n →
    s.contents n = .filled (.ok loaded) → serials ≤ loaded.serial
  /-- Old indexes may be in memory only as long as a new one is owed. -/
  owed : s.cache.forced.contains key = true ∨
    (∃ i l current n f, s.callers i = .load l (.filling current n f) ∧ l.cacheKey = key ∧ f.Owes) ∨
    s.Recent key serials
  flagged : ∀ {i l current n}, l.cacheKey = key →
    s.callers i = .load l (.filling current n (.flagged false)) → s.Recent key serials
  invalidating : ∃ l stage, s.callers v = .invalidate l stage ∧ l.cacheKey = key ∧ stage ≠ .ready
  dropped : (∀ l, s.callers v ≠ .invalidate l .forced) → s.Recent key serials

theorem Recent.move (h : s.Recent key serials) (hserials : serials ≤ s.cache.nextSerial)
    (hmove : Move env settings i s c c' t) : (t.moved i c').Recent key serials := by
  intro loaded hloaded
  obtain hbefore | ⟨hnew, -⟩ := hmove.published hloaded
  · exact h loaded hbefore
  · exact hnew ▸ hserials

omit [DecidableEq ι] in
theorem Move.set {n : Nat} (h : Move env settings i s c c' t) (hset : t.cells.find? key = some n) :
    s.cells.find? key = some n ∨ n = s.nextCell := by
  cases h with
  | @setUp l =>
    have hset : (s.cells.insert l.cacheKey s.nextCell).find? key = some n := hset
    rw [NameMap.find?_insert] at hset
    split at hset
    · exact .inr (Option.some.inj hset).symm
    · exact .inl hset
  | @leave l current m r =>
    have hset : (if s.cells.find? l.cacheKey = some m then s.cells.erase l.cacheKey
      else s.cells).find? key = some n := hset
    split at hset
    · rw [NameMap.find?_erase] at hset
      split at hset
      · nomatch hset
      · exact .inl hset
    · exact .inl hset
  | _ => exact .inl hset

namespace Renewed

/-- What is owed is still owed after a step, or has been paid. -/
theorem owed_move (h : s.Renewed v key cells serials)
    (hmove : Move env settings i s (s.callers i) c t) :
    (t.moved i c).cache.forced.contains key = true ∨
      (∃ j l current n f, (t.moved i c).callers j = .load l (.filling current n f) ∧
        l.cacheKey = key ∧ f.Owes) ∨ (t.moved i c).Recent key serials := by
  have hi := moved_callers_self t i c
  obtain hforced | ⟨j, l, current, n, f, hj, rfl, howes⟩ | hrecent := h.owed
  · obtain hforced | ⟨l, current, n, f, rfl, hkey, howes⟩ := hmove.forced hforced
    · exact .inl hforced
    · exact .inr (.inl ⟨i, l, current, n, f, hi, hkey, howes⟩)
  · by_cases hji : j = i
    · rw [← hji, hj] at hmove
      cases hmove with
      | @fill _ _ _ _ f' σ hadvance =>
        obtain howes | hforced | ⟨index, hpublished⟩ := hadvance.owes howes
        · exact .inr (.inl ⟨i, l, current, n, f', hji ▸ hi, rfl, howes⟩)
        · exact .inl hforced
        · refine .inr (.inr fun loaded hloaded => ?_)
          cases hpublished.symm.trans hloaded
          exact h.serials_le
      | finish => nomatch howes
    · have hsame : (t.moved i c).callers j = s.callers j :=
        (moved_callers_of_ne t hji c).trans (congrFun hmove.shared.1 j)
      exact .inr (.inl ⟨j, l, current, n, f, hsame.trans hj, rfl, howes⟩)
  · exact .inr (.inr (hrecent.move h.serials_le hmove))

theorem move (h : s.Renewed v key cells serials) (ho : s.Orderly)
    (hstep : s.step env settings i = some s') : s'.Renewed v key cells serials := by
  have hmoves := moves_of_step hstep
  obtain ⟨c, t, hmove, rfl⟩ := step_moves hstep
  have hi := moved_callers_self t i c
  have hothers : ∀ {j}, j ≠ i → (t.moved i c).callers j = s.callers j := hmoves.others
  have hkey := hmoves.key
  refine ⟨Nat.le_trans h.cells_le hmove.nextCell, Nat.le_trans h.serials_le hmove.nextSerial,
    fun {n} hset => ?_, fun {j l current n loaded} hl hj => ?_,
    fun {j n loaded} hjkey hj hn hr => ?_, h.owed_move hmove,
    fun {j l current n} hl hj => ?_, ?_, fun hv => ?_⟩
  · obtain hset | rfl := hmove.set hset
    · exact h.set_new hset
    · exact h.cells_le
  · by_cases hji : j = i
    · rw [hji, hi] at hj
      subst hj
      obtain ⟨hbegun, -⟩ | ⟨f, σ, hadvance, -, hf⟩ := hmove.filling
      · nomatch hbegun
      · rw [hl] at hadvance
        obtain ⟨rfl, hfound⟩ | hnew := hadvance.ended
        · exact h.flagged hl hf _ hfound
        · exact hnew ▸ h.serials_le
    · exact h.ended_new hl ((hothers hji).symm.trans hj)
  · rw [hkey] at hjkey
    obtain ⟨k, hk, hkkey, hbefore⟩ | ⟨l, current, hfilling, hl⟩ := ho.filled_of_step hstep hj hr
    · exact h.filled_new (hkkey.trans hjkey) hk hn hbefore
    · exact h.ended_new (hl.trans hjkey) hfilling
  · by_cases hji : j = i
    · rw [hji, hi] at hj
      subst hj
      obtain ⟨hbegun, -⟩ | ⟨f, σ, hadvance, -, hf⟩ := hmove.filling
      · nomatch hbegun
      · rw [hl] at hadvance
        obtain ⟨rfl, hunforced⟩ := hadvance.unflagged
        obtain hforced | ⟨k, l', current', m, f', hk, hl', howes⟩ | hrecent := h.owed
        · nomatch hunforced.symm.trans hforced
        · -- Whoever owes an index fills the cell, but that is the one who has just begun.
          have hki : k = i := by
            refine ho.filler_unique (n := m) (m := n) ?_ ?_ ?_
            · rw [hk]; rfl
            · rw [hf]; rfl
            · rw [hk, hf]; exact hl'.trans hl.symm
          rw [hki, hf] at hk
          cases hk
          nomatch howes
        · exact hrecent.move h.serials_le hmove
    · exact (h.flagged hl ((hothers hji).symm.trans hj)).move h.serials_le hmove
  · obtain ⟨l, stage, hv, hl, hstage⟩ := h.invalidating
    by_cases hvi : v = i
    · rw [hvi] at hv ⊢
      rw [hi]
      rw [hv] at hmove
      cases hmove with
      | force => exact absurd rfl hstage
      | _ => exact ⟨_, _, rfl, hl, nofun⟩
    · exact ⟨l, stage, (hothers hvi).trans hv, hl, hstage⟩
  · by_cases hvi : v = i
    · rw [hvi, hi] at hv
      obtain ⟨l, stage, hvs, rfl, hstage⟩ := h.invalidating
      rw [hvi] at hvs
      rw [hvs] at hmove
      cases hmove with
      | force => exact absurd rfl hstage
      | drop =>
        intro loaded hloaded
        have hloaded : (s.cache.published.erase l.cacheKey).find? l.cacheKey = some loaded := hloaded
        rw [NameMap.find?_erase, if_pos rfl] at hloaded
        nomatch hloaded
      | spare => exact h.dropped fun l' hl' => by rw [hvi, hvs] at hl'; nomatch hl'
      | delete => exact h.dropped fun l' hl' => by rw [hvi, hvs] at hl'; nomatch hl'
    · refine (h.dropped fun l hl => hv l ?_).move h.serials_le hmove
      exact (hothers hvi).trans hl

theorem step (h : s.Renewed v key cells serials) (ho : s.Orderly) (hstep : Step env settings s s') :
    s'.Renewed v key cells serials := by
  cases hstep with
  | move i hstep => exact h.move ho hstep
  | cancel k => exact ⟨h.cells_le, h.serials_le, h.set_new, h.ended_new, h.filled_new, h.owed,
      h.flagged, h.invalidating, h.dropped⟩
  | change w => exact ⟨h.cells_le, h.serials_le, h.set_new, h.ended_new, h.filled_new, h.owed,
      h.flagged, h.invalidating, h.dropped⟩

theorem steps (h : s.Renewed v key cells serials) (ho : s.Orderly) (hsteps : Steps env settings s s') :
    s'.Renewed v key cells serials := by
  induction hsteps with
  | refl => exact h
  | tail hsteps hstep ih => exact ih.step (ho.steps hsteps) hstep

/-- The first step of an invalidation, when no cell is set up for the container. -/
theorem of_force {l : Location} (ho : s.Orderly) (hv : s.callers v = .invalidate l .ready)
    (hunset : s.cells.find? l.cacheKey = none) (hstep : s.step env settings v = some s') :
    s'.Renewed v l.cacheKey s.nextCell s.cache.nextSerial := by
  have hmoves := moves_of_step hstep
  obtain ⟨c, t, hmove, rfl⟩ := step_moves hstep
  rw [hv] at hmove
  cases hmove
  have hi := moved_callers_self { s with cache := s.cache.force l.cacheKey } v (.invalidate l .forced)
  have hidle : ∀ {j l' current n f}, l'.cacheKey = l.cacheKey →
      (moved { s with cache := s.cache.force l.cacheKey } v (.invalidate l .forced)).callers j ≠
        .load l' (.filling current n f) := fun {j l' current n f} hl' hj => by
    by_cases hjv : j = v
    · rw [hjv, hi] at hj
      nomatch hj
    · have hj := (hmoves.others hjv).symm.trans hj
      have hset := ho.isSet_of_fills (i := j) (n := n) (by rw [hj]; rfl)
      rw [hj] at hset
      nomatch (hl' ▸ hunset).symm.trans hset
  refine ⟨Nat.le_refl _, Nat.le_refl _, fun {n} hset => ?_, fun hl' hj => absurd hj (hidle hl'),
    fun {j n loaded} _ hj hn _ => ?_, .inl ?_, fun hl' hj => absurd hj (hidle hl'),
    ⟨l, .forced, hi, rfl, nofun⟩, fun hv => absurd hi (hv l)⟩
  · nomatch hunset.symm.trans hset
  · by_cases hjv : j = v
    · rw [hjv, hi] at hj
      nomatch hj
    · exact absurd (ho.held_lt (hmoves.others hjv ▸ hj)) (Nat.not_lt.2 hn)
  · exact Cache.contains_force_self

end Renewed

/-- A load of the container that began after the invalidation. -/
structure Late (i : ι) (key : String) (cells serials : Nat) (s : Crowd ι ω) : Prop where
  key : (s.callers i).key = key
  held : ∀ {n}, (s.callers i).cell? = some n → cells ≤ n
  found : ∀ {loaded}, (s.callers i).result? = some (.ok loaded) → serials ≤ loaded.serial

omit [DecidableEq ι] in
theorem Late.of_ready {l : Location} (hi : s.callers i = .load l .ready) :
    s.Late i l.cacheKey cells serials := by
  refine ⟨?_, fun {n} hn => ?_, fun {loaded} hr => ?_⟩
  · rw [hi]
    rfl
  · rw [hi] at hn
    nomatch hn
  · rw [hi] at hr
    nomatch hr

theorem Late.move {j : ι} (h : s.Late i key cells serials) (hr : s.Renewed v key cells serials)
    (hv : ∀ l, s.callers v ≠ .invalidate l .forced) (hstep : s.step env settings j = some s') :
    s'.Late i key cells serials := by
  have hmoves := moves_of_step hstep
  by_cases hij : i = j
  · subst hij
    obtain ⟨c, t, hmove, rfl⟩ := step_moves hstep
    have hi := moved_callers_self t i c
    refine ⟨(hmoves.key i).trans h.key, fun {n} hn => ?_, fun {loaded} hloaded => ?_⟩
    · rw [hi] at hn
      obtain hheld | hset | rfl := hmove.cell hn
      · exact h.held hheld
      · exact hr.set_new (h.key ▸ hset)
      · exact hr.cells_le
    · rw [hi] at hloaded
      obtain hbefore | ⟨n, hn, hfilled⟩ | ⟨l, current, n, hfilling⟩ |
        ⟨l, current, _, hrecalling, hfound, -, heq⟩ := hmove.result hloaded
      · exact h.found hbefore
      · exact hr.filled_new h.key hn (h.held hn) hfilled
      · have hkey := h.key
        rw [hfilling] at hkey
        exact hr.ended_new hkey hfilling
      · cases heq
        have hkey := h.key
        rw [hrecalling] at hkey
        exact hr.dropped hv _ (hkey ▸ hfound)
  · have hsame := hmoves.others hij
    exact ⟨hsame ▸ h.key, fun hn => h.held (hsame ▸ hn), fun hr => h.found (hsame ▸ hr)⟩

/-- An invalidation that is over stays so. -/
theorem returned_steps {l : Location} {r : Except StoreError Unit}
    (hv : s.callers v = .invalidate l (.returned r)) (hsteps : Steps env settings s s') :
    s'.callers v = .invalidate l (.returned r) := by
  induction hsteps with
  | refl => exact hv
  | tail _ hstep ih =>
    cases hstep with
    | move j hstep =>
      by_cases hvj : v = j
      · obtain ⟨c, t, hmove, -⟩ := step_moves hstep
        rw [← hvj, ih] at hmove
        nomatch hmove
      · exact ((moves_of_step hstep).others hvj).trans ih
    | cancel k => exact ih
    | change w => exact ih

theorem Late.steps {l : Location} {r : Except StoreError Unit} (h : s.Late i key cells serials)
    (hr : s.Renewed v key cells serials) (ho : s.Orderly)
    (hv : s.callers v = .invalidate l (.returned r)) (hsteps : Steps env settings s s') :
    s'.Late i key cells serials := by
  induction hsteps with
  | refl => exact h
  | tail hsteps hstep ih =>
    cases hstep with
    | move j hstep =>
      refine ih.move (hr.steps ho hsteps) (fun l' hl' => ?_) hstep
      nomatch (returned_steps hv hsteps).symm.trans hl'
    | cancel k => exact ⟨ih.key, ih.held, ih.found⟩
    | change w => exact ⟨ih.key, ih.held, ih.found⟩

/-- The indexes in memory have numbers that were given before. -/
def Numbered (s : Crowd ι ω) : Prop :=
  ∀ key loaded, s.cache.published.find? key = some loaded → loaded.serial < s.cache.nextSerial

theorem Numbered.steps (h : s.Numbered) (hsteps : Steps env settings s s') : s'.Numbered := by
  induction hsteps with
  | refl => exact h
  | tail _ hstep ih =>
    cases hstep with
    | move j hstep =>
      obtain ⟨c, t, hmove, rfl⟩ := step_moves hstep
      intro key loaded hloaded
      obtain hbefore | ⟨hnew, hnext⟩ := hmove.published hloaded
      · exact Nat.lt_of_lt_of_le (ih key loaded hbefore) hmove.nextSerial
      · show loaded.serial < t.cache.nextSerial
        omega
    | cancel k => exact ih
    | change w => exact ih

/-- An index whose making began before the state `s`: it was in memory then or before, or it is what
came of a cell that was being filled. A cell is filled by reading the store or the container, so an index
is made in this sense also where a stored one is read: what counts is when the store was read, and not
when what is in it was written. -/
def Earlier (s s' : Crowd ι ω) (key : String) (loaded : Loaded) : Prop :=
  s.cache.published.find? key = some loaded ∨ loaded.serial < s.cache.nextSerial ∨
    ∃ i n made, (s.callers i).key = key ∧ (s.callers i).fills? = some n ∧
      s'.contents n = .filled (.ok made) ∧ made.serial = loaded.serial

/-- If no cell is set up for a container when an invalidation of it takes its first step, then a load
that begins after the invalidation has returned returns no index that was read, from the store or from
the container, before that step. A store that must not be changed keeps its bytes, and then they can be
read again after it. -/
theorem not_earlier_of_invalidated {s₀ s₁ s₂ s₃ : Crowd ι ω} {l : Location}
    {r : Except StoreError Unit} {current : Identity} {loaded : Loaded}
    (hfresh : s.Fresh) (hnumbered : s.Numbered) (hbefore : Steps env settings s s₀)
    (hready : s₀.callers v = .invalidate l .ready) (hunset : s₀.cells.find? l.cacheKey = none)
    (hforce : s₀.step env settings v = some s₁) (hduring : Steps env settings s₁ s₂)
    (hreturned : s₂.callers v = .invalidate l (.returned r)) (hload : s₂.callers i = .load l .ready)
    (hafter : Steps env settings s₂ s₃)
    (hloaded : s₃.callers i = .load l (.returned current (.ok loaded))) :
    ¬ Earlier s₀ s₃ l.cacheKey loaded := by
  have ho₀ : s₀.Orderly := hfresh.orderly.steps hbefore
  have ho₁ : s₁.Orderly := ho₀.moves (moves_of_step hforce)
  have hr₁ : s₁.Renewed v l.cacheKey s₀.nextCell s₀.cache.nextSerial :=
    .of_force ho₀ hready hunset hforce
  have hr₂ := hr₁.steps ho₁ hduring
  have hlate₂ : s₂.Late i l.cacheKey s₀.nextCell s₀.cache.nextSerial :=
    .of_ready hload
  have hlate₃ := hlate₂.steps hr₂ (ho₁.steps hduring) hreturned hafter
  have hserial : s₀.cache.nextSerial ≤ loaded.serial := hlate₃.found (by rw [hloaded]; rfl)
  rintro (hmemory | hless | ⟨j, n, made, hkey, hfills, -⟩)
  · exact absurd (hnumbered.steps hbefore _ _ hmemory) (Nat.not_lt.2 hserial)
  · exact absurd hless (Nat.not_lt.2 hserial)
  · nomatch (hkey ▸ hunset).symm.trans (ho₀.isSet_of_fills hfills)

/-! ### An invalidation between two loads -/

/-- Two loads of an archive and an invalidation, each with a token of its own. -/
def threeCallers : Crowd (Fin 3) ScriptedWorld :=
  { world := archiveAt 1
    callers := fun i =>
      if i = 1 then .invalidate (.archive "a.jar") .ready else .load (.archive "a.jar") .ready
    token := fun i => i }

theorem threeCallers_fresh : threeCallers.Fresh :=
  ⟨rfl, fun _ => rfl, fun i => if hi : i = 1 then .inr (.inr ⟨_, if_pos hi⟩) else .inl ⟨_, if_neg hi⟩⟩

theorem threeCallers_numbered : threeCallers.Numbered := fun _ _ h => nomatch h

/-- The first load has come so far when the invalidation begins. -/
def interrupted (steps : Nat) : Crowd (Fin 3) ScriptedWorld :=
  threeCallers.play ScriptedWorld.environment {} (List.replicate steps 0)

/-- And no further when the invalidation is over. -/
def invalidated (steps : Nat) : Crowd (Fin 3) ScriptedWorld :=
  ((interrupted steps).play ScriptedWorld.environment {} [1]).play ScriptedWorld.environment {} [1, 1]

theorem interrupted_callers (steps : Nat) {i : Fin 3} (hi : i ≠ 0) :
    (interrupted steps).callers i = threeCallers.callers i := by
  have hothers : ∀ s : Crowd (Fin 3) ScriptedWorld,
      (s.play ScriptedWorld.environment {} (List.replicate steps 0)).callers i = s.callers i := by
    induction steps with
    | zero => exact fun _ => rfl
    | succ n ih =>
      intro s
      rw [List.replicate_succ]
      refine (ih ((s.step ScriptedWorld.environment {} 0).getD s)).trans ?_
      cases hstep : s.step ScriptedWorld.environment {} 0 with
      | none => rfl
      | some s' => exact (moves_of_step hstep).others hi
  exact hothers threeCallers

theorem invalidated_callers (steps : Nat) :
    (invalidated steps).callers 1 = .invalidate (.archive "a.jar") (.returned (.ok ())) ∧
      (invalidated steps).callers 2 = .load (.archive "a.jar") .ready := by
  have hready : (interrupted steps).callers 1 = .invalidate (.archive "a.jar") .ready :=
    interrupted_callers steps (by decide)
  have hload : (interrupted steps).callers 2 = .load (.archive "a.jar") .ready :=
    interrupted_callers steps (by decide)
  constructor
  · simp [invalidated, play, step, stepInvalidation, hready, moved, ScriptedWorld.environment,
      Store.onPart, MemoryStore.store, MemoryStore.delete]
  · simp [invalidated, play, step, stepInvalidation, hready, hload, moved]

theorem invalidated_steps (steps : Nat) : ∃ s₁,
    (interrupted steps).step ScriptedWorld.environment {} 1 = some s₁ ∧
      Steps ScriptedWorld.environment {} s₁ (invalidated steps) := by
  have hsome : ((interrupted steps).step ScriptedWorld.environment {} 1).isSome = true := by
    unfold step
    rw [interrupted_callers steps (by decide)]
    rfl
  exact ⟨_, step_eq_play hsome, steps_play ..⟩

/-- A cell that is being filled when an invalidation begins is still there after it: the next load of
the container gets what comes of it. -/
theorem earlier_reading_is_joined : ¬ ∀ (s s₀ s₁ s₂ s₃ : Crowd (Fin 3) ScriptedWorld) (v i : Fin 3)
    (l : Location) (r : Except StoreError Unit) (current : Identity) (loaded : Loaded),
    s.Fresh → s.Numbered → Steps ScriptedWorld.environment {} s s₀ →
      s₀.callers v = .invalidate l .ready → s₀.step ScriptedWorld.environment {} v = some s₁ →
      Steps ScriptedWorld.environment {} s₁ s₂ → s₂.callers v = .invalidate l (.returned r) →
      s₂.callers i = .load l .ready → Steps ScriptedWorld.environment {} s₂ s₃ →
      s₃.callers i = .load l (.returned current (.ok loaded)) →
      ¬ Earlier s₀ s₃ l.cacheKey loaded := by
  intro hnever
  obtain ⟨s₁, hforce, hduring⟩ := invalidated_steps 9
  obtain ⟨hreturned, hload⟩ := invalidated_callers 9
  -- The second load finds the cell that the first has begun to fill, and waits for it.
  have hjoined : (((invalidated 9).play ScriptedWorld.environment {}
      ([2, 2, 2] ++ List.replicate 8 0 ++ [2, 2, 2])).callers 2).loaded?.map
        (fun x => (x.1, some x.2.2.serial)) = some (.archive "a.jar",
      (((invalidated 9).play ScriptedWorld.environment {}
        ([2, 2, 2] ++ List.replicate 8 0 ++ [2, 2, 2])).contents 0).made?.map (·.serial)) := by
    decide +kernel
  obtain ⟨⟨l, current, loaded⟩, hloaded, heq⟩ := Option.map_eq_some_iff.1 hjoined
  simp only [Prod.mk.injEq] at heq
  obtain ⟨rfl, hserial⟩ := heq
  obtain ⟨made, hmade, hserial⟩ := Option.map_eq_some_iff.1 hserial.symm
  refine hnever threeCallers (interrupted 9) s₁ (invalidated 9) _ 1 2 _ _ current loaded
    threeCallers_fresh threeCallers_numbered (steps_play ..) (interrupted_callers 9 (by decide))
    hforce hduring hreturned hload (steps_play ..) (Caller.eq_of_loaded? hloaded)
    (.inr (.inr ⟨0, 0, made, ?_⟩))
  exact ⟨by decide +kernel, by decide +kernel, Cell.eq_of_made? hmade, hserial⟩

/-- The first load is over when the invalidation begins, and its index is in memory. -/
theorem not_earlier_after_return : ∃ s₁ s₃ loaded,
    threeCallers.Fresh ∧ threeCallers.Numbered ∧
      Steps ScriptedWorld.environment {} threeCallers (interrupted 17) ∧
      (interrupted 17).callers 1 = .invalidate (.archive "a.jar") .ready ∧
      (interrupted 17).cells.find? (Location.archive "a.jar").cacheKey = none ∧
      (interrupted 17).step ScriptedWorld.environment {} 1 = some s₁ ∧
      Steps ScriptedWorld.environment {} s₁ (invalidated 17) ∧
      (invalidated 17).callers 1 = .invalidate (.archive "a.jar") (.returned (.ok ())) ∧
      (invalidated 17).callers 2 = .load (.archive "a.jar") .ready ∧
      Steps ScriptedWorld.environment {} (invalidated 17) s₃ ∧
      s₃.callers 2 = .load (.archive "a.jar") (.returned ⟨"a.jar", 9, 1, none⟩ (.ok loaded)) ∧
      ¬ Earlier (interrupted 17) s₃ (Location.archive "a.jar").cacheKey loaded := by
  obtain ⟨s₁, hforce, hduring⟩ := invalidated_steps 17
  obtain ⟨hreturned, hload⟩ := invalidated_callers 17
  have hready : (interrupted 17).callers 1 = .invalidate (.archive "a.jar") .ready :=
    interrupted_callers 17 (by decide)
  have hunset : (interrupted 17).cells.find? (Location.archive "a.jar").cacheKey = none := by
    decide +kernel
  have hagain : (((invalidated 17).play ScriptedWorld.environment {}
      (List.replicate 16 2)).callers 2).loaded?.map (fun x => (x.1, x.2.1)) =
        some (.archive "a.jar", ⟨"a.jar", 9, 1, none⟩) := by decide +kernel
  obtain ⟨⟨l, current, loaded⟩, hloaded, heq⟩ := Option.map_eq_some_iff.1 hagain
  simp only [Prod.mk.injEq] at heq
  obtain ⟨rfl, rfl⟩ := heq
  have hcaller := Caller.eq_of_loaded? hloaded
  exact ⟨s₁, _, loaded, threeCallers_fresh, threeCallers_numbered, steps_play .., hready, hunset,
    hforce, hduring, hreturned, hload, steps_play .., hcaller,
    not_earlier_of_invalidated threeCallers_fresh threeCallers_numbered (steps_play ..) hready
      hunset hforce hduring hreturned hload (steps_play ..) hcaller⟩

end Crowd

end ClassCatalog
