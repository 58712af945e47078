import ClassCatalog.Cache.Callers
import ClassCatalog.Proofs.Cache.Keeps

/-!
# What a caller can do

`Filling.Advance` and `Crowd.Move` are the steps of a filling and of a caller as relations, one case
for each thing that can happen, with what was found. `Filling.step_advances` and `Crowd.step_moves`
are all that is needed of the step functions themselves.
-/

namespace ClassCatalog

namespace Loading

variable {ω : Type} {env : Environment ω} {settings : CacheSettings} {s : Session ω}

/-- Learning an identity leaves the cache alone. -/
theorem wp_resolve_cache (l : Location) :
    wp (resolve env settings l) (fun _ s' => s'.cache = s.cache) s := by
  have hR : Tolerates env fun s s' : Session ω => s'.cache = s.cache :=
    ⟨fun _ => rfl, fun hab hbc => hbc.trans hab, fun _ _ => rfl, fun _ _ => rfl⟩
  exact hR.keeps_resolve l s

end Loading

namespace Filling

open Loading

variable {ω : Type} {env : Environment ω} {settings : CacheSettings} {key : String} {l : Location}
  {current : Identity} {s : Session ω}

/-- What a filling can do next, from the session `s`. -/
inductive Advance (env : Environment ω) (settings : CacheSettings) (key : String) (l : Location)
    (current : Identity) (s : Session ω) : Filling → Filling → Session ω → Prop
  | takeForce : Advance env settings key l current s .begun (.flagged (s.cache.forced.contains key))
      { s with cache := s.cache.unforce key }
  | hit {loaded : Loaded} (hfound : s.cache.published.find? key = some loaded)
      (haccepts : accepts settings loaded.index.identity current = true) :
      Advance env settings key l current s (.flagged false) (.ended (.ok loaded))
        { s with cache := s.cache.report (.hit current.path false) }
  | miss {forced : Bool} (hnone : forced = false → ∀ loaded, s.cache.published.find? key = some loaded →
      accepts settings loaded.index.identity current = false) :
      Advance env settings key l current s (.flagged forced) (.missed forced) s
  | find {index : Index} (henabled : settings.disabled = false)
      (hread : readStored env key s.world = .ok (some index))
      (haccepts : accepts settings index.identity current = true) :
      Advance env settings key l current s (.missed false) (.kept index)
        { s with cache := s.cache.report (.hit current.path true) }
  | want {forced : Bool} {events : List Event}
      (hnone : settings.disabled = false → forced = false → ∀ index,
        readStored env key s.world = .ok (some index) →
        accepts settings index.identity current = false) :
      Advance env settings key l current s (.missed forced) (.opening forced)
        { s with cache := { s.cache with events } }
  | openIt {forced : Bool} {course : Enumeration} {w : ω}
      (henumerate : env.enumerate l s.world = (.delivered course, w)) :
      Advance env settings key l current s (.opening forced)
        (.reading forced course.deliveries course.failure { identity := current })
        { s with world := w, cache := { s.cache with decodePasses := s.cache.decodePasses + 1 } }
  | interrupted {forced : Bool} {w : ω} (henumerate : env.enumerate l s.world = (.interrupted, w)) :
      Advance env settings key l current s (.opening forced) (.failed forced (.cancelled l.logicalPath))
        { s with world := w, cache := { s.cache with decodePasses := s.cache.decodePasses + 1 } }
  | take {forced : Bool} {d : Delivery} {rest : List Delivery} {failure : Option String}
      {index : Index} {scan : Scan} (hscan : scan = Scan.run [d] { index, cancelled := s.cancelled })
      (hgoes : scan.stopped = false) :
      Advance env settings key l current s (.reading forced (d :: rest) failure index)
        (.reading forced rest failure scan.index)
        { s with
          cancelled := scan.cancelled
          cache := { s.cache with
            decodeCalls := s.cache.decodeCalls + scan.decoded
            events := s.cache.events ++ scan.events } }
  | refuse {forced : Bool} {d : Delivery} {rest : List Delivery} {failure : Option String}
      {index : Index} {scan : Scan} (hscan : scan = Scan.run [d] { index, cancelled := s.cancelled })
      (hstops : scan.stopped = true) :
      Advance env settings key l current s (.reading forced (d :: rest) failure index)
        (.failed forced (.cancelled current.path))
        { s with
          cancelled := scan.cancelled
          cache := { s.cache with
            decodeCalls := s.cache.decodeCalls + scan.decoded
            events := s.cache.events ++ scan.events } }
  | close {forced : Bool} {index : Index} {events : List Event} (hrunning : s.cancelled = false) :
      Advance env settings key l current s (.reading forced [] none index) (.built index)
        { s with cache := { s.cache with events } }
  | closeCancelled {forced : Bool} {index : Index} (hcancelled : s.cancelled = true) :
      Advance env settings key l current s (.reading forced [] none index)
        (.failed forced (.cancelled current.path)) s
  | breakOff {forced : Bool} {index : Index} {reason : String} :
      Advance env settings key l current s (.reading forced [] (some reason) index)
        (.failed forced (.containerUnreadable l.logicalPath reason)) s
  | giveUp {forced : Bool} {e : ScanError} :
      Advance env settings key l current s (.failed forced e) (.ended (.error e))
        { s with cache := if forced then s.cache.force key else s.cache }
  | keep {index : Index} (hdisabled : settings.disabled = true) :
      Advance env settings key l current s (.built index) (.kept index) s
  | store {index : Index} {events : List Event} (henabled : settings.disabled = false) :
      Advance env settings key l current s (.built index) (.kept index)
        { s with
          world := (env.store.put key (Blob.encode index) s.world).2
          cache := { s.cache with events } }
  | publish {index : Index} :
      Advance env settings key l current s (.kept index) (.ended (.ok (s.cache.publish key index).1))
        { s with cache := (s.cache.publish key index).2 }

/-- The filling goes on with `f` somehow. -/
def Advances (env : Environment ω) (settings : CacheSettings) (key : String) (l : Location)
    (current : Identity) (s : Session ω) (f : Filling) (r : Except ScanError Filling)
    (s' : Session ω) : Prop :=
  ∃ f', r = .ok f' ∧ Advance env settings key l current s f f' s'

theorem step_flagged (forced : Bool) :
    wp (step env settings key l current (.flagged forced))
      (Advances env settings key l current s (.flagged forced)) s := by
  simp only [step, recollect, wp_bind, wp_remembered, andThen_ok]
  cases forced with
  | true => exact ⟨_, rfl, .miss fun hfalse => absurd hfalse.symm Bool.false_ne_true⟩
  | false =>
    rw [if_neg Bool.false_ne_true]
    cases hfound : (s.cache.published.find? key).filter fun loaded =>
        accepts settings loaded.index.identity current with
    | none =>
      refine ⟨_, rfl, .miss fun _ loaded hloaded => ?_⟩
      simpa [hloaded] using hfound
    | some loaded =>
      obtain ⟨hloaded, haccepts⟩ := Option.filter_eq_some_iff.1 hfound
      exact ⟨_, rfl, .hit hloaded haccepts⟩

theorem step_missed (forced : Bool) :
    wp (step env settings key l current (.missed forced))
      (Advances env settings key l current s (.missed forced)) s := by
  simp only [step, fromStore]
  split
  next hdisabled => exact ⟨_, rfl, .want fun henabled => by simp [hdisabled] at henabled⟩
  next hdisabled =>
    split
    next hforced => exact ⟨_, rfl, .want fun _ hfalse => by simp [hforced] at hfalse⟩
    next hforced =>
      obtain rfl : forced = false := by simpa using hforced
      simp only [wp_bind, wp_get, andThen_ok]
      split
      next hread => exact ⟨_, rfl, .want fun _ _ index hindex => by simp [hread] at hindex⟩
      next index hread =>
        split
        next haccepts => exact ⟨_, rfl, .find (by simpa using hdisabled) hread haccepts⟩
        next haccepts =>
          refine ⟨_, rfl, .want fun _ _ i hindex => ?_⟩
          obtain rfl : index = i := by simpa [hread] using hindex
          simpa using haccepts
      next e hread => exact ⟨_, rfl, .want fun _ _ index hindex => by simp [hread] at hindex⟩

theorem step_opening (forced : Bool) :
    wp (step env settings key l current (.opening forced))
      (Advances env settings key l current s (.opening forced)) s := by
  obtain ⟨⟨listing, w⟩, henumerate⟩ : ∃ r, env.enumerate l s.world = r := ⟨_, rfl⟩
  simp only [step, openContainer, enumerate, wp_tryCatch, wp_bind, wp_onCache, wp_get, andThen_ok,
    henumerate, wp_set]
  cases listing with
  | delivered course => exact ⟨_, rfl, .openIt henumerate⟩
  | interrupted => exact ⟨_, rfl, .interrupted henumerate⟩

theorem step_reading_cons (forced : Bool) (d : Delivery) (rest : List Delivery) (failure : Option String)
    (index : Index) :
    wp (step env settings key l current (.reading forced (d :: rest) failure index))
      (Advances env settings key l current s (.reading forced (d :: rest) failure index)) s := by
  simp only [step, takeDelivery, wp_tryCatch, wp_bind, wp_get, andThen_ok, wp_set]
  split
  next hstops => exact ⟨_, rfl, .refuse rfl hstops⟩
  next hgoes => exact ⟨_, rfl, .take rfl (by simpa using hgoes)⟩

theorem step_reading_nil (forced : Bool) (failure : Option String) (index : Index) :
    wp (step env settings key l current (.reading forced [] failure index))
      (Advances env settings key l current s (.reading forced [] failure index)) s := by
  simp only [step, closeContainer, wp_tryCatch, wp_bind]
  cases failure with
  | some reason => exact ⟨_, rfl, .breakOff⟩
  | none =>
    rw [wp_bind, wp_isCancelled, andThen_ok]
    split
    next hcancelled => exact ⟨_, rfl, .closeCancelled hcancelled⟩
    next hrunning =>
      have hrunning : s.cancelled = false := by simpa using hrunning
      cases index.incomplete with
      | true => exact ⟨_, rfl, .close hrunning⟩
      | false => exact ⟨_, rfl, .close hrunning⟩

theorem step_built (index : Index) :
    wp (step env settings key l current (.built index))
      (Advances env settings key l current s (.built index)) s := by
  simp only [step]
  split
  next hdisabled => exact ⟨_, rfl, .keep hdisabled⟩
  next hdisabled =>
    have henabled : settings.disabled = false := by simpa using hdisabled
    simp only [persist, wp_bind, wp_get, andThen_ok, wp_set]
    split <;> exact ⟨_, rfl, .store henabled⟩

/-- A filling that is not over goes on. -/
theorem step_advances {f : Filling} (hf : ∀ r, f ≠ .ended r) :
    wp (f.step env settings key l current) (Advances env settings key l current s f) s := by
  cases f with
  | begun => exact ⟨_, rfl, .takeForce⟩
  | flagged forced => exact step_flagged forced
  | missed forced => exact step_missed forced
  | opening forced => exact step_opening forced
  | reading forced rest failure index =>
    cases rest with
    | cons d rest => exact step_reading_cons forced d rest failure index
    | nil => exact step_reading_nil forced failure index
  | failed forced e => cases forced <;> exact ⟨_, rfl, .giveUp⟩
  | built index => exact step_built index
  | kept index => exact ⟨_, rfl, .publish⟩
  | ended r => exact absurd rfl (hf r)

theorem exists_advance {f : Filling} (hf : ∀ r, f ≠ .ended r) : ∃ f' σ,
    (f.step env settings key l current).run.run s = (.ok f', σ) ∧
      Advance env settings key l current s f f' σ := by
  have hadvances : wp _ (Advances env settings key l current s f) s := step_advances hf
  obtain ⟨⟨r, σ⟩, hrun⟩ : ∃ r, (f.step env settings key l current).run.run s = r := ⟨_, rfl⟩
  obtain ⟨f', rfl, hadvance⟩ := wp_of_run hadvances hrun
  exact ⟨f', σ, hrun, hadvance⟩

end Filling

namespace Crowd

open Loading

variable {ι ω α : Type} [DecidableEq ι] {env : Environment ω} {settings : CacheSettings}
  {s s' : Crowd ι ω} {i : ι}

/-- What all share, once a caller has left the session `σ`. -/
def after (s : Crowd ι ω) (i : ι) (σ : Session ω) : Crowd ι ω :=
  { s with
    cache := σ.cache
    world := σ.world
    cancelled := fun k => if k = s.token i then σ.cancelled else s.cancelled k }

omit [DecidableEq ι] in
/-- A session that differs in the cache only. -/
theorem after_cache (s : Crowd ι ω) (i : ι) (c : Cache) :
    s.after i { s.session i with cache := c } = { s with cache := c } := by
  have hcancelled : (fun k => if k = s.token i then s.cancelled (s.token i) else s.cancelled k) =
      s.cancelled := funext fun k => by
    split
    next hk => rw [hk]
    next => rfl
  exact congrArg (fun f => { s with cache := c, cancelled := f }) hcancelled

omit [DecidableEq ι] in
theorem after_session (s : Crowd ι ω) (i : ι) : s.after i (s.session i) = s :=
  after_cache s i s.cache

/-- What a caller can do next: what becomes of its call, and of what all share. -/
inductive Move (env : Environment ω) (settings : CacheSettings) (i : ι) (s : Crowd ι ω) :
    Caller → Caller → Crowd ι ω → Prop
  | refuse {l : Location} {e : ScanError} {σ : Session ω}
      (hrun : (resolve env settings l).run.run (s.session i) = (.error e, σ))
      (hcache : σ.cache = s.cache) :
      Move env settings i s (.load l .ready) (.load l (.refused e)) (s.after i σ)
  | resolve {l : Location} {current : Identity} {σ : Session ω}
      (hrun : (resolve env settings l).run.run (s.session i) = (.ok current, σ))
      (hcache : σ.cache = s.cache) :
      Move env settings i s (.load l .ready) (.load l (.resolved current)) (s.after i σ)
  | pass {l : Location} {current : Identity} (hforced : s.cache.forced.contains l.cacheKey = true) :
      Move env settings i s (.load l (.resolved current)) (.load l (.seeking current)) s
  | look {l : Location} {current : Identity} (hforced : s.cache.forced.contains l.cacheKey = false) :
      Move env settings i s (.load l (.resolved current)) (.load l (.recalling current)) s
  | recollect {l : Location} {current : Identity} {loaded : Loaded}
      (hfound : s.cache.published.find? l.cacheKey = some loaded)
      (haccepts : accepts settings loaded.index.identity current = true) :
      Move env settings i s (.load l (.recalling current)) (.load l (.returned current (.ok loaded)))
        { s with cache := s.cache.report (.hit current.path false) }
  | forget {l : Location} {current : Identity} (hnone : ∀ loaded,
        s.cache.published.find? l.cacheKey = some loaded →
        accepts settings loaded.index.identity current = false) :
      Move env settings i s (.load l (.recalling current)) (.load l (.seeking current)) s
  | join {l : Location} {current : Identity} {n : Nat} (hset : s.cells.find? l.cacheKey = some n) :
      Move env settings i s (.load l (.seeking current)) (.load l (.holding current n)) s
  | setUp {l : Location} {current : Identity} (hunset : s.cells.find? l.cacheKey = none) :
      Move env settings i s (.load l (.seeking current)) (.load l (.holding current s.nextCell))
        { s with cells := s.cells.insert l.cacheKey s.nextCell, nextCell := s.nextCell + 1 }
  | begin {l : Location} {current : Identity} {n : Nat} (hempty : s.contents n = .empty) :
      Move env settings i s (.load l (.holding current n)) (.load l (.filling current n .begun))
        (s.withContents n .taken)
  | collect {l : Location} {current : Identity} {n : Nat} {r : Except ScanError Loaded}
      (hfilled : s.contents n = .filled r) :
      Move env settings i s (.load l (.holding current n)) (.load l (.leaving current n r)) s
  | fill {l : Location} {current : Identity} {n : Nat} {f f' : Filling} {σ : Session ω}
      (hadvance : Filling.Advance env settings l.cacheKey l current (s.session i) f f' σ) :
      Move env settings i s (.load l (.filling current n f)) (.load l (.filling current n f'))
        (s.after i σ)
  | finish {l : Location} {current : Identity} {n : Nat} {r : Except ScanError Loaded} :
      Move env settings i s (.load l (.filling current n (.ended r))) (.load l (.leaving current n r))
        (s.withContents n (.filled r))
  | leave {l : Location} {current : Identity} {n : Nat} {r : Except ScanError Loaded} :
      Move env settings i s (.load l (.leaving current n r)) (.load l (.deciding current r))
        { s with cells :=
            if s.cells.find? l.cacheKey = some n then s.cells.erase l.cacheKey else s.cells }
  | retry {l : Location} {current : Identity} {r : Except ScanError Loaded}
      (hforeign : s.isForeign i r = true) :
      Move env settings i s (.load l (.deciding current r)) (.load l (.seeking current)) s
  | accept {l : Location} {current : Identity} {r : Except ScanError Loaded}
      (hown : s.isForeign i r = false) :
      Move env settings i s (.load l (.deciding current r)) (.load l (.returned current r)) s
  | evict {l : Location} :
      Move env settings i s (.evict l none) (.evict l (some (s.cache.evict l).1))
        { s with cache := (s.cache.evict l).2 }
  | force {l : Location} :
      Move env settings i s (.invalidate l .ready) (.invalidate l .forced)
        { s with cache := s.cache.force l.cacheKey }
  | drop {l : Location} :
      Move env settings i s (.invalidate l .forced) (.invalidate l .dropped)
        { s with cache := (s.cache.evict l).2.report (.invalidated l.logicalPath) }
  | spare {l : Location} (hdisabled : settings.disabled = true) :
      Move env settings i s (.invalidate l .dropped) (.invalidate l (.returned (.ok ()))) s
  | delete {l : Location} {r : Except StoreError Unit} (henabled : settings.disabled = false) :
      Move env settings i s (.invalidate l .dropped) (.invalidate l (.returned r))
        { s with world := (env.store.delete l.cacheKey s.world).2 }

theorem step_load {l : Location} {stage : LoadStage} (hi : s.callers i = .load l stage) :
    s.step env settings i = s.stepLoad env settings i l stage := by
  unfold step
  rw [hi]

theorem stepLoad_filling {l : Location} {current : Identity} {n : Nat} {f : Filling}
    (hf : ∀ r, f ≠ .ended r) : s.stepLoad env settings i l (.filling current n f) = some
      (s.act i (f.step env settings l.cacheKey l current) fun
        | .ok f => .load l (.filling current n f)
        | .error e => .load l (.filling current n (.ended (.error e)))) := by
  cases f with
  | ended r => exact absurd rfl (hf r)
  | reading forced ds failure index => cases ds <;> rfl
  | _ => rfl

omit [DecidableEq ι] in
theorem takeDown_eq (s : Crowd ι ω) (key : String) (n : Nat) :
    s.takeDown key n =
      { s with cells := if s.cells.find? key = some n then s.cells.erase key else s.cells } := by
  unfold takeDown
  split <;> rfl

/-- A caller's step on what all share, when it is known what comes of it. -/
theorem act_eq {p : Loading ω α} {next : Except ScanError α → Caller} {r : Except ScanError α}
    {σ : Session ω} (hrun : p.run.run (s.session i) = (r, σ)) :
    s.act i p next = (s.after i σ).moved i (next r) := by
  unfold act
  rw [hrun]
  rfl

theorem stepLoad_moves {l : Location} {stage : LoadStage}
    (h : s.stepLoad env settings i l stage = some s') :
    ∃ c t, Move env settings i s (.load l stage) c t ∧ s' = t.moved i c := by
  cases stage with
  | ready =>
    obtain rfl := Option.some.inj h
    have hcache : wp (resolve env settings l) (fun _ σ => σ.cache = s.cache) (s.session i) :=
      wp_resolve_cache l
    obtain ⟨⟨r, σ⟩, hrun⟩ : ∃ r, (resolve env settings l).run.run (s.session i) = r := ⟨_, rfl⟩
    replace hcache := wp_of_run hcache hrun
    rw [act_eq hrun]
    cases r with
    | error e => exact ⟨_, _, .refuse hrun hcache, rfl⟩
    | ok current => exact ⟨_, _, .resolve hrun hcache, rfl⟩
  | refused e => exact absurd h.symm (Option.some_ne_none _)
  | resolved current =>
    obtain rfl := Option.some.inj h
    split
    next hforced => exact ⟨_, _, .pass hforced, rfl⟩
    next hforced => exact ⟨_, _, .look (by simpa using hforced), rfl⟩
  | recalling current =>
    obtain rfl := Option.some.inj h
    cases hfound : (s.cache.published.find? l.cacheKey).filter fun loaded =>
        accepts settings loaded.index.identity current with
    | none =>
      have hrun : wp (Loading.recollect settings l.cacheKey false current)
          (fun r σ => r = .ok none ∧ σ = s.session i) (s.session i) := by
        simp only [Loading.recollect, wp_bind, wp_remembered, andThen_ok, if_neg Bool.false_ne_true]
        rw [show (s.session i).cache = s.cache from rfl, hfound]
        exact ⟨rfl, rfl⟩
      have hrun : (Loading.recollect settings l.cacheKey false current).run.run (s.session i) =
        (.ok none, s.session i) := Prod.ext hrun.1 hrun.2
      rw [act_eq hrun, after_session]
      refine ⟨_, _, .forget fun loaded hloaded => ?_, rfl⟩
      simpa [hloaded] using hfound
    | some loaded =>
      have hrun : wp (Loading.recollect settings l.cacheKey false current)
          (fun r σ => r = .ok (some loaded) ∧
            σ = { s.session i with cache := s.cache.report (.hit current.path false) })
          (s.session i) := by
        simp only [Loading.recollect, wp_bind, wp_remembered, andThen_ok, if_neg Bool.false_ne_true]
        rw [show (s.session i).cache = s.cache from rfl, hfound]
        exact ⟨rfl, rfl⟩
      obtain ⟨hloaded, haccepts⟩ := Option.filter_eq_some_iff.1 hfound
      rw [act_eq (Prod.ext hrun.1 hrun.2), after_cache]
      exact ⟨_, _, .recollect hloaded haccepts, rfl⟩
  | seeking current =>
    obtain rfl := Option.some.inj h
    unfold seek
    split
    next hset => exact ⟨_, _, .join hset, rfl⟩
    next hunset => exact ⟨_, _, .setUp hunset, rfl⟩
  | holding current n =>
    simp only [stepLoad] at h
    split at h
    next hempty =>
      obtain rfl := Option.some.inj h
      exact ⟨_, _, .begin hempty, rfl⟩
    next => exact absurd h.symm (Option.some_ne_none _)
    next hfilled =>
      obtain rfl := Option.some.inj h
      exact ⟨_, _, .collect hfilled, rfl⟩
  | filling current n f =>
    by_cases hf : ∃ r, f = .ended r
    · obtain ⟨r, rfl⟩ := hf
      obtain rfl := Option.some.inj h
      exact ⟨_, _, .finish, rfl⟩
    · have hf := not_exists.1 hf
      rw [stepLoad_filling hf] at h
      obtain rfl := Option.some.inj h
      obtain ⟨f', σ, hrun, hadvance⟩ := Filling.exists_advance hf
      exact ⟨_, _, .fill hadvance, act_eq hrun⟩
  | leaving current n r =>
    obtain rfl := Option.some.inj h
    exact ⟨_, _, .leave, by rw [takeDown_eq]⟩
  | deciding current r =>
    obtain rfl := Option.some.inj h
    split
    next hforeign => exact ⟨_, _, .retry hforeign, rfl⟩
    next hown => exact ⟨_, _, .accept (by simpa using hown), rfl⟩
  | returned current r => exact absurd h.symm (Option.some_ne_none _)

theorem stepInvalidation_moves {l : Location} {stage : InvalidationStage}
    (h : s.stepInvalidation env settings i l stage = some s') :
    ∃ c t, Move env settings i s (.invalidate l stage) c t ∧ s' = t.moved i c := by
  cases stage with
  | ready =>
    obtain rfl := Option.some.inj h
    exact ⟨_, _, .force, rfl⟩
  | forced =>
    obtain rfl := Option.some.inj h
    exact ⟨_, _, .drop, rfl⟩
  | dropped =>
    simp only [stepInvalidation] at h
    split at h
    next hdisabled =>
      obtain rfl := Option.some.inj h
      exact ⟨_, _, .spare hdisabled, rfl⟩
    next henabled =>
      obtain rfl := Option.some.inj h
      exact ⟨_, _, .delete (by simpa using henabled), rfl⟩
  | returned r => nomatch h

/-- Every step of a caller is one of these. -/
theorem step_moves (h : s.step env settings i = some s') :
    ∃ c t, Move env settings i s (s.callers i) c t ∧ s' = t.moved i c := by
  unfold step at h
  split at h
  next hi => rw [hi]; exact stepLoad_moves h
  next hi =>
    obtain rfl := Option.some.inj h
    rw [hi]
    exact ⟨_, _, .evict, rfl⟩
  next => nomatch h
  next hi => rw [hi]; exact stepInvalidation_moves h

end Crowd

end ClassCatalog
