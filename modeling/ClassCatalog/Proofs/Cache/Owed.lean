import ClassCatalog.Proofs.Cache.Reloading
import ClassCatalog.Proofs.Cache.Untouched

/-!
# A container that has to be made anew

That a container has to be made anew is forgotten while a load makes it and noted again if the load fails
(`Loading.Redeems`), so it stays noted through everything but a load that succeeds (`Cache.Unserved.owes`). That load
reads the container, whatever index there is in memory or in the store, and leaves an index in memory that the next
load finds (`invalidated_is_read_once`).

Only the note counts here: what the store did with the stored index when the container was invalidated is left open,
and so is the world in which each load begins.
-/

namespace ClassCatalog

variable {ω : Type} {env : Environment ω} {settings : CacheSettings} {key : String} {l : Location}
  {current : Identity}

/-! ### Until a load succeeds -/

namespace Cache

/-- What becomes of a cache and its world while no load of the container with a key succeeds. Other containers are
loaded, all are evicted and invalidated, and the world changes, at will. -/
inductive Unserved (env : Environment ω) (settings : CacheSettings) (key : String) (c₀ : Cache) (w₀ : ω) :
    Cache → ω → Prop
  | start : Unserved env settings key c₀ w₀ c₀ w₀
  | change {c : Cache} {w : ω} (h : Unserved env settings key c₀ w₀ c w) (w' : ω) :
      Unserved env settings key c₀ w₀ c w'
  | load {c : Cache} {w : ω} (h : Unserved env settings key c₀ w₀ c w) {l : Location} {cancelled : Bool}
      {r : Except ScanError Loaded} {s : Session ω}
      (hload : (Loading.load env settings l).run.run ⟨c, w, cancelled⟩ = (r, s))
      (hfails : l.cacheKey = key → ∀ loaded, r ≠ .ok loaded) : Unserved env settings key c₀ w₀ s.cache s.world
  | evict {c : Cache} {w : ω} (h : Unserved env settings key c₀ w₀ c w) (l : Location) :
      Unserved env settings key c₀ w₀ (c.evict l).2 w
  | invalidate {c : Cache} {w : ω} (h : Unserved env settings key c₀ w₀ c w) (l : Location) :
      Unserved env settings key c₀ w₀ (c.invalidate env.store settings l w).2.1
        (c.invalidate env.store settings l w).2.2

variable {c₀ c : Cache} {w₀ w : ω}

theorem contains_invalidate (h : l.cacheKey = key ∨ c.forced.contains key = true) :
    (c.invalidate env.store settings l w).2.1.forced.contains key = true := by
  rw [invalidate_cache]
  change (c.force l.cacheKey).forced.contains key = true
  rcases h with rfl | h
  · exact contains_force_self
  · exact contains_force h _

/-- A load either succeeds or leaves noted that a container has to be made anew, and a load of another container always
leaves it noted. -/
theorem contains_load {s s' : Session ω} {r : Except ScanError Loaded}
    (hload : (Loading.load env settings l).run.run s = (r, s'))
    (hfails : l.cacheKey = key → ∀ loaded, r ≠ .ok loaded) (h : s.cache.forced.contains key = true) :
    s'.cache.forced.contains key = true := by
  by_cases hkey : l.cacheKey = key
  · have huntouched : wp (Loading.load env settings l)
        (fun r s' => ∀ e, r = .error e → s.Untouched (fun _ => ()) s') s :=
      Loading.wp_load_untouched (fun _ _ => rfl) l
    cases r with
    | ok loaded => exact absurd rfl (hfails hkey loaded)
    | error e => rw [(wp_of_run huntouched hload e rfl).indexes.forced, h]
  · exact (Loading.alike_of_load hload (Ne.symm hkey)).forced.trans h

theorem Unserved.owes (hrun : Unserved env settings key c₀ w₀ c w) (h : c₀.forced.contains key = true) :
    c.forced.contains key = true := by
  induction hrun with
  | start => exact h
  | change _ _ ih => exact ih
  | load _ hload hfails ih => exact contains_load hload hfails ih
  | evict _ l ih => exact ih
  | invalidate _ l ih => exact contains_invalidate (.inr ih)

end Cache

/-! ### The load that succeeds -/

/-- A session that went on to read containers, and has made no index yet. -/
structure Session.Proceeds (env : Environment ω) (s₀ s : Session ω) : Prop where
  passes : s₀.cache.decodePasses ≤ s.cache.decodePasses
  serial : s.cache.nextSerial = s₀.cache.nextSerial
  reads : env.Reads s₀.world s.world

namespace Loading

variable {s₀ s : Session ω}

/-- How a load of a container that has to be made anew ends: it fails, and the container still has to be, or it has
read the container and made a new index. -/
inductive Redeems (env : Environment ω) (key : String) (l : Location) (s₀ : Session ω) :
    Except ScanError Loaded → Session ω → Prop
  | failed {e : ScanError} {s : Session ω} (hproceeds : s₀.Proceeds env s)
      (howed : s.cache.forced.contains key = true) : Redeems env key l s₀ (.error e) s
  | renewed {loaded : Loaded} {s : Session ω} (hpasses : s₀.cache.decodePasses < s.cache.decodePasses)
      (hserial : loaded.serial = s₀.cache.nextSerial) (hscanned : env.Scanned l s₀.world loaded.index) :
      Redeems env key l s₀ (.ok loaded) s

theorem proceeds_tolerates : ToleratesWork env fun s s' : Session ω =>
    s'.cache.nextSerial = s.cache.nextSerial ∧ env.Reads s.world s'.world where
  refl _ := ⟨rfl, .refl⟩
  trans h h' := ⟨h'.1.trans h.1, h.2.trans h'.2⟩
  enumerate l _ := ⟨rfl, Environment.Reads.refl.enumerate l⟩
  cancel _ _ := ⟨rfl, .refl⟩
  work _ _ _ _ _ := ⟨rfl, .refl⟩

theorem wp_renew_owed (hproceeds : s₀.Proceeds env s) :
    wp (renew env settings key l current true) (Redeems env key l s₀) s := by
  unfold renew
  rw [wp_bind, wp_tryCatch]
  refine wp_mono (wp_and (proceeds_tolerates.keeps_rebuild l current s)
    (wp_and (wp_rebuild_passes l current) (wp_rebuild_scanned l current))) ?_
  rintro r s' ⟨⟨hserial, hreads⟩, hpasses, hscanned⟩
  have hmore : s₀.cache.decodePasses < s'.cache.decodePasses := by
    have hle := hproceeds.passes
    omega
  have hserial' : s'.cache.nextSerial = s₀.cache.nextSerial := hserial.trans hproceeds.serial
  cases r with
  | error e =>
    exact .failed ⟨Nat.le_of_lt hmore, hserial', hproceeds.reads.trans hreads⟩ Cache.contains_force_self
  | ok index =>
    obtain ⟨course, hdelivered, hcomplete, hindex⟩ := hscanned index rfl
    have hscanned : env.Scanned l s₀.world index := by
      refine ⟨s.world, course, hproceeds.reads, hdelivered, hcomplete, ?_⟩
      rw [hindex, Index.ofEntries_identity]
    rw [orElse_ok, andThen_ok]
    cases settings.disabled with
    | true => exact .renewed hmore hserial' hscanned
    | false =>
      refine (wp_bind ..).2 (wp_mono (wp_persist_quiet key index) ?_)
      rintro r s'' ⟨rfl, events, -, rfl⟩
      exact .renewed hmore hserial' hscanned

/-- What is stored is not even looked at. -/
theorem wp_fetch_owed (hproceeds : s₀.Proceeds env s) :
    wp (fetch env settings key l current true) (Redeems env key l s₀) s := by
  have hnothing : wp (fromStore env settings key true current)
      (fun r s' => (∃ reason, r = .ok (.error reason)) ∧ s' = s) s := by
    unfold fromStore
    cases settings.disabled with
    | true => exact ⟨⟨.disabled, rfl⟩, rfl⟩
    | false => exact ⟨⟨.forced, rfl⟩, rfl⟩
  unfold fetch
  refine (wp_bind ..).2 (wp_mono hnothing ?_)
  rintro r s' ⟨⟨reason, rfl⟩, rfl⟩
  simp only [andThen_ok, wp_bind, wp_report]
  exact wp_renew_owed ⟨hproceeds.passes, hproceeds.serial, hproceeds.reads⟩

theorem wp_attempt_owed (hproceeds : s₀.Proceeds env s) (howed : s.cache.forced.contains key = true) :
    wp (attempt env settings key l current) (Redeems env key l s₀) s := by
  unfold attempt
  simp only [wp_bind, wp_get, andThen_ok, wp_onCache, wp_remembered, howed, if_true]
  exact wp_fetch_owed ⟨hproceeds.passes, hproceeds.serial, hproceeds.reads⟩

theorem wp_attempts_owed (pending : Nat) (hproceeds : s₀.Proceeds env s)
    (howed : s.cache.forced.contains key = true) :
    wp (attempts env settings key l current pending) (Redeems env key l s₀) s := by
  induction pending generalizing s with
  | zero => exact wp_attempt_owed hproceeds howed
  | succ pending ih =>
    refine (wp_tryCatch ..).2 (wp_mono (wp_attempt_owed hproceeds howed) fun r s' hredeems => ?_)
    cases hredeems with
    | renewed hpasses hserial hscanned => exact .renewed hpasses hserial hscanned
    | failed hproceeds' howed' =>
      rw [orElse_error, wp_bind, wp_isCancelled, andThen_ok]
      split
      · exact ih hproceeds' howed'
      · exact .failed hproceeds' howed'

theorem wp_load_owed (howed : s.cache.forced.contains l.cacheKey = true) :
    wp (load env settings l) (Redeems env l.cacheKey l s) s := by
  unfold load
  refine (wp_bind ..).2 (wp_mono (wp_resolve_looks l) ?_)
  rintro r s' ⟨-, hlooks⟩
  have hproceeds : s.Proceeds env s' := by
    refine ⟨?_, ?_, hlooks.reads⟩
    · rw [hlooks.cache]
    · rw [hlooks.cache]
  have howed' : s'.cache.forced.contains l.cacheKey = true := by rw [hlooks.cache, howed]
  cases r with
  | error e => exact .failed hproceeds howed'
  | ok current =>
    simp only [andThen_ok, wp_bind, wp_get, wp_remembered, howed', if_true]
    exact wp_attempts_owed _ hproceeds howed'

theorem identityOf_of_load {loaded : Loaded} (hload : (load env settings l).run.run s = (.ok loaded, s₀)) :
    ∃ current, identityOf env settings l s.world = .ok current := by
  cases hcurrent : identityOf env settings l s.world with
  | ok current => exact ⟨current, rfl⟩
  | error e =>
    have hfails : wp (load env settings l) (fun r _ => r = .error e) s := by
      unfold load
      refine (wp_bind ..).2 (wp_mono (wp_resolve_looks l) ?_)
      rintro r s' ⟨rfl, -⟩
      rw [hcurrent]
      rfl
    nomatch wp_of_run hfails hload

/-- After an invalidation the first load of the container that succeeds reads the container and returns an index made
of what it delivers. The next load, however long other containers were at work and the world changed, finds that index
in memory if the identity of the container is the same. -/
theorem invalidated_is_read_once (c : Cache) (w : ω) {c₁ : Cache} {w₁ : ω}
    (hrun : Cache.Unserved env settings l.cacheKey (c.invalidate env.store settings l w).2.1
      (c.invalidate env.store settings l w).2.2 c₁ w₁)
    {cancelled : Bool} {loaded : Loaded} {s : Session ω}
    (hload : (load env settings l).run.run ⟨c₁, w₁, cancelled⟩ = (.ok loaded, s)) :
    c₁.decodePasses < s.cache.decodePasses ∧ loaded.serial = c₁.nextSerial ∧ env.Scanned l w₁ loaded.index ∧
      ∃ current, identityOf env settings l w₁ = .ok current ∧
        ∀ c₂ w₂, Cache.Aside env settings l.cacheKey s.cache s.world c₂ w₂ →
          identityOf env settings l w₂ = .ok current →
          ∀ cancelled', Free env settings l current loaded ⟨c₂, w₂, cancelled'⟩ := by
  have howed : c₁.forced.contains l.cacheKey = true := hrun.owes (Cache.contains_invalidate (.inl rfl))
  have hredeems := wp_of_run (wp_load_owed (s := ⟨c₁, w₁, cancelled⟩) howed) hload
  obtain ⟨current, hcurrent⟩ := identityOf_of_load hload
  have hholds := wp_of_run (wp_load_holds hcurrent) hload loaded rfl
  cases hredeems with
  | renewed hpasses hserial hscanned =>
    refine ⟨hpasses, hserial, hscanned, current, hcurrent, fun c₂ w₂ haside hsame cancelled' => ?_⟩
    exact free_of_has (s := ⟨c₂, w₂, cancelled'⟩) (haside.has hholds) hsame

/-- The store refuses to delete the index that it has of the archive. The load after the invalidation is cancelled, and
another archive is loaded before the next. -/
theorem invalidated_is_read_once_of_two_archives :
    let env := { ScriptedWorld.environment with store := ScriptedWorld.environment.store.readOnly }
    let a := Location.archive "a.jar"
    let w := twoArchives 1 1 staleStore
    let c := ((load env {} a).run.run ⟨{}, w, false⟩).2.cache
    let asked := c.invalidate env.store {} a w
    let failing := (load env {} a).run.run ⟨asked.2.1, asked.2.2, true⟩
    let other := (load env {} (.archive "b.jar")).run.run ⟨failing.2.cache, failing.2.world, false⟩
    let r := (load env {} a).run.run ⟨other.2.cache, w, false⟩
    c.decodePasses = 0 ∧ failing.1.isOk = false ∧ other.1.isOk = true ∧
      (readStored env a.cacheKey w).toOption.map (Option.map Index.identity) = some (some ⟨"a.jar", 9, 1, none⟩) ∧
      ∃ loaded current, r = (.ok loaded, r.2) ∧ other.2.cache.decodePasses < r.2.cache.decodePasses ∧
        identityOf env {} a w = .ok current ∧ Free env {} a current loaded ⟨r.2.cache, w, false⟩ := by
  intro env a w c asked failing other r
  have hne : (Location.archive "b.jar").cacheKey ≠ a.cacheKey := by decide +kernel
  have hfailing : failing.1.isOk = false := by decide +kernel
  obtain ⟨loaded, hload⟩ : ∃ loaded, r = (.ok loaded, r.2) := eq_ok_of_isOk (x := r) (by decide +kernel)
  have hfails : ∀ loaded, failing.1 ≠ .ok loaded := by
    intro loaded hok
    rw [hok] at hfailing
    cases hfailing
  have hfailing' : Cache.Unserved env {} a.cacheKey asked.2.1 asked.2.2 failing.2.cache failing.2.world :=
    Cache.Unserved.start.load (Prod.eta failing).symm fun _ => hfails
  have hrun := (hfailing'.load (Prod.eta other).symm fun heq => absurd heq hne).change w
  obtain ⟨hpasses, -, -, current, hcurrent, hagain⟩ := invalidated_is_read_once c w hrun hload
  refine ⟨by decide +kernel, hfailing, by decide +kernel, by decide +kernel, loaded, current, hload, hpasses,
    hcurrent, ?_⟩
  exact hagain _ w (.change .start w) hcurrent false

end Loading

end ClassCatalog
