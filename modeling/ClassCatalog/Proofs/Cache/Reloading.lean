import ClassCatalog.ClassFile.Blueprint
import ClassCatalog.Container.Scripted
import ClassCatalog.Proofs.Cache.Purged
import ClassCatalog.Proofs.Cache.Slot

/-!
# Loading a container again

A load that succeeds leaves its index in memory, to be accepted for the identity that the container had
(`Cache.Has`). Nothing that others do to containers with other keys takes that away (`Cache.Aside`), so the
next load returns that index and does not ask the store (`Loading.Free`). If the container then has an
identity for which neither memory nor the store has an index, the load reads it in one pass
(`Loading.ReadsOnce`) and leaves alone what there is under all other keys (`Session.Alike`).
-/

namespace ClassCatalog

variable {ω σ : Type} {env : Environment ω} {settings : CacheSettings} {key : String} {l : Location}
  {current : Identity}

/-- What is under one key of the store changes neither when another is written nor when a container is
read. -/
structure Environment.Apart (env : Environment ω) : Prop where
  put {key k : String} (bytes : Bytes) (w : ω) (hne : k ≠ key) :
    env.store.get k (env.store.put key bytes w).2 = env.store.get k w
  enumerate (l : Location) (w : ω) (k : String) : env.store.get k (env.enumerate l w).2 = env.store.get k w

namespace Environment.Apart

theorem of_cells {κ : Type} (cells : env.store.Cells κ)
    (henumerate : ∀ l w k, cells.cell (env.enumerate l w).2 k = cells.cell w k) : env.Apart where
  put bytes w hne := by rw [cells.get, cells.get, cells.put_other bytes w hne]
  enumerate l w k := by rw [cells.get, cells.get, henumerate]

theorem get_of_reads (h : env.Apart) {w w' : ω} (hreads : env.Reads w w') (k : String) :
    env.store.get k w' = env.store.get k w := by
  induction hreads with
  | refl => rfl
  | enumerate _ l ih => exact (h.enumerate l _ k).trans ih

end Environment.Apart

theorem ScriptedWorld.apart : environment.Apart :=
  .of_cells (Store.Cells.memory.onPart ScriptedWorld.store (fun m w => { w with store := m }) fun _ _ => rfl)
    fun l w k => by
      show Store.Cells.memory.cell (environment.enumerate l w).2.store k = _
      rw [store_enumerate]
      rfl

/-! ### What a load leaves in memory -/

/-- The cache has an index for a container of some identity, and need not make it anew. -/
structure Cache.Has (settings : CacheSettings) (key : String) (current : Identity) (loaded : Loaded)
    (c : Cache) : Prop where
  published : c.published.find? key = some loaded
  unforced : c.forced.contains key = false
  accepts : Loading.accepts settings loaded.index.identity current = true

namespace Cache.Has

variable {loaded : Loaded} {c c' : Cache}

theorem congr (h : c.Has settings key current loaded)
    (hpublished : c'.published.find? key = c.published.find? key)
    (hforced : c'.forced.contains key = c.forced.contains key) : c'.Has settings key current loaded :=
  ⟨hpublished.trans h.published, hforced.trans h.unforced, h.accepts⟩

theorem publish {index : Index} (hunforced : c.forced.contains key = false)
    (haccepts : Loading.accepts settings index.identity current = true) :
    (c.publish key index).2.Has settings key current (c.publish key index).1 :=
  ⟨NameMap.find?_insert_self .., hunforced, haccepts⟩

end Cache.Has

namespace Loading

variable {s : Session ω}

theorem accepts_self (settings : CacheSettings) (current : Identity) :
    accepts settings current current = true := by
  unfold accepts
  split <;> exact beq_self_eq_true _

/-- Reading containers changes neither the indexes in memory nor which are to be made anew. -/
theorem indexes_tolerates : ToleratesWork env fun s s' => s.cache.SameIndexes s'.cache where
  refl s := .refl s.cache
  trans := .trans
  enumerate _ s := .refl s.cache
  cancel s _ := .refl s.cache
  work _ _ _ _ _ := ⟨rfl, rfl⟩

/-- If the load succeeds, its index is in memory. -/
def Holds (settings : CacheSettings) (key : String) (current : Identity) (r : Except ScanError Loaded)
    (s : Session ω) : Prop :=
  ∀ loaded, r = .ok loaded → s.cache.Has settings key current loaded

theorem Holds.publish {index : Index} (hunforced : s.cache.forced.contains key = false)
    (haccepts : accepts settings index.identity current = true) :
    Holds settings key current (.ok (s.cache.publish key index).1)
      { s with cache := (s.cache.publish key index).2 } := by
  rintro loaded ⟨⟩
  exact .publish hunforced haccepts

theorem wp_renew_holds (hunforced : s.cache.forced.contains key = false) (forced : Bool) :
    wp (renew env settings key l current forced) (Holds settings key current) s := by
  unfold renew
  rw [wp_bind, wp_tryCatch]
  refine wp_mono (wp_and (indexes_tolerates.keeps_rebuild l current s) (wp_rebuild_scanned l current)) ?_
  rintro r s' ⟨hsame, hscanned⟩
  cases r with
  | error e =>
    rw [orElse_error]
    cases forced with
    | true => exact nofun
    | false => exact nofun
  | ok index =>
    obtain ⟨course, -, -, rfl⟩ := hscanned index rfl
    have haccepts : accepts settings (Index.ofEntries current course.entries).identity current = true := by
      rw [Index.ofEntries_identity]
      exact accepts_self settings current
    have hunforced' : s'.cache.forced.contains key = false := by rw [hsame.forced, hunforced]
    rw [orElse_ok, andThen_ok]
    cases settings.disabled with
    | true => exact .publish hunforced' haccepts
    | false =>
      refine (wp_bind ..).2 (wp_mono (wp_persist key _) ?_)
      rintro r s'' ⟨rfl, hsame', -⟩
      exact .publish (by rw [hsame'.forced, hunforced']) haccepts

theorem wp_fetch_holds (hunforced : s.cache.forced.contains key = false) (forced : Bool) :
    wp (fetch env settings key l current forced) (Holds settings key current) s := by
  unfold fetch
  refine (wp_bind ..).2 (wp_mono (wp_fromStore key forced current) ?_)
  rintro r s' ⟨⟨stored, rfl, hstored⟩, hsame, -⟩
  have hunforced' : s'.cache.forced.contains key = false := by rw [hsame.forced, hunforced]
  cases stored with
  | error reason =>
    simp only [andThen_ok, wp_bind, wp_report]
    exact wp_renew_holds (s := { s' with cache := s'.cache.report (.miss current.path reason) }) hunforced'
      forced
  | ok index =>
    obtain ⟨-, -, haccepts, -⟩ := hstored index rfl
    simp only [andThen_ok, wp_bind, wp_report, wp_publish]
    exact Holds.publish (s := { s' with cache := s'.cache.report (.hit current.path true) }) hunforced' haccepts

theorem holds_of_remembered {c : Cache} {forced : Bool} {loaded : Loaded}
    (hunforced : forced = false → c.forced.contains key = false)
    (hfound : (if forced then none else (c.published.find? key).filter fun loaded =>
      accepts settings loaded.index.identity current) = some loaded) :
    c.Has settings key current loaded := by
  cases forced with
  | true => nomatch hfound
  | false =>
    obtain ⟨hfind, haccepts⟩ := Option.filter_eq_some_iff.1 hfound
    exact ⟨hfind, hunforced rfl, haccepts⟩

theorem wp_attempt_holds : wp (attempt env settings key l current) (Holds settings key current) s := by
  have hunforced : (s.cache.unforce key).forced.contains key = false := by
    simp [Cache.unforce, NameMap.contains, NameMap.find?_erase]
  unfold attempt
  simp only [wp_bind, wp_get, andThen_ok, wp_onCache, wp_remembered]
  cases hfound : (if s.cache.forced.contains key = true then none else _ : Option Loaded) with
  | some loaded =>
    rintro loaded ⟨⟩
    exact (holds_of_remembered (fun _ => hunforced) hfound).congr rfl rfl
  | none => exact wp_fetch_holds hunforced _

theorem wp_attempts_holds (n : Nat) :
    wp (attempts env settings key l current n) (Holds settings key current) s := by
  induction n generalizing s with
  | zero => exact wp_attempt_holds
  | succ n ih =>
    rw [attempts, wp_tryCatch]
    refine wp_mono wp_attempt_holds ?_
    intro r s' hholds
    cases r with
    | ok loaded => exact hholds
    | error e =>
      rw [orElse_error, wp_bind, wp_isCancelled, andThen_ok]
      split
      · exact ih
      · intro loaded hok
        cases hok

/-! ### Learning an identity -/

/-- What a step comes to, and in which world, depends on nothing but the world in which it begins. -/
def Detached {α : Type} (p : Loading ω α) : Prop :=
  ∀ s t : Session ω, t.world = s.world →
    (p.run.run t).1 = (p.run.run s).1 ∧ (p.run.run t).2.world = (p.run.run s).2.world

namespace Detached

variable {α β : Type}

theorem pure (a : α) : Detached (pure a : Loading ω α) := fun _ _ hworld => ⟨rfl, hworld⟩

theorem throw (e : ScanError) : Detached (throw e : Loading ω α) := fun _ _ hworld => ⟨rfl, hworld⟩

theorem bind {p : Loading ω α} {f : α → Loading ω β} (hp : Detached p) (hf : ∀ a, Detached (f a)) :
    Detached (p >>= f) := by
  intro s t hworld
  have hsame := hp s t hworld
  rw [run_bind, run_bind]
  generalize p.run.run s = x at hsame ⊢
  generalize p.run.run t = y at hsame ⊢
  obtain ⟨r, s'⟩ := x
  obtain ⟨r', t'⟩ := y
  obtain ⟨rfl, hworld'⟩ := hsame
  cases r' with
  | ok a => exact hf a s' t' hworld'
  | error e => exact ⟨rfl, hworld'⟩

/-- A step that looks at the world only. -/
theorem get_bind {f : Session ω → Loading ω α} (hf : ∀ s, Detached (f s))
    (hworld : ∀ s t : Session ω, t.world = s.world → f t = f s) : Detached (get >>= f) := by
  intro s t hsame
  show ((f t).run.run t).1 = ((f s).run.run s).1 ∧ ((f t).run.run t).2.world = ((f s).run.run s).2.world
  rw [hworld s t hsame]
  exact hf s s t hsame

end Detached

theorem detached_enumerate (l : Location) : Detached (enumerate env l) := by
  intro s t hworld
  show wp (enumerate env l) (fun r t' => wp (enumerate env l) (fun r' s' => r = r' ∧ t'.world = s'.world) s) t
  unfold enumerate
  simp only [wp_bind, wp_get, andThen_ok, wp_set, hworld]
  cases (env.enumerate l s.world).1 <;> exact ⟨rfl, rfl⟩

theorem detached_resolve (l : Location) : Detached (resolve env settings l) := by
  have hentries : Detached (entriesDigest env l) := by
    refine (detached_enumerate l).bind fun course => ?_
    refine Detached.bind (fun s t hworld => ⟨rfl, hworld⟩) fun _ => ?_
    cases course.failure with
    | some reason => exact .throw _
    | none => exact .pure _
  have hdigest : Detached (digest env l) := by
    refine .get_bind (fun s => ?_) fun s t hworld => by rw [hworld]
    cases env.ownDigest l s.world with
    | none => exact hentries
    | some d => cases d with
      | ok d => exact .pure d
      | error reason => exact .throw _
  refine .get_bind (fun s => ?_) fun s t hworld => by rw [hworld]
  cases env.stat l s.world with
  | error reason => exact .throw _
  | ok stat =>
    dsimp only
    cases settings.identityPolicy with
    | timestampSize => exact .pure _
    | contentDigest => exact hdigest.bind fun d => .pure _

end Loading

/-- Sessions of which the later has nothing but enumerated containers. -/
structure Session.Looks (env : Environment ω) (s s' : Session ω) : Prop where
  cache : s'.cache = s.cache
  reads : env.Reads s.world s'.world

namespace Loading

variable {s : Session ω}

theorem looks_tolerates : Tolerates env (Session.Looks env) where
  refl _ := ⟨rfl, .refl⟩
  trans h h' := ⟨h'.cache.trans h.cache, h.reads.trans h'.reads⟩
  enumerate l _ := ⟨rfl, Environment.Reads.refl.enumerate l⟩
  cancel _ _ := ⟨rfl, .refl⟩

theorem wp_resolve_looks (l : Location) :
    wp (resolve env settings l) (fun r s' => r = identityOf env settings l s.world ∧ s.Looks env s') s :=
  ⟨(detached_resolve l ⟨{}, s.world, false⟩ s rfl).1, looks_tolerates.keeps_resolve l s⟩

theorem wp_load_holds (hcurrent : identityOf env settings l s.world = .ok current) :
    wp (load env settings l) (Holds settings l.cacheKey current) s := by
  unfold load
  refine (wp_bind ..).2 (wp_mono (wp_resolve_looks l) ?_)
  rintro r s' ⟨rfl, -⟩
  rw [hcurrent]
  simp only [andThen_ok, wp_bind, wp_get, wp_remembered]
  cases hfound : (if s'.cache.forced.contains l.cacheKey = true then none else _ : Option Loaded) with
  | some loaded =>
    rintro loaded ⟨⟩
    exact (holds_of_remembered id hfound).congr rfl rfl
  | none => exact wp_attempts_holds _

/-! ### A load that finds what it needs in memory -/

/-- A load that returns an index and does nothing but say so: no class is decoded, no container is read
for its classes, and it comes to the same over every store. -/
def Free (env : Environment ω) (settings : CacheSettings) (l : Location) (current : Identity)
    (loaded : Loaded) (s : Session ω) : Prop :=
  ∃ t : Session ω, t.cache = s.cache.report (.hit current.path false) ∧
    ∀ store, (load { env with store } settings l).run.run s = (.ok loaded, t)

theorem free_of_has {loaded : Loaded} (h : s.cache.Has settings l.cacheKey current loaded)
    (hcurrent : identityOf env settings l s.world = .ok current) : Free env settings l current loaded s := by
  let t : Session ω := ((resolve env settings l).run.run s).2
  have hlooks : s.Looks env t := (wp_resolve_looks l).2
  have hresult : ((resolve env settings l).run.run s).1 = .ok current := (wp_resolve_looks l).1.trans hcurrent
  refine ⟨{ t with cache := t.cache.report (.hit current.path false) }, by rw [hlooks.cache], fun store => ?_⟩
  have hresolved : (resolve { env with store } settings l).run.run s = (.ok current, t) :=
    Prod.ext hresult rfl
  have hfound : (t.cache.published.find? l.cacheKey).filter
      (fun loaded => accepts settings loaded.index.identity current) = some loaded := by
    rw [hlooks.cache, h.published]
    simp [Option.filter, h.accepts]
  unfold load
  rw [run_bind, hresolved]
  refine Prod.ext_iff.2 (?_ : wp _ (fun r s' => r = _ ∧ s' = _) t)
  simp only [wp_bind, wp_get, andThen_ok, wp_remembered, hlooks.cache, h.unforced]
  rw [← hlooks.cache, if_neg Bool.false_ne_true, hfound]
  exact ⟨rfl, rfl⟩

/-! ### A load that has to read its container -/

/-- Neither memory nor the store has an index to be accepted for an identity. -/
structure Unknown (env : Environment ω) (settings : CacheSettings) (key : String) (current : Identity)
    (c : Cache) (w : ω) : Prop where
  published {loaded : Loaded} : c.published.find? key = some loaded →
    accepts settings loaded.index.identity current = false
  stored {index : Index} : readStored env key w = .ok (some index) →
    accepts settings index.identity current = false

theorem Unknown.of_looks {s' : Session ω} (h : Unknown env settings key current s.cache s.world)
    (henv : env.Apart) (hlooks : s.Looks env s') : Unknown env settings key current s'.cache s'.world := by
  refine ⟨fun hfound => h.published (hlooks.cache ▸ hfound), fun hread => h.stored ?_⟩
  rw [← hread]
  unfold readStored
  rw [henv.get_of_reads hlooks.reads]

theorem wp_fromStore_unknown (h : Unknown env settings key current s.cache s.world) (forced : Bool) :
    wp (fromStore env settings key forced current) (fun r s' => ∃ reason events, r = .ok (.error reason) ∧
      s' = { s with cache := { s.cache with events := s.cache.events ++ events } }) s := by
  have hnothing : s = { s with cache := { s.cache with events := s.cache.events ++ [] } } := by
    rw [List.append_nil]
  unfold fromStore
  split
  · exact ⟨.disabled, [], rfl, hnothing⟩
  · split
    · exact ⟨.forced, [], rfl, hnothing⟩
    · simp only [wp_bind, wp_get, andThen_ok]
      split
      next => exact ⟨.absent, [], rfl, hnothing⟩
      next index hread =>
        rw [h.stored hread]
        exact ⟨.stale, [], rfl, hnothing⟩
      next e hread => exact ⟨.corrupt, [_], rfl, rfl⟩

/-- Where only the caller's own request to cancel can end a reading, nothing is tried again. -/
theorem wp_attempts_of_own {Q : Except ScanError Loaded → Session ω → Prop}
    (h : wp (attempt env settings key l current)
      (fun r s' => (∀ path, r = .error (.cancelled path) → s'.cancelled = true) ∧ Q r s') s) (n : Nat) :
    wp (attempts env settings key l current n) Q s := by
  cases n with
  | zero => exact wp_mono h fun _ _ hboth => hboth.2
  | succ n =>
    rw [attempts, wp_tryCatch]
    refine wp_mono h ?_
    rintro r s' ⟨hown, hr⟩
    cases r with
    | ok loaded => exact hr
    | error e =>
      rw [orElse_error, wp_bind, wp_isCancelled, andThen_ok]
      split
      next path hmine => cases (hown _ rfl).symm.trans hmine
      next => exact hr

section

variable {course : Enumeration}

theorem Pass.congr {t s' t' : Session ω} {r : Except ScanError Index} (h : Pass course current s r s')
    (hcalls : t.cache.decodeCalls = s.cache.decodeCalls) (hpasses : t.cache.decodePasses = s.cache.decodePasses)
    (hcalls' : t'.cache.decodeCalls = s'.cache.decodeCalls)
    (hpasses' : t'.cache.decodePasses = s'.cache.decodePasses) (hcancelled : t'.cancelled = s'.cancelled) :
    Pass course current t r t' := by
  refine ⟨?_, ?_, fun hok => ?_, fun hown => hcancelled.trans (h.own hown)⟩
  · rw [hpasses', hpasses, h.passes]
  · rw [hcalls', hcalls]
    exact h.calls
  · rw [hcalls', hcalls]
    exact h.whole hok

variable (hdelivered : (env.enumerate l s.world).1 = .delivered course)
include hdelivered

theorem wp_renew_pass (forced : Bool) :
    wp (renew env settings key l current forced)
      (fun r s' => Pass course current s (r.map Loaded.index) s') s := by
  unfold renew
  rw [wp_bind, wp_tryCatch]
  refine wp_mono (wp_rebuild_pass hdelivered) fun r s' hpass => ?_
  cases r with
  | error e =>
    rw [orElse_error]
    cases forced with
    | true => exact hpass.congr rfl rfl rfl rfl rfl
    | false => exact hpass
  | ok index =>
    rw [orElse_ok, andThen_ok]
    cases settings.disabled with
    | true => exact hpass.congr rfl rfl rfl rfl rfl
    | false =>
      refine (wp_bind ..).2 (wp_mono (wp_persist_quiet key index) ?_)
      rintro r s'' ⟨rfl, events, -, rfl⟩
      exact hpass.congr rfl rfl rfl rfl rfl

theorem wp_fetch_pass (h : Unknown env settings key current s.cache s.world) (forced : Bool) :
    wp (fetch env settings key l current forced)
      (fun r s' => Pass course current s (r.map Loaded.index) s') s := by
  unfold fetch
  refine (wp_bind ..).2 (wp_mono (wp_fromStore_unknown h forced) ?_)
  rintro r s' ⟨reason, events, rfl, rfl⟩
  simp only [andThen_ok, wp_bind, wp_report]
  let t : Session ω :=
    { s with cache := { s.cache with events := s.cache.events ++ events }.report (.miss current.path reason) }
  exact wp_mono (wp_renew_pass (s := t) hdelivered forced) fun r s' hpass => hpass.congr rfl rfl rfl rfl rfl

theorem wp_attempt_pass (h : Unknown env settings key current s.cache s.world) :
    wp (attempt env settings key l current)
      (fun r s' => Pass course current s (r.map Loaded.index) s') s := by
  unfold attempt
  simp only [wp_bind, wp_get, andThen_ok, wp_onCache, wp_remembered]
  cases hfound : (if s.cache.forced.contains key = true then none else _ : Option Loaded) with
  | some loaded =>
    obtain ⟨hfind, -, haccepts⟩ := holds_of_remembered (c := s.cache) id hfound
    cases haccepts.symm.trans (h.published hfind)
  | none =>
    let t : Session ω := { s with cache := s.cache.unforce key }
    have hunknown : Unknown env settings key current t.cache t.world := ⟨h.published, h.stored⟩
    refine wp_mono (wp_fetch_pass (s := t) hdelivered hunknown _) fun r s' hpass => ?_
    exact hpass.congr rfl rfl rfl rfl rfl

theorem wp_attempts_pass (h : Unknown env settings key current s.cache s.world) (n : Nat) :
    wp (attempts env settings key l current n)
      (fun r s' => Pass course current s (r.map Loaded.index) s') s := by
  refine wp_attempts_of_own (wp_mono (wp_attempt_pass hdelivered h) fun r s' hpass => ⟨?_, hpass⟩) n
  rintro path rfl
  exact hpass.own rfl

end

/-- A load that reads its container once. -/
def ReadsOnce (env : Environment ω) (l : Location) (current : Identity) (s : Session ω)
    (r : Except ScanError Loaded) (s' : Session ω) : Prop :=
  ∃ w course, env.Reads s.world w ∧ (env.enumerate l w).1 = .delivered course ∧
    Pass course current s (r.map Loaded.index) s'

theorem wp_load_once (henv : env.Apart) (hcurrent : identityOf env settings l s.world = .ok current)
    (h : Unknown env settings l.cacheKey current s.cache s.world)
    (hdelivers : ∀ w, env.Reads s.world w → (env.enumerate l w).1 ≠ .interrupted) :
    wp (load env settings l) (ReadsOnce env l current s) s := by
  unfold load
  refine (wp_bind ..).2 (wp_mono (wp_resolve_looks l) ?_)
  rintro r s' ⟨rfl, hlooks⟩
  have hunknown := h.of_looks henv hlooks
  obtain ⟨course, hdelivered⟩ : ∃ course, (env.enumerate l s'.world).1 = .delivered course := by
    cases henumerate : (env.enumerate l s'.world).1 with
    | delivered course => exact ⟨course, rfl⟩
    | interrupted => exact absurd henumerate (hdelivers _ hlooks.reads)
  rw [hcurrent]
  simp only [andThen_ok, wp_bind, wp_get, wp_remembered]
  cases hfound : (if s'.cache.forced.contains l.cacheKey = true then none else _ : Option Loaded) with
  | some loaded =>
    obtain ⟨hfind, -, haccepts⟩ := holds_of_remembered (c := s'.cache) id hfound
    cases haccepts.symm.trans (hunknown.published hfind)
  | none =>
    show wp (attempts env settings l.cacheKey l current _) _ s'
    refine wp_mono (wp_attempts_pass hdelivered hunknown _) fun r s'' hpass => ?_
    exact ⟨s'.world, course, hlooks.reads, hdelivered,
      hpass.congr (by rw [hlooks.cache]) (by rw [hlooks.cache]) rfl rfl rfl⟩

end Loading

/-! ### Other containers -/

/-- Sessions that have the same for a key. -/
structure Session.Alike (stored : ω → σ) (key : String) (s s' : Session ω) : Prop where
  published : s'.cache.published.find? key = s.cache.published.find? key
  forced : s'.cache.forced.contains key = s.cache.forced.contains key
  stored : stored s'.world = stored s.world

theorem Loading.alike_tolerates {stored : ω → σ} (henumerate : ∀ l w, stored (env.enumerate l w).2 = stored w)
    (hput : ∀ {other} bytes w, key ≠ other → stored (env.store.put other bytes w).2 = stored w) :
    ToleratesOthers env key (Session.Alike stored key) where
  refl _ := ⟨rfl, rfl, rfl⟩
  trans h h' := ⟨h'.published.trans h.published, h'.forced.trans h.forced, h'.stored.trans h.stored⟩
  enumerate l s := ⟨rfl, rfl, henumerate l s.world⟩
  cancel _ _ := ⟨rfl, rfl, rfl⟩
  work _ _ _ _ _ := ⟨rfl, rfl, rfl⟩
  report _ _ := ⟨rfl, rfl, rfl⟩
  publish _ _ hne := ⟨NameMap.find?_insert_of_ne _ hne _, rfl, rfl⟩
  force _ hne := ⟨rfl, Cache.contains_force_of_ne hne, rfl⟩
  unforce _ hne := ⟨rfl, Cache.contains_unforce_of_ne hne, rfl⟩
  put s bytes hne := ⟨rfl, rfl, hput bytes s.world hne⟩

theorem Loading.alike_of_load {s s' : Session ω} {r : Except ScanError Loaded}
    (hload : (load env settings l).run.run s = (r, s')) (hne : key ≠ l.cacheKey) :
    Session.Alike (fun _ => ()) key s s' := by
  have hothers : ToleratesOthers env key (Session.Alike (fun _ => ()) key) :=
    alike_tolerates (fun _ _ => rfl) fun _ _ _ => rfl
  exact wp_of_run (hothers.keeps_load hne s) hload

namespace Cache

/-- What becomes of a cache and its world while the container with a key is neither loaded, evicted nor
invalidated. The world changes at will. -/
inductive Aside (env : Environment ω) (settings : CacheSettings) (key : String) (c₀ : Cache) (w₀ : ω) :
    Cache → ω → Prop
  | start : Aside env settings key c₀ w₀ c₀ w₀
  | change {c : Cache} {w : ω} (h : Aside env settings key c₀ w₀ c w) (w' : ω) :
      Aside env settings key c₀ w₀ c w'
  | load {c : Cache} {w : ω} (h : Aside env settings key c₀ w₀ c w) {l : Location}
      (hne : key ≠ l.cacheKey) {cancelled : Bool} {r : Except ScanError Loaded} {s : Session ω}
      (hload : (Loading.load env settings l).run.run ⟨c, w, cancelled⟩ = (r, s)) :
      Aside env settings key c₀ w₀ s.cache s.world
  | evict {c : Cache} {w : ω} (h : Aside env settings key c₀ w₀ c w) {l : Location}
      (hne : key ≠ l.cacheKey) : Aside env settings key c₀ w₀ (c.evict l).2 w
  | invalidate {c : Cache} {w : ω} (h : Aside env settings key c₀ w₀ c w) {l : Location}
      (hne : key ≠ l.cacheKey) :
      Aside env settings key c₀ w₀ (c.invalidate env.store settings l w).2.1
        (c.invalidate env.store settings l w).2.2

variable {c₀ c : Cache} {w₀ w : ω} {loaded : Loaded}

theorem Has.evict (h : c.Has settings key current loaded) (hne : key ≠ l.cacheKey) :
    (c.evict l).2.Has settings key current loaded :=
  h.congr ((NameMap.find?_erase ..).trans (if_neg hne)) rfl

theorem Aside.has (haside : Aside env settings key c₀ w₀ c w) (h : c₀.Has settings key current loaded) :
    c.Has settings key current loaded := by
  induction haside with
  | start => exact h
  | change _ _ ih => exact ih
  | @load c w _ l hne cancelled r s hload ih =>
    have halike := Loading.alike_of_load hload hne
    exact ih.congr halike.published halike.forced
  | evict _ hne ih => exact ih.evict hne
  | @invalidate c w _ l hne ih =>
    have hforced : (c.force l.cacheKey).Has settings key current loaded :=
      ih.congr rfl (contains_force_of_ne hne)
    rw [invalidate_cache]
    exact (hforced.evict hne).congr rfl rfl

end Cache

namespace Loading

/-- A container that was loaded is loaded again after others were at work. If its identity is what it was,
the load returns the same index, from memory and without any work. If it has another identity, for which
the store has no index either, the load reads the container once and leaves alone what there is of every
other. -/
theorem free_or_once {s₀ s : Session ω} {loaded : Loaded}
    (hload : (load env settings l).run.run s₀ = (.ok loaded, s))
    (hcurrent : identityOf env settings l s₀.world = .ok current) {c : Cache} {w : ω}
    (haside : Cache.Aside env settings l.cacheKey s.cache s.world c w) (cancelled : Bool) :
    (identityOf env settings l w = .ok current → Free env settings l current loaded ⟨c, w, cancelled⟩) ∧
      ∀ {current'}, env.Apart → settings.alwaysValid = false →
        identityOf env settings l w = .ok current' → current' ≠ current →
        (∀ index, readStored env l.cacheKey w = .ok (some index) → index.identity ≠ current') →
        (∀ w', env.Reads w w' → (env.enumerate l w').1 ≠ .interrupted) →
        wp (load env settings l) (fun r t => ReadsOnce env l current' ⟨c, w, cancelled⟩ r t ∧
          ∀ k ≠ l.cacheKey, Session.Alike (env.store.get k) k ⟨c, w, cancelled⟩ t) ⟨c, w, cancelled⟩ := by
  have hholds : s.cache.Has settings l.cacheKey current loaded := by
    have hholds := wp_load_holds hcurrent
    unfold wp at hholds
    rw [hload] at hholds
    exact hholds loaded rfl
  have hhas := haside.has hholds
  refine ⟨free_of_has (s := ⟨c, w, cancelled⟩) hhas, fun {current'} henv hvalid hcurrent' hne hstored hdelivers => ?_⟩
  have hidentity : loaded.index.identity = current := by simpa [accepts, hvalid] using hhas.accepts
  have hunknown : Unknown env settings l.cacheKey current' c w := by
    refine ⟨fun {found} hfound => ?_, fun {index} hread => ?_⟩
    · obtain rfl := Option.some.inj (hhas.published.symm.trans hfound)
      simpa [accepts, hvalid, hidentity] using Ne.symm hne
    · simpa [accepts, hvalid] using hstored index hread
  have honce := wp_load_once (s := ⟨c, w, cancelled⟩) henv hcurrent' hunknown hdelivers
  refine wp_and honce fun k hk => ?_
  have halike : ToleratesOthers env k (Session.Alike (env.store.get k) k) :=
    alike_tolerates (fun l w => henv.enumerate l w k) fun bytes w hne => henv.put bytes w hne
  exact halike.keeps_load hk _

/-- Two archives of one class each, written at these times, and a store. -/
def twoArchives (time time' : UInt64) (store : MemoryStore) : ScriptedWorld :=
  let archive (time : UInt64) (name : String) : ScriptedContainer :=
    { entries := [⟨"entry.class", ClassFile.Blueprint.assemble { name }⟩], size := some 9, lastModified := time }
  { containers := (NameMap.empty.insert "a.jar" (archive time "a.A")).insert "b.jar" (archive time' "b.B"), store }

theorem identityOf_twoArchives (time time' : UInt64) (store : MemoryStore) :
    identityOf ScriptedWorld.environment {} (.archive "a.jar") (twoArchives time time' store) =
      .ok ⟨"a.jar", 9, time, none⟩ := by
  obtain ⟨c, hfind, hstat⟩ : ∃ c, (twoArchives time time' store).containers.find? "a.jar" = some c ∧
      c.stat = ⟨9, time⟩ :=
    ⟨_, (NameMap.find?_insert_of_ne _ (by decide) _).trans (NameMap.find?_insert_self ..), rfl⟩
  show wp (resolve ScriptedWorld.environment {} (.archive "a.jar")) (fun r _ => r = _) _
  unfold resolve ScriptedWorld.environment
  simp only [wp_bind, wp_get, andThen_ok, Location.logicalPath, hfind, hstat]
  rfl

/-- Unless that is to be interrupted, enumerating a container in memory changes nothing. -/
theorem enumerate_of_quiet {w : ScriptedWorld} (h : w.interruptions = 0) (l : Location) :
    ∃ course, ScriptedWorld.environment.enumerate l w = (.delivered course, w) := by
  show ∃ course, ScriptedWorld.enumerate l w = (.delivered course, w)
  unfold ScriptedWorld.enumerate
  cases w.containers.find? l.logicalPath with
  | none => exact ⟨_, rfl⟩
  | some c => exact ⟨_, if_pos h⟩

theorem delivered_of_quiet {w w' : ScriptedWorld} (h : w.interruptions = 0)
    (hreads : ScriptedWorld.environment.Reads w w') (l : Location) :
    (ScriptedWorld.environment.enumerate l w').1 ≠ .interrupted := by
  have hsame : w' = w := by
    induction hreads with
    | refl => rfl
    | enumerate _ l ih =>
      subst ih
      obtain ⟨course, henumerate⟩ := enumerate_of_quiet h l
      rw [henumerate]
  obtain ⟨course, henumerate⟩ := enumerate_of_quiet h l
  rw [hsame, henumerate]
  exact nofun

/-- A store with an index of the first archive as it was. -/
def staleStore : MemoryStore :=
  { entries := NameMap.empty.insert (Location.archive "a.jar").cacheKey
      (Blob.encode { identity := ⟨"a.jar", 9, 1, none⟩ }) }

/-- Between the loads of one archive another is loaded, evicted, invalidated and rewritten; then the first
is rewritten too. -/
theorem free_or_once_of_two_archives :
    let env := ScriptedWorld.environment
    let a := Location.archive "a.jar"
    let b := Location.archive "b.jar"
    let r := (load env {} a).run.run ⟨{}, twoArchives 1 1 {}, false⟩
    let r' := (load env {} b).run.run ⟨r.2.cache, r.2.world, false⟩
    let r'' := (r'.2.cache.evict b).2.invalidate env.store {} b r'.2.world
    let w := twoArchives 1 2 r''.2.2.store
    let w' := twoArchives 2 2 staleStore
    ∃ loaded, r = (.ok loaded, r.2) ∧
      Free env {} a ⟨"a.jar", 9, 1, none⟩ loaded ⟨r''.2.1, w, false⟩ ∧
      wp (load env {} a) (fun r t => ReadsOnce env a ⟨"a.jar", 9, 2, none⟩ ⟨r''.2.1, w', false⟩ r t ∧
        ∀ k ≠ a.cacheKey, Session.Alike (env.store.get k) k ⟨r''.2.1, w', false⟩ t) ⟨r''.2.1, w', false⟩ := by
  intro env a b r r' r'' w w'
  have hne : a.cacheKey ≠ b.cacheKey := by decide +kernel
  obtain ⟨loaded, hload⟩ : ∃ loaded, r = (.ok loaded, r.2) := eq_ok_of_isOk (x := r) (by decide +kernel)
  have hload' : r' = (r'.1, r'.2) := (Prod.eta r').symm
  have haside : ∀ w, Cache.Aside env {} a.cacheKey r.2.cache r.2.world r''.2.1 w :=
    fun w => (((Cache.Aside.start.load hne hload').evict hne).invalidate hne).change w
  have hstored : (readStored env a.cacheKey w').toOption.map (Option.map Index.identity) =
      some (some ⟨"a.jar", 9, 1, none⟩) := by decide +kernel
  have hcurrent := identityOf_twoArchives
  refine ⟨loaded, hload, (free_or_once hload (hcurrent ..) (haside w) false).1 (hcurrent ..), ?_⟩
  refine (free_or_once hload (hcurrent ..) (haside w') false).2 ScriptedWorld.apart rfl (hcurrent ..)
    (by decide) (fun index hread => ?_) fun w'' hreads => delivered_of_quiet rfl hreads a
  rw [hread] at hstored
  rw [Option.some.inj (Option.some.inj hstored)]
  decide

end Loading

end ClassCatalog
