import ClassCatalog.Proofs.Cache.Faithful
import ClassCatalog.Proofs.Cache.Untouched
import ClassCatalog.Proofs.Callers.Alone
import ClassCatalog.Proofs.Callers.JoinedIdentity

/-!
# A failed load leaves no trace

One caller loads a container that nobody else is loading, while requests to cancel arrive at any time
and containers change (`Crowd.SoloStep`). Its load sets up a cell, forgets whether the container is to
be made anew, and may begin to read it; but if it fails, then in the end the indexes in memory, the
containers to be made anew, the cells and the store are as they were (`failed_load_leaves_no_trace`).

`Filling.Traces` and `LoadStage.Traces` say, stage by stage, what has changed since the load began.
-/

namespace ClassCatalog

open Relation

variable {ι ω σ : Type} {env : Environment ω} {settings : CacheSettings} {stored : ω → σ}

namespace Filling

variable {key : String} {l : Location} {current : Identity} {f f' : Filling} {s₀ s s' : Session ω}

/-- What a filling has changed since the session `s₀`. Once there is an index, it does not fail. -/
def Traces (stored : ω → σ) (key : String) (s₀ s : Session ω) : Filling → Prop
  | begun => s₀.Untouched stored s
  | flagged forced => s₀.Unflagged stored key forced s
  | missed forced => s₀.Unflagged stored key forced s
  | opening forced => s₀.Unflagged stored key forced s
  | reading forced _ _ _ => s₀.Unflagged stored key forced s
  | failed forced _ => s₀.Unflagged stored key forced s
  | built _ => True
  | kept _ => True
  | ended result => ∀ e, result = .error e → s₀.Untouched stored s

theorem Traces.advance (hreads : ∀ l w, stored (env.enumerate l w).2 = stored w)
    (h : f.Traces stored key s₀ s) (hadvance : f.Advance env settings key l current s f' s') :
    f'.Traces stored key s₀ s' := by
  have hopened : ∀ {listing w}, env.enumerate l s.world = (listing, w) → stored w = stored s.world := by
    intro listing w henumerate
    have hsame := hreads l s.world
    rw [henumerate] at hsame
    exact hsame
  cases hadvance with
  | takeForce =>
    have hforced : s.cache.forced = s₀.cache.forced := h.indexes.forced
    have herased : s.cache.forced.erase key = s₀.cache.forced.erase key := by rw [hforced]
    have hflag : s.cache.forced.contains key = s₀.cache.forced.contains key := by rw [hforced]
    exact ⟨hflag, ⟨⟨h.indexes.published, herased⟩, h.store⟩⟩
  | hit => exact nofun
  | miss => exact h
  | find => exact trivial
  | want => exact h.trans ⟨⟨rfl, rfl⟩, rfl⟩
  | openIt henumerate => exact h.trans ⟨⟨rfl, rfl⟩, hopened henumerate⟩
  | interrupted henumerate => exact h.trans ⟨⟨rfl, rfl⟩, hopened henumerate⟩
  | take => exact h.trans ⟨⟨rfl, rfl⟩, rfl⟩
  | refuse => exact h.trans ⟨⟨rfl, rfl⟩, rfl⟩
  | close => exact trivial
  | closeCancelled => exact h
  | breakOff => exact h
  | giveUp =>
    intro _ _
    exact h.noted
  | keep => exact trivial
  | store => exact trivial
  | publish => exact nofun

theorem Traces.trans (h : f.Traces stored key s₀ s) (h' : s.Untouched stored s') :
    f.Traces stored key s₀ s' := by
  cases f with
  | begun => exact Session.Untouched.trans h h'
  | built index => exact trivial
  | kept index => exact trivial
  | ended r => exact fun e he => (h e he).trans h'
  | _ => exact Session.Unflagged.trans h h'

end Filling

namespace Crowd

open Loading

variable [DecidableEq ι] {s₀ s s' : Crowd ι ω} {i : ι} {l : Location} {stage : LoadStage}

/-- What can happen while one caller alone is at work and nobody else changes the store. -/
inductive SoloStep (env : Environment ω) (settings : CacheSettings) (stored : ω → σ) (i : ι) :
    Crowd ι ω → Crowd ι ω → Prop
  | move {s s' : Crowd ι ω} (h : s.step env settings i = some s') : SoloStep env settings stored i s s'
  | cancel (s : Crowd ι ω) (k : Nat) :
    SoloStep env settings stored i s { s with cancelled := fun t => t = k || s.cancelled t }
  | change (s : Crowd ι ω) (w : ω) (h : stored w = stored s.world) :
    SoloStep env settings stored i s { s with world := w }

theorem SoloStep.step (h : SoloStep env settings stored i s s') : Step env settings s s' := by
  cases h with
  | move h => exact .move i h
  | cancel k => exact .cancel s k
  | change w => exact .change s w

/-- The session of a caller is untouched. -/
abbrev Untouched (stored : ω → σ) (i : ι) (s s' : Crowd ι ω) : Prop :=
  (s.session i).Untouched stored (s'.session i)

/-- What a load has changed since `s₀`, stage by stage. -/
def Traces (stored : ω → σ) (i : ι) (key : String) (s₀ s : Crowd ι ω) : LoadStage → Prop
  | .holding _ n =>
    s.cells = s₀.cells.insert key n ∧ s.contents n = .empty ∧ s₀.Untouched stored i s
  | .filling _ n f =>
    s.cells = s₀.cells.insert key n ∧ f.Traces stored key (s₀.session i) (s.session i)
  | .leaving _ n r =>
    s.cells = s₀.cells.insert key n ∧ ∀ e, r = .error e → s₀.Untouched stored i s
  | .deciding _ r => s.cells = s₀.cells ∧ ∀ e, r = .error e → s₀.Untouched stored i s
  | .returned _ r => s.cells = s₀.cells ∧ ∀ e, r = .error e → s₀.Untouched stored i s
  | _ => s.cells = s₀.cells ∧ s₀.Untouched stored i s

omit [DecidableEq ι] in
theorem untouched_resolve (hreads : ∀ l w, stored (env.enumerate l w).2 = stored w)
    {r : Except ScanError Identity} {τ : Session ω}
    (hrun : (resolve env settings l).run.run (s.session i) = (r, τ)) :
    (s.session i).Untouched stored τ := by
  have hkeeps : wp (resolve env settings l) (fun _ t => (s.session i).Untouched stored t)
      (s.session i) := (untouched_tolerates hreads).keeps_resolve l (s.session i)
  exact wp_of_run hkeeps hrun

theorem Traces.move (hreads : ∀ l w, stored (env.enumerate l w).2 = stored w)
    (hunset : s₀.cells.find? l.cacheKey = none) (ho : s.Orderly)
    (hi : s.callers i = .load l stage) (h : Traces stored i l.cacheKey s₀ s stage)
    (hstep : s.step env settings i = some s') :
    ∃ stage', s'.callers i = .load l stage' ∧ Traces stored i l.cacheKey s₀ s' stage' := by
  obtain ⟨c, t, hmove, rfl⟩ := step_moves hstep
  rw [hi] at hmove
  rw [moved_callers_self]
  cases hmove with
  | refuse hrun =>
    refine ⟨_, rfl, h.1, h.2.trans ?_⟩
    rw [session_after_moved]
    exact untouched_resolve hreads hrun
  | resolve hrun =>
    refine ⟨_, rfl, h.1, h.2.trans ?_⟩
    rw [session_after_moved]
    exact untouched_resolve hreads hrun
  | pass => exact ⟨_, rfl, h⟩
  | look => exact ⟨_, rfl, h⟩
  | recollect => exact ⟨_, rfl, h.1, nofun⟩
  | forget => exact ⟨_, rfl, h⟩
  -- The cell would be one that the caller did not set up, and there was none.
  | join hset =>
    rw [h.1, hunset] at hset
    nomatch hset
  | setUp =>
    refine ⟨_, rfl, ?_, ho.unused (Nat.le_refl _), h.2⟩
    rw [← h.1]
    rfl
  | begin => exact ⟨_, rfl, h.1, h.2.2⟩
  | collect hfilled => nomatch h.2.1.symm.trans hfilled
  | fill hadvance =>
    refine ⟨_, rfl, h.1, ?_⟩
    rw [session_after_moved]
    exact h.2.advance hreads hadvance
  | finish => exact ⟨_, rfl, h.1, h.2⟩
  | @leave _ current n r =>
    refine ⟨_, rfl, ?_, h.2⟩
    -- The cell is the one that was set up, and giving it up leaves the cells of before.
    have hset : s.cells.find? l.cacheKey = some n := by rw [h.1, NameMap.find?_insert_self]
    show (if s.cells.find? l.cacheKey = some n then _ else _) = s₀.cells
    rw [if_pos hset, h.1, NameMap.erase_insert hunset]
  | @retry _ current r hforeign =>
    refine ⟨_, rfl, h.1, ?_⟩
    cases r with
    | ok loaded => nomatch hforeign
    | error e => exact h.2 e rfl
  | accept => exact ⟨_, rfl, h⟩

omit [DecidableEq ι] in
/-- What others do that leaves cells, indexes and store alone is no trace of the load. -/
theorem Traces.trans {key : String} (h : Traces stored i key s₀ s stage)
    (hcells : s'.cells = s.cells) (hcontents : s'.contents = s.contents)
    (h' : s.Untouched stored i s') : Traces stored i key s₀ s' stage := by
  cases stage with
  | holding current n => exact ⟨hcells.trans h.1, hcontents ▸ h.2.1, h.2.2.trans h'⟩
  | filling current n f => exact ⟨hcells.trans h.1, h.2.trans h'⟩
  | leaving current n r => exact ⟨hcells.trans h.1, fun e he => (h.2 e he).trans h'⟩
  | deciding current r => exact ⟨hcells.trans h.1, fun e he => (h.2 e he).trans h'⟩
  | returned current r => exact ⟨hcells.trans h.1, fun e he => (h.2 e he).trans h'⟩
  | _ => exact ⟨hcells.trans h.1, h.2.trans h'⟩

theorem Traces.steps (hreads : ∀ l w, stored (env.enumerate l w).2 = stored w)
    (hunset : s₀.cells.find? l.cacheKey = none) (ho : s₀.Orderly) (hi : s₀.callers i = .load l .ready)
    (hsteps : ReflTransGen (SoloStep env settings stored i) s₀ s) :
    ∃ stage, s.callers i = .load l stage ∧ Traces stored i l.cacheKey s₀ s stage := by
  have hall : Steps env settings s₀ s ∧
      ∃ stage, s.callers i = .load l stage ∧ Traces stored i l.cacheKey s₀ s stage := by
    induction hsteps with
    | refl => exact ⟨.refl, .ready, hi, rfl, .refl _⟩
    | tail _ hstep ih =>
      rcases ih with ⟨hbefore, stage, hstage, htraces⟩
      refine ⟨hbefore.tail hstep.step, ?_⟩
      cases hstep with
      | move hmove => exact htraces.move hreads hunset (ho.steps hbefore) hstage hmove
      | cancel k => exact ⟨stage, hstage, Traces.trans htraces rfl rfl ⟨.refl _, rfl⟩⟩
      | change w hw => exact ⟨stage, hstage, Traces.trans htraces rfl rfl ⟨.refl _, hw⟩⟩
  exact hall.2

/-- Let reading containers leave the store alone. From whatever session, a load that fails leaves the
indexes in memory, the containers to be made anew and the store as they were. So does a load by one of
any number of callers, if nobody holds a cell for its container when it begins and nobody else is at
work until it is over; and it leaves the cells as they were. -/
theorem failed_load_leaves_no_trace (hreads : ∀ l w, stored (env.enumerate l w).2 = stored w) :
    (∀ (s s' : Session ω) (l : Location) (e : ScanError),
      (Loading.load env settings l).run.run s = (.error e, s') →
        s'.cache.published = s.cache.published ∧ s'.cache.forced = s.cache.forced ∧
          stored s'.world = stored s.world) ∧
    ∀ (s₀ s s' : Crowd ι ω) (i : ι) (l : Location) (e : ScanError),
      s₀.Fresh → Steps env settings s₀ s → s.callers i = .load l .ready →
      (∀ j, (s.callers j).key = l.cacheKey → (s.callers j).cell? = none) →
      ReflTransGen (SoloStep env settings stored i) s s' →
      (s'.callers i).outcome? = some (.error e) →
        s'.cache.published = s.cache.published ∧ s'.cache.forced = s.cache.forced ∧
          s'.cells = s.cells ∧ stored s'.world = stored s.world := by
  constructor
  · intro s s' l e hrun
    have hload : wp (Loading.load env settings l)
        (fun r t => ∀ e, r = .error e → s.Untouched stored t) s := wp_load_untouched hreads l
    have huntouched := wp_of_run hload hrun e rfl
    exact ⟨huntouched.indexes.published, huntouched.indexes.forced, huntouched.store⟩
  · intro s₀ s s' i l e hfresh hreached hready hidle hsolo hfailed
    have ho : s.Orderly := hfresh.orderly.steps hreached
    have hunset : s.cells.find? l.cacheKey = none := by
      cases hset : s.cells.find? l.cacheKey with
      | none => rfl
      | some n =>
        obtain ⟨j, hj, hkey⟩ := ho.attended hset
        rw [hidle j hkey] at hj
        cases hj
    obtain ⟨stage, hstage, htraces⟩ := Traces.steps hreads hunset ho hready hsolo
    rw [hstage] at hfailed
    have hend : s'.cells = s.cells ∧ s.Untouched stored i s' := by
      cases stage with
      | refused e => exact htraces
      | returned current r =>
        cases hfailed
        exact ⟨htraces.1, htraces.2 e rfl⟩
      | _ => cases hfailed
    rcases hend with ⟨hcells, huntouched⟩
    exact ⟨huntouched.indexes.published, huntouched.indexes.forced, hcells, huntouched.store⟩

/-- The load of an archive that is to be made anew. -/
def forcedArchive : Crowd Unit ScriptedWorld :=
  { cache := ({} : Cache).force (Location.archive "a.jar").cacheKey
    world := archiveAt 1
    callers := fun _ => .load (.archive "a.jar") .ready
    token := fun _ => 0 }

/-- It has found no index when its caller asks to cancel. -/
def cancelledArchive : Crowd Unit ScriptedWorld :=
  let opening := forcedArchive.play ScriptedWorld.environment {} (List.replicate 8 ())
  let asked := { opening with cancelled := fun t => t = 0 || opening.cancelled t }
  asked.play ScriptedWorld.environment {} (List.replicate 8 ())

theorem soloSteps_play (s : Crowd ι ω) (turns : Nat) :
    ReflTransGen (SoloStep env settings stored i) s
      (s.play env settings (List.replicate turns i)) := by
  induction turns generalizing s with
  | zero => exact .refl
  | succ turns ih =>
    have hrest := ih ((s.step env settings i).getD s)
    cases hstep : s.step env settings i with
    | none =>
      rw [hstep] at hrest
      simpa [play, List.replicate_succ, hstep] using hrest
    | some s' =>
      rw [hstep] at hrest
      simpa [play, List.replicate_succ, hstep] using hrest.head (.move hstep)

theorem forcedArchive_steps : ReflTransGen
    (SoloStep ScriptedWorld.environment {} ScriptedWorld.store ()) forcedArchive cancelledArchive := by
  have hasked : ReflTransGen (SoloStep ScriptedWorld.environment {} ScriptedWorld.store ())
      (forcedArchive.play ScriptedWorld.environment {} (List.replicate 8 ())) _ :=
    .single (.cancel _ 0)
  exact ((soloSteps_play forcedArchive 8).trans hasked).trans (soloSteps_play _ 8)

/-- The load is cancelled and the archive is still to be made anew. -/
theorem no_trace_of_cancelled :
    (∀ l w, (ScriptedWorld.environment.enumerate l w).2.store = w.store) ∧ forcedArchive.Fresh ∧
      (cancelledArchive.callers ()).outcome? = some (.error (.cancelled "a.jar")) ∧
      cancelledArchive.cache.published = forcedArchive.cache.published ∧
      cancelledArchive.cache.forced = forcedArchive.cache.forced ∧
      cancelledArchive.cells = forcedArchive.cells ∧
      cancelledArchive.world.store = forcedArchive.world.store := by
  have hreads := ScriptedWorld.store_enumerate
  have hfresh : forcedArchive.Fresh := ⟨rfl, fun _ => rfl, fun _ => .inl ⟨_, rfl⟩⟩
  have hover : (cancelledArchive.callers ()).outcome?.map (Except.map fun _ => ()) =
      some (.error (.cancelled "a.jar")) := by decide +kernel
  have hfailed : (cancelledArchive.callers ()).outcome? = some (.error (.cancelled "a.jar")) := by
    obtain ⟨r, hr, herror⟩ := Option.map_eq_some_iff.mp hover
    cases r with
    | ok loaded => cases herror
    | error e =>
      cases herror
      exact hr
  have hnone := (failed_load_leaves_no_trace hreads).2 forcedArchive forcedArchive cancelledArchive
    () (.archive "a.jar") _ hfresh .refl rfl (fun _ _ => rfl) forcedArchive_steps hfailed
  exact ⟨hreads, hfresh, hfailed, hnone⟩

end Crowd

end ClassCatalog
