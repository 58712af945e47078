import ClassCatalog.Proofs.Cache.Faithful
import ClassCatalog.Proofs.Cache.Refusals
import ClassCatalog.Proofs.Engine.Twins
import ClassCatalog.Proofs.Query.Outcome
import ClassCatalog.Proofs.View.Equality

/-!
# Engines that do not write

An engine is not to write if its store is read-only to it, or if it is to do without the store. In a run of
such an engine the store keeps its contents, and no call fails for that (`no_write_settings_hold`). A store
that is read-only to the engine is refused every change (`Store.Inert`). An engine that does without goes on
as it would with any other store in its place (`Client.twins_run`), so also with a read-only one.
-/

namespace ClassCatalog

variable {ω κ : Type} {env : Environment ω} {contents : ω → κ}

/-- No change that the store is asked for shows in its contents. -/
structure Store.Inert (store : Store ω) (contents : ω → κ) : Prop where
  put (key : String) (bytes : Bytes) (w : ω) : contents (store.put key bytes w).2 = contents w
  delete (key : String) (w : ω) : contents (store.delete key w).2 = contents w
  clear (w : ω) : contents (store.clear w).2 = contents w

theorem Store.inert_readOnly (store : Store ω) (contents : ω → κ) : store.readOnly.Inert contents :=
  ⟨fun _ _ _ => rfl, fun _ _ => rfl, fun _ => rfl⟩

theorem Store.Inert.restrict {store : Store ω} (h : store.Inert contents) (restricted : Bool) :
    (store.restrict restricted).Inert contents := by
  cases restricted with
  | true => exact store.inert_readOnly contents
  | false => exact h

/-! ### Loads -/

namespace Loading

variable {settings : CacheSettings}

-- Containers can be read without changing what the store contains.
variable (hreads : ∀ l w, contents (env.enumerate l w).2 = contents w)
include hreads

theorem contents_tolerates (hinert : env.store.Inert contents) (key : String) :
    ToleratesOthers env key fun s s' => contents s'.world = contents s.world where
  refl _ := rfl
  trans h h' := h'.trans h
  enumerate l s := hreads l s.world
  cancel _ _ := rfl
  work _ _ _ _ _ := rfl
  report _ _ := rfl
  publish _ _ _ := rfl
  force _ _ := rfl
  unforce _ _ := rfl
  put s bytes _ := hinert.put _ bytes s.world

theorem contents_load (hinert : env.store.Inert contents) (l : Location) :
    Keeps (fun s s' => contents s'.world = contents s.world) (load env settings l) := by
  -- Nothing is said of a single key, so any other than that of the container will do.
  have hne : l.cacheKey ++ "0" ≠ l.cacheKey := fun h => by simpa using congrArg String.length h
  exact (contents_tolerates hreads hinert _).keeps_load hne

end Loading

namespace Engine

variable {settings : CacheSettings} {e : Engine}

theorem contents_openModule (hreads : ∀ l w, contents (env.enumerate l w).2 = contents w)
    (hinert : (e.restricted env).store.Inert contents)
    (specs : List ContainerSpec) (cancelled : Bool) (w : ω) :
    contents (e.openModule env specs cancelled w).2.2 = contents w := by
  have hreads' : ∀ l w, contents ((e.restricted env).enumerate l w).2 = contents w := hreads
  exact keeps_loadAll (Loading.contents_tolerates hreads' hinert "").toTolerates
    (fun spec _ => Loading.contents_load hreads' hinert spec.location) _

/-! ### Failures -/

theorem eq_error_of_map {ε α β : Type} {f : α → β} {x : Except ε α} {err : ε}
    (h : x.map f = .error err) : x = .error err := by
  cases x with
  | ok a => cases h
  | error e =>
    cases h
    rfl

/-- What the containers say does not depend on how the store may be used. -/
theorem refuses_of_restricted {o : Opening ω} {l : Location} {err : ScanError}
    (h : o.Refuses (e.restricted env) l err) : o.Refuses env l err := by
  have hreaches : ∀ {w}, o.Reaches (e.restricted env) w → o.Reaches env w := fun hw => by
    induction hw with
    | start => exact .start
    | read _ hl ih => exact .read ih hl
  cases h with
  | stat hw h => exact .stat (hreaches hw) h
  | digest hw h => exact .digest (hreaches hw) h
  | enumeration hw h hfailure => exact .enumeration (hreaches hw) h hfailure
  | cancelled h =>
    cases h with
    | now h => exact .cancelled (.now h)
    | reading hw hl h hcancels => exact .cancelled (.reading (hreaches hw) hl h hcancels)
    | interruption hw hl h => exact .cancelled (.interruption (hreaches hw) hl h)

theorem store_restricted (h : e.options.readOnly = true) :
    (e.restricted env).store = env.store.readOnly := if_pos h

theorem refuses_of_openModule {specs : List ContainerSpec} {cancelled : Bool} {w : ω} {err : ScanError}
    (hsettings : e.options.readOnly = true ∨ e.options.disabled = true)
    (h : (e.openModule env specs cancelled w).1 = .error err) :
    ∃ spec ∈ specs, Opening.Refuses ⟨specs.map (·.location), w, cancelled⟩ env spec.location err := by
  have hquiet : Loading.Quiet (e.restricted env) e.options.cacheSettings := by
    refine hsettings.symm.imp id fun hreadOnly key bytes w => ?_
    rw [store_restricted hreadOnly]
    rfl
  have hstart : Opening.Covers ⟨specs.map (·.location), w, cancelled⟩ (e.restricted env)
      ⟨e.cache, w, cancelled⟩ := ⟨.start, fun h => .now h⟩
  have hloads : ∀ spec ∈ specs, Loading.Comes (e.restricted env) ⟨specs.map (·.location), w, cancelled⟩
      spec.location (fun _ => True) (Loading.load (e.restricted env) e.options.cacheSettings spec.location) :=
    fun spec hspec => Loading.comes_load (List.mem_map_of_mem hspec) hquiet
  have hsettled := settles_loadAll
    (F := fun spec => Opening.Refuses ⟨specs.map (·.location), w, cancelled⟩ (e.restricted env) spec.location)
    (R := fun _ _ => True) hloads hstart
  rw [eq_error_of_map h] at hsettled
  obtain ⟨spec, hspec, hrefuses⟩ := hsettled
  exact ⟨spec, hspec, refuses_of_restricted hrefuses⟩

/-- Replies that something went wrong. -/
def Reply.isFailure : Reply → Bool
  | opened (.error _) | brokenOff | invalidated (.error _) | cleared (.error _) | counted (.error _)
  | answered (.error _) => true
  | _ => false

theorem Reply.error_of_opened {result : Except ScanError View} (h : (opened result).isFailure = true) :
    ∃ err, result = .error err := by
  cases result with
  | ok v => cases h
  | error err => exact ⟨err, rfl⟩

/-- The opening that is asked for. -/
def Client.opening (c : Client ω) (specs : List ContainerSpec) (cancelled : Bool) : Opening ω :=
  ⟨specs.map (·.location), c.world, cancelled⟩

/-- A failure for which there is a reason other than that the store is not to be written: a container of the
module refuses or has an identity without a stamp, the store cannot be counted, or a query does not know a name. -/
inductive Excused (env : Environment ω) (c : Client ω) : Call → Reply → Prop
  | openModule {specs : List ContainerSpec} {cancelled : Bool} {spec : ContainerSpec} {err : ScanError}
      (hspec : spec ∈ specs) (h : (c.opening specs cancelled).Refuses env spec.location err) :
      Excused env c (.openModule specs cancelled) (.opened (.error err))
  | openNamed {name : String} {specs : List ContainerSpec} {cancelled : Bool} {spec : ContainerSpec}
      {err : ScanError} (hspec : spec ∈ specs)
      (h : (c.opening specs cancelled).Refuses env spec.location err) :
      Excused env c (.openNamed name specs cancelled) (.opened (.error err))
  | brokenOff {name : String} {specs : List ContainerSpec} {cancelled : Bool} {v : View}
      (hopen : (c.engine.openModule env specs cancelled c.world).1 = .ok v)
      (h : ∃ container ∈ v.containers, ¬ container.index.identity.HasStamp) :
      Excused env c (.openNamed name specs cancelled) .brokenOff
  | stats {err : StoreError} (h : env.store.size c.world = .error err) :
      Excused env c .stats (.counted (.error err))
  | query {n : Nat} {options : QueryOptions} {request : Query.Request} {v : View} {memo : View.Memo}
      {name : String} (hview : c.views[n]? = some (v, memo)) (h : request.stop? v options = some name) :
      Excused env c (.query n options request) (.answered (.error (.unknownReferenceType name)))

/-- A query answers, or stops at a name that it does not know. -/
theorem query_settles {v : View} {memo : View.Memo} (h : memo.Sound v) (e : Engine) (options : QueryOptions)
    (request : Query.Request) :
    (e.query v options request memo).1 =
        Query.outcome (request.stop? v options) (request.answer v options) ∧
      (e.query v options request memo).2.2.Sound v := by
  obtain ⟨hresult, hsound⟩ := request.settles_run memo h
  unfold Engine.query
  generalize (request.run v options).run.run memo = answered at *
  obtain ⟨result, memo'⟩ := answered
  cases result with
  | ok answer => exact ⟨hresult, hsound⟩
  | error err => exact ⟨hresult, hsound⟩

/-- To invalidate a container is to leave a store alone that is not to be written. -/
theorem invalidate_ok (h : e.options.readOnly = true ∨ e.options.disabled = true) (l : Location) (w : ω) :
    (e.invalidate env l w).1 = .ok () := by
  unfold Engine.invalidate Cache.invalidate
  rcases h with hreadOnly | hdisabled
  · rw [store_restricted hreadOnly]
    dsimp only
    split <;> rfl
  · have hsettings : e.options.cacheSettings.disabled = true := hdisabled
    rw [hsettings]
    rfl

theorem size_restricted (e : Engine) (w : ω) : (e.restricted env).store.size w = env.store.size w := by
  unfold restricted Store.restrict
  cases e.options.readOnly <;> rfl

theorem stats_error {w : ω} {err : StoreError} (h : e.stats env w = .error err) :
    env.store.size w = .error err := by
  simp only [Engine.stats, size_restricted] at h
  cases hsize : env.store.size w with
  | ok n =>
    rw [hsize] at h
    cases h
  | error err' =>
    rw [hsize] at h
    cases h
    rfl

namespace Client

variable {c : Client ω} {call : Call}

/-- What the views keep of their answers is right. -/
def Sound (c : Client ω) : Prop := ∀ v memo, (v, memo) ∈ c.views → memo.Sound v

theorem sound_viewsWith (h : c.Sound) (result : Except ScanError View) :
    ∀ v memo, (v, memo) ∈ c.viewsWith result → memo.Sound v := by
  intro v memo hmem
  cases result with
  | error err => exact h v memo hmem
  | ok opened =>
    rcases List.mem_append.mp hmem with hold | hnew
    · exact h v memo hold
    · cases List.mem_singleton.mp hnew
      exact View.Memo.sound_empty v

theorem sound_ask (h : c.Sound) (n : Nat) (options : QueryOptions) (request : Query.Request) :
    (c.ask n options request).2.Sound := by
  unfold ask
  cases hview : c.views[n]? with
  | none => exact h
  | some entry =>
    obtain ⟨v, memo⟩ := entry
    intro v' memo' hmem
    rcases List.mem_or_eq_of_mem_set hmem with hold | heq
    · exact h v' memo' hold
    · obtain ⟨rfl, rfl⟩ := Prod.mk.inj heq
      exact (query_settles (h v' memo (List.mem_of_getElem? hview)) c.engine options request).2

theorem sound_call (h : c.Sound) (call : Call) : (c.call env call).2.Sound := by
  cases call with
  | openModule specs cancelled => exact sound_viewsWith h _
  | openNamed name specs cancelled =>
    show ∀ v memo, (v, memo) ∈ Option.elim (c.engine.openNamed env name specs cancelled c.world).1 c.views c.viewsWith → _
    cases (c.engine.openNamed env name specs cancelled c.world).1 with
    | none => exact h
    | some result => exact sound_viewsWith h result
  | query n options request => exact sound_ask h n options request
  | _ => exact h

/-- If the store takes no change, a call does not change what it contains. -/
theorem contents_call (hreads : ∀ l w, contents (env.enumerate l w).2 = contents w)
    (hinert : (c.engine.restricted env).store.Inert contents) (call : Call) :
    contents (c.call env call).2.world = contents c.world := by
  cases call with
  | openModule specs cancelled => exact contents_openModule hreads hinert specs cancelled c.world
  | openNamed name specs cancelled =>
    obtain ⟨modules, hopen⟩ := openNamed_eq env c.engine name specs cancelled c.world
    show contents (c.engine.openNamed env name specs cancelled c.world).2.2 = _
    rw [hopen]
    exact contents_openModule hreads hinert specs cancelled c.world
  | invalidate l =>
    show contents (c.engine.cache.invalidate _ _ l c.world).2.2 = _
    rw [Cache.invalidate_world]
    split
    · rfl
    · exact hinert.delete l.cacheKey c.world
  | clearStore => exact hinert.clear c.world
  | query n options request => exact congrArg contents (c.world_ask n options request)
  | release name => rfl
  | evict l => rfl
  | stats => rfl

/-- An engine that does without the store does not change it, as it would not change a read-only one. -/
theorem contents_call_of_disabled (hreads : ∀ l w, contents (env.enumerate l w).2 = contents w)
    (hdisabled : c.engine.options.disabled = true) (hclear : call ≠ .clearStore) :
    contents (c.call env call).2.world = contents c.world := by
  let refusing : Environment ω := { env with store := env.store.readOnly }
  have htwins : env.Twins refusing Eq := env.twins_eq.with_store env.store.readOnly
  have hreads' : ∀ l w, contents (refusing.enumerate l w).2 = contents w := hreads
  have hinert : (c.engine.restricted refusing).store.Inert contents :=
    (env.store.inert_readOnly contents).restrict _
  obtain ⟨-, hend⟩ := twins_call htwins (⟨rfl, rfl, rfl⟩ : c.Twins Eq c) hdisabled hclear
  rw [hend.world]
  exact contents_call hreads' hinert call

theorem excused_call (hsound : c.Sound)
    (hsettings : c.engine.options.readOnly = true ∨ c.engine.options.disabled = true)
    (hclear : call ≠ .clearStore) (h : (c.call env call).1.isFailure = true) :
    Excused env c call (c.call env call).1 := by
  cases call with
  | openModule specs cancelled =>
    obtain ⟨err, herr⟩ : ∃ err, (c.engine.openModule env specs cancelled c.world).1 = .error err :=
      Reply.error_of_opened h
    show Excused env c _ (.opened (c.engine.openModule env specs cancelled c.world).1)
    rw [herr]
    obtain ⟨spec, hspec, hrefuses⟩ := refuses_of_openModule hsettings herr
    exact .openModule hspec hrefuses
  | openNamed name specs cancelled =>
    have hfailure :
        Reply.isFailure ((c.engine.openNamed env name specs cancelled c.world).1.elim .brokenOff .opened) = true := h
    show Excused env c _ ((c.engine.openNamed env name specs cancelled c.world).1.elim .brokenOff .opened)
    cases openNamed_cases env c.engine name specs cancelled c.world with
    | failed hopen heq =>
      rw [heq]
      obtain ⟨spec, hspec, hrefuses⟩ := refuses_of_openModule hsettings hopen
      exact .openNamed hspec hrefuses
    | @brokenOff v hopen htable heq =>
      rw [heq]
      refine .brokenOff hopen (Classical.byContradiction fun hnone => ?_)
      obtain ⟨rows, hrows⟩ := v.exists_table fun container hcontainer =>
        Classical.byContradiction fun hstamp => hnone ⟨container, hcontainer, hstamp⟩
      nomatch htable.symm.trans hrows
    | recorded _ _ heq =>
      rw [heq] at hfailure
      cases hfailure
  | release name => cases h
  | evict l => cases h
  | invalidate l =>
    have hfailure : (Reply.invalidated (c.engine.invalidate env l c.world).1).isFailure = true := h
    rw [invalidate_ok hsettings] at hfailure
    cases hfailure
  | clearStore => exact absurd rfl hclear
  | stats =>
    show Excused env c _ (.counted (c.engine.stats env c.world))
    have hfailure : (Reply.counted (c.engine.stats env c.world)).isFailure = true := h
    cases hstats : c.engine.stats env c.world with
    | ok counts =>
      rw [hstats] at hfailure
      cases hfailure
    | error err => exact .stats (stats_error hstats)
  | query n options request =>
    have hfailure : (c.ask n options request).1.isFailure = true := h
    show Excused env c _ (c.ask n options request).1
    unfold ask at hfailure ⊢
    cases hview : c.views[n]? with
    | none =>
      rw [hview] at hfailure
      cases hfailure
    | some entry =>
      obtain ⟨v, memo⟩ := entry
      have hmemo := hsound v memo (List.mem_of_getElem? hview)
      have hresult := (query_settles hmemo c.engine options request).1
      rw [hview] at hfailure
      dsimp only at hfailure ⊢
      rw [hresult] at hfailure ⊢
      cases hstop : request.stop? v options with
      | none =>
        rw [hstop] at hfailure
        cases hfailure
      | some name => exact .query hview hstop

end Client

/-- An engine that is not to write, at work: whatever is called, the store keeps its contents, and what fails
has another reason; a read-only store refuses to be cleared. An engine that does without the store goes on in
the same way with any other store, whatever is in it, but for what it counts there. -/
theorem no_write_settings_hold (env : Environment ω) {options : EngineOptions}
    (hsettings : options.readOnly = true ∨ options.disabled = true)
    (hreads : ∀ l w, contents (env.enumerate l w).2 = contents w) {turns : List (Turn ω)}
    (hchange : ∀ t ∈ turns, ∀ w, contents (t.change w) = contents w)
    (hclear : ∀ t ∈ turns, t.call = .clearStore → options.readOnly = true) (world : ω) :
    let ran := Client.run env turns ⟨{ options }, world, []⟩
    contents ran.2.world = contents world ∧
    (∀ call, call ≠ .clearStore → (ran.2.call env call).1.isFailure = true →
      Excused env ran.2 call (ran.2.call env call).1) ∧
    (options.readOnly = true → ran.2.call env .clearStore = (.cleared (.error .readOnly), ran.2)) ∧
    (options.disabled = true → (∀ t ∈ turns, t.call ≠ .clearStore) →
      ∀ (same : ω → ω → Prop) (store : Store ω) (world' : ω), env.Twins env same → same world world' →
        (∀ t ∈ turns, ∀ w w', same w w' → same (t.change w) (t.change w')) →
        let ran' := Client.run { env with store } turns ⟨{ options }, world', []⟩
        ran'.1.withoutStats = ran.1.withoutStats ∧ ran'.2.engine = ran.2.engine ∧
          ran'.2.views = ran.2.views) := by
  intro ran
  have hcall : ∀ (c : Client ω) call, c.engine.options = options →
      (call = .clearStore → options.readOnly = true) →
      contents (c.call env call).2.world = contents c.world := by
    rintro c call rfl hclear
    by_cases hreadOnly : c.engine.options.readOnly = true
    · have hinert : (c.engine.restricted env).store.Inert contents := by
        rw [store_restricted hreadOnly]
        exact env.store.inert_readOnly contents
      exact Client.contents_call hreads hinert call
    · exact Client.contents_call_of_disabled hreads (hsettings.resolve_left hreadOnly) (hreadOnly ∘ hclear)
  obtain ⟨hoptions, hcontents, hsound⟩ : ran.2.engine.options = options ∧
      contents ran.2.world = contents world ∧ ran.2.Sound := by
    refine Client.run_induction (P := fun c => c.engine.options = options ∧
      contents c.world = contents world ∧ c.Sound) (fun t ht c ⟨hoptions, hcontents, hsound⟩ => ?_)
      ⟨rfl, rfl, fun _ _ hmem => nomatch hmem⟩
    let changed : Client ω := { c with world := t.change c.world }
    refine ⟨(Client.options_call changed t.call).trans hoptions, ?_,
      Client.sound_call (c := changed) hsound t.call⟩
    exact (hcall changed t.call hoptions (hclear t ht)).trans ((hchange t ht c.world).trans hcontents)
  rw [← hoptions] at hsettings
  refine ⟨hcontents, fun call hother h => Client.excused_call hsound hsettings hother h, ?clear, ?twins⟩
  case clear =>
    intro hreadOnly
    show (Reply.cleared _, _) = _
    rw [store_restricted (hoptions ▸ hreadOnly)]
    rfl
  case twins =>
    intro hdisabled hnoClear same store world' htwins hworld hpreserved
    obtain ⟨hhistory, hend⟩ := Client.twins_run (htwins.with_store store)
      (⟨rfl, rfl, hworld⟩ : Client.Twins same ⟨{ options }, world, []⟩ ⟨{ options }, world', []⟩) hdisabled
      hnoClear hpreserved
    exact ⟨hhistory, hend.engine, hend.views⟩

/-- Worlds that differ in their stores alone. -/
def SameContainers (w w' : ScriptedWorld) : Prop :=
  w'.containers = w.containers ∧ w'.interruptions = w.interruptions

theorem twins_sameContainers : ScriptedWorld.environment.Twins ScriptedWorld.environment SameContainers := by
  have henumerate : ∀ (l : Location) {w w' : ScriptedWorld}, SameContainers w w' →
      (ScriptedWorld.enumerate l w').1 = (ScriptedWorld.enumerate l w).1 ∧
        SameContainers (ScriptedWorld.enumerate l w).2 (ScriptedWorld.enumerate l w').2 := by
    rintro l w w' ⟨hcontainers, hinterruptions⟩
    unfold ScriptedWorld.enumerate
    rw [hcontainers, hinterruptions]
    split
    · exact ⟨rfl, hcontainers, hinterruptions⟩
    · split
      · exact ⟨rfl, hcontainers, hinterruptions⟩
      · exact ⟨rfl, rfl, rfl⟩
  refine ⟨fun {w w'} h l => ?_, fun _ _ => rfl, fun h => h.2, fun h l => (henumerate l h).1,
    fun h l => (henumerate l h).2⟩
  simp only [ScriptedWorld.environment, h.1]

/-- Opens archives, has one of them made anew and asks for classes. -/
def opensAndAsks : List (Turn ScriptedWorld) :=
  let own : ContainerSpec := ⟨.archive "own.jar", .seed⟩
  let shared : ContainerSpec := ⟨.archive "shared.jar", .seed⟩
  [⟨id, .openNamed "m" [own, shared] false⟩, ⟨id, .invalidate own.location⟩,
    ⟨id, .openModule [own] false⟩, ⟨id, .stats⟩, ⟨id, .query 1 {} (.inPackage "o")⟩]

/-- The archives with something in the store that is no index. -/
def littered : ScriptedWorld :=
  { ownAndShared with
    store := { entries := NameMap.empty.insert (Location.archive "own.jar").cacheKey [0] } }

def ranUnwritten (w : ScriptedWorld) : History × Client ScriptedWorld :=
  Client.run ScriptedWorld.environment opensAndAsks
    ⟨{ options := { readOnly := true, disabled := true } }, w, []⟩

/-- What is in the store stays there, and nobody sees it. -/
theorem no_write_to_littered :
    let ran := ranUnwritten littered
    ran.2.world.store = littered.store ∧
      ran.2.call ScriptedWorld.environment .clearStore = (.cleared (.error .readOnly), ran.2) ∧
      (ranUnwritten ownAndShared).1.withoutStats = ran.1.withoutStats ∧
      ran.1.all (fun p => !p.2.isFailure) = true ∧ ran.2.engine.cache.published.size = 2 := by
  have hclear : ∀ t ∈ opensAndAsks, t.call ≠ .clearStore := by
    simp [opensAndAsks]
  have hid : ∀ t ∈ opensAndAsks, t.change = id := by
    simp [opensAndAsks]
  have hkept : ∀ t ∈ opensAndAsks, ∀ w, (t.change w).store = w.store := fun t ht w => by
    rw [hid t ht]
    rfl
  have hsame : ∀ t ∈ opensAndAsks, ∀ w w', SameContainers w w' → SameContainers (t.change w) (t.change w') :=
    fun t ht w w' h => by
      rw [hid t ht]
      exact h
  obtain ⟨hstore, -, hreadOnly, hdisabled⟩ := @no_write_settings_hold ScriptedWorld MemoryStore (·.store)
    ScriptedWorld.environment { readOnly := true, disabled := true } (.inl rfl)
    ScriptedWorld.store_enumerate opensAndAsks hkept (fun _ _ _ => rfl) littered
  obtain ⟨hhistory, -, -⟩ := hdisabled rfl hclear SameContainers ScriptedWorld.environment.store ownAndShared
    twins_sameContainers ⟨rfl, rfl⟩ hsame
  have hreplies : (ranUnwritten littered).1.all (fun p => !p.2.isFailure) = true := by decide +kernel
  have hsize : (ranUnwritten littered).2.engine.cache.published.size = 2 := by decide +kernel
  -- From here on it does not matter which runs these were.
  rw [show Client.run _ opensAndAsks ⟨_, littered, _⟩ = ranUnwritten littered from rfl]
    at hstore hreadOnly hhistory
  rw [show Client.run _ opensAndAsks ⟨_, ownAndShared, _⟩ = ranUnwritten ownAndShared from rfl] at hhistory
  generalize ranUnwritten littered = ran at *
  exact ⟨hstore, hreadOnly rfl, hhistory, hreplies, hsize⟩

end Engine

end ClassCatalog
