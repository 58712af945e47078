import ClassCatalog.Proofs.Cache.Disabled
import ClassCatalog.Proofs.Engine.Release

/-!
# Engines that leave the store alone

An engine that is to do without the store goes on with any store in its place as it would with any other
(`Client.twins_run`): in worlds that differ only in what they store it gives the same replies, but for the
counts, and ends with the same indexes in memory.
-/

namespace ClassCatalog.Engine

variable {ω : Type} {env env' : Environment ω} {same : ω → ω → Prop} {settings : CacheSettings} {e : Engine}

/-! ### Calls -/

theorem twins_restricted (h : env.Twins env' same) (e : Engine) :
    (e.restricted env).Twins (e.restricted env') same :=
  ⟨h.stat, h.ownDigest, h.pending, h.enumerate, h.enumerated⟩

theorem twins_loadAll (h : env.Twins env' same) (hdisabled : settings.disabled = true)
    (specs : List ContainerSpec) {s s' : Session ω} (hs : s.Twins same s') :
    (loadAll env' settings specs s').1 = (loadAll env settings specs s).1 ∧
      (loadAll env settings specs s).2.Twins same (loadAll env' settings specs s').2 := by
  induction specs generalizing s s' with
  | nil => exact ⟨rfl, hs⟩
  | cons spec specs ih =>
    obtain ⟨hresult, hsession⟩ := Loading.lockstep_load h hdisabled spec.location s s' hs
    obtain ⟨hrest, hend⟩ := ih hsession
    refine ⟨?_, hend⟩
    show Except.map _ _ :: _ = Except.map _ _ :: _
    exact congr (congrArg (fun r => List.cons (Except.map _ r)) hresult) hrest

section

variable {w w' : ω}

theorem twins_openModule (h : env.Twins env' same) (hdisabled : e.options.disabled = true)
    (specs : List ContainerSpec) (cancelled : Bool) (hw : same w w') :
    (e.openModule env' specs cancelled w').1 = (e.openModule env specs cancelled w).1 ∧
      (e.openModule env' specs cancelled w').2.1 = (e.openModule env specs cancelled w).2.1 ∧
      same (e.openModule env specs cancelled w).2.2 (e.openModule env' specs cancelled w').2.2 := by
  have hsession : Session.Twins same ⟨e.cache, w, cancelled⟩ ⟨e.cache, w', cancelled⟩ := ⟨rfl, hw, rfl⟩
  have hsettings : e.options.cacheSettings.disabled = true := hdisabled
  obtain ⟨hresults, hend⟩ := twins_loadAll (twins_restricted h e) hsettings specs hsession
  refine ⟨congrArg (fun results => (allOk results).map View.ofContainers) hresults, ?_, hend.world⟩
  exact congrArg (fun cache => { e with cache }) hend.cache

theorem twins_openNamed (h : env.Twins env' same) (hdisabled : e.options.disabled = true) (name : String)
    (specs : List ContainerSpec) (cancelled : Bool) (hw : same w w') :
    (e.openNamed env' name specs cancelled w').1 = (e.openNamed env name specs cancelled w).1 ∧
      (e.openNamed env' name specs cancelled w').2.1 = (e.openNamed env name specs cancelled w).2.1 ∧
      same (e.openNamed env name specs cancelled w).2.2 (e.openNamed env' name specs cancelled w').2.2 := by
  have htwins := twins_openModule h hdisabled specs cancelled hw
  obtain ⟨hresult, hengine, hworld⟩ := htwins
  cases hopen : (e.openModule env specs cancelled w).1 with
  | error err =>
    rw [openNamed_of_error hopen, openNamed_of_error (hresult.trans hopen)]
    exact ⟨rfl, hengine, hworld⟩
  | ok v =>
    rw [openNamed_of_ok hopen, openNamed_of_ok (hresult.trans hopen)]
    cases v.table? with
    | none => exact ⟨rfl, hengine, hworld⟩
    | some table =>
      refine ⟨rfl, ?_, hworld⟩
      dsimp only
      rw [hengine]

theorem twins_invalidate (hdisabled : e.options.disabled = true) (l : Location) (w w' : ω) :
    (e.invalidate env' l w').1 = (e.invalidate env l w).1 ∧
      (e.invalidate env' l w').2.1 = (e.invalidate env l w).2.1 ∧
      (same w w' → same (e.invalidate env l w).2.2 (e.invalidate env' l w').2.2) := by
  have hinvalidate : ∀ (env : Environment ω) (w : ω), e.invalidate env l w = (.ok (),
      { e with cache := ((e.cache.force l.cacheKey).evict l).2.report (.invalidated l.logicalPath) }, w) := by
    intro env w
    have hsettings : e.options.cacheSettings.disabled = true := hdisabled
    unfold Engine.invalidate Cache.invalidate
    rw [hsettings]
    rfl
  rw [hinvalidate env w, hinvalidate env' w']
  exact ⟨rfl, rfl, id⟩

end

/-! ### Runs -/

/-- The replies but for those to calls for counts, which tell of the store. -/
def History.withoutStats : History → History
  | [] => []
  | (.stats, _) :: rest => withoutStats rest
  | (call, reply) :: rest => (call, reply) :: withoutStats rest

theorem History.withoutStats_cons {call : Call} {reply reply' : Reply} {rest rest' : History}
    (h : call ≠ .stats → reply' = reply) (hrest : withoutStats rest' = withoutStats rest) :
    withoutStats ((call, reply') :: rest') = withoutStats ((call, reply) :: rest) := by
  cases call with
  | stats => exact hrest
  | _ =>
    rw [h nofun]
    exact congrArg (List.cons _) hrest

namespace Client

variable {c c' : Client ω} {turns : List (Turn ω)}

theorem options_call (c : Client ω) (call : Call) :
    (c.call env call).2.engine.options = c.engine.options := by
  cases call with
  | openModule specs cancelled => rfl
  | openNamed name specs cancelled =>
    obtain ⟨modules, hopen⟩ := openNamed_eq env c.engine name specs cancelled c.world
    show (c.engine.openNamed env name specs cancelled c.world).2.1.options = _
    rw [hopen]
    rfl
  | release name =>
    show (c.engine.release name).2.options = _
    cases hfind : c.engine.modules.find? name with
    | none => rw [release_unknown hfind]
    | some record => rw [(release_without hfind).1.rest]
  | evict l => rfl
  | invalidate l => rfl
  | clearStore => rfl
  | stats => rfl
  | query n options request =>
    obtain ⟨events, hengine⟩ := c.ask_engine n options request
    have hoptions : (c.ask n options request).2.engine.options = c.engine.options := by rw [hengine]
    exact hoptions

/-- Clients that are the same but for their worlds, and these are the same for the containers. -/
structure Twins (same : ω → ω → Prop) (c c' : Client ω) : Prop where
  engine : c'.engine = c.engine
  views : c'.views = c.views
  world : same c.world c'.world

/-- Without a look at the store the calls go on in one world as in the other. -/
theorem twins_call (henv : env.Twins env' same) (h : c.Twins same c')
    (hdisabled : c.engine.options.disabled = true) {call : Call} (hclear : call ≠ .clearStore) :
    (call ≠ .stats → (c'.call env' call).1 = (c.call env call).1) ∧
      (c.call env call).2.Twins same (c'.call env' call).2 := by
  obtain ⟨e, w, views⟩ := c
  obtain ⟨e', w', views'⟩ := c'
  obtain ⟨rfl, rfl, hw⟩ := h
  cases call with
  | openModule specs cancelled =>
    obtain ⟨hresult, hengine, hworld⟩ := twins_openModule henv hdisabled specs cancelled hw
    exact ⟨fun _ => congrArg Reply.opened hresult, hengine,
      congrArg (viewsWith ⟨e', w', views'⟩) hresult, hworld⟩
  | openNamed name specs cancelled =>
    obtain ⟨hresult, hengine, hworld⟩ := twins_openNamed henv hdisabled name specs cancelled hw
    exact ⟨fun _ => congrArg (fun r : Option (Except ScanError View) => r.elim Reply.brokenOff .opened) hresult,
      hengine, congrArg (fun r => Option.elim r views' (viewsWith ⟨e', w', views'⟩)) hresult, hworld⟩
  | release name => exact ⟨fun _ => rfl, rfl, rfl, hw⟩
  | evict l => exact ⟨fun _ => rfl, rfl, rfl, hw⟩
  | invalidate l =>
    obtain ⟨hresult, hengine, hworld⟩ := twins_invalidate hdisabled l w w'
    exact ⟨fun _ => congrArg Reply.invalidated hresult, hengine, rfl, hworld hw⟩
  | clearStore => exact absurd rfl hclear
  | stats => exact ⟨fun h => absurd rfl h, rfl, rfl, hw⟩
  | query n options request =>
    have hask := ask_world ⟨e', w, views'⟩ w' n options request
    have htwins : (ask ⟨e', w', views'⟩ n options request).1 = (ask ⟨e', w, views'⟩ n options request).1 ∧
        Twins same (ask ⟨e', w, views'⟩ n options request).2 (ask ⟨e', w', views'⟩ n options request).2 := by
      rw [show ask ⟨e', w', views'⟩ n options request = _ from hask]
      refine ⟨rfl, rfl, rfl, ?_⟩
      show same (ask ⟨e', w, views'⟩ n options request).2.world w'
      rw [world_ask]
      exact hw
    exact ⟨fun _ => htwins.1, htwins.2⟩

/-- And so does a whole run. -/
theorem twins_run (henv : env.Twins env' same) (h : c.Twins same c')
    (hdisabled : c.engine.options.disabled = true) (hclear : ∀ t ∈ turns, t.call ≠ .clearStore)
    (hchange : ∀ t ∈ turns, ∀ w w', same w w' → same (t.change w) (t.change w')) :
    (run env' turns c').1.withoutStats = (run env turns c).1.withoutStats ∧
      (run env turns c).2.Twins same (run env' turns c').2 := by
  induction turns generalizing c c' with
  | nil => exact ⟨rfl, h⟩
  | cons t turns ih =>
    have hchanged : Twins same { c with world := t.change c.world } { c' with world := t.change c'.world } :=
      ⟨h.engine, h.views, hchange t List.mem_cons_self _ _ h.world⟩
    obtain ⟨hreply, hnext⟩ := twins_call henv hchanged hdisabled (hclear t List.mem_cons_self)
    have hoptions : (c.turn env t).2.engine.options.disabled = true := by
      rw [← hdisabled]
      exact congrArg EngineOptions.disabled (options_call _ t.call)
    obtain ⟨hreplies, hend⟩ := ih hnext hoptions (fun t' ht' => hclear t' (List.mem_cons_of_mem _ ht'))
      fun t' ht' => hchange t' (List.mem_cons_of_mem _ ht')
    exact ⟨History.withoutStats_cons hreply hreplies, hend⟩

end Client

end ClassCatalog.Engine
