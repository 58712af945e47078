import ClassCatalog.Engine.Basic
import ClassCatalog.Proofs.Cache.Keeps

/-!
# Runs of an engine

A `Client` has an engine, the world it works on and the views it has opened. One `Call` follows the other,
and what happens to the containers in between is part of a `Turn`. A run keeps its `History`: what was
called and what was replied, from which the modules that the engine has can be told.
-/

namespace ClassCatalog.Engine

/-- What can be asked of an engine and of the views it has opened. -/
inductive Call where
  | openModule (specs : List ContainerSpec) (cancelled : Bool)
  | openNamed (name : String) (specs : List ContainerSpec) (cancelled : Bool)
  | release (name : String)
  | evict (l : Location)
  | invalidate (l : Location)
  | clearStore
  | stats
  /-- Asks the view with this number, in the order in which they were opened. -/
  | query (view : Nat) (options : QueryOptions) (request : Query.Request)

inductive Reply where
  | opened (result : Except ScanError View)
  /-- There was no end to the call. -/
  | brokenOff
  | released (evicted : Nat)
  | evicted (was : Bool)
  | invalidated (result : Except StoreError Unit)
  | cleared (result : Except StoreError Unit)
  | counted (result : Except StoreError EngineStats)
  | answered (result : Except ScanError Query.Answer)
  | noView

/-- An engine at work: with its world, and with the views it has opened and the answers they keep. -/
structure Client (ω : Type) where
  engine : Engine
  world : ω
  views : List (View × View.Memo) := []

/-- A call, and what happens before it. -/
structure Turn (ω : Type) where
  change : ω → ω
  call : Call

abbrev History := List (Call × Reply)

/-- The modules after a call. -/
def Call.recorded (modules : NameMap ModuleRecord) : Call → Reply → NameMap ModuleRecord
  | openNamed name specs _, .opened (.ok v) =>
    match v.table? with
    | some table => modules.insert name ⟨table, specs.map (·.location)⟩
    | none => modules
  | release name, _ => modules.erase name
  | _, _ => modules

/-- The modules opened under a name and not released. -/
def History.modules (h : History) : NameMap ModuleRecord :=
  h.foldl (fun modules (call, reply) => call.recorded modules reply) ∅

section
variable {ω : Type} {env : Environment ω} {e : Engine} {specs : List ContainerSpec} {cancelled : Bool}
  {w : ω}

/-- What the load of each container keeps, the loads of all of them keep. -/
theorem keeps_loadAll {settings : CacheSettings} {R : Session ω → Session ω → Prop}
    (htolerates : Loading.Tolerates env R)
    (h : ∀ spec ∈ specs, Loading.Keeps R (Loading.load env settings spec.location)) (s : Session ω) :
    R s (loadAll env settings specs s).2 := by
  induction specs generalizing s with
  | nil => exact htolerates.refl s
  | cons spec specs ih =>
    have hload : wp (Loading.load env settings spec.location) _ s := h spec List.mem_cons_self s
    exact htolerates.trans hload (ih (fun other hother => h other (List.mem_cons_of_mem _ hother)) _)

/-- If the load of each container settles, the loads of all of them fail as one of them does, or give what each
gives. -/
theorem settles_loadAll {settings : CacheSettings} {I : Session ω → Prop} {F : ContainerSpec → ScanError → Prop}
    {R : ContainerSpec → Index → Prop}
    (h : ∀ spec ∈ specs,
      Settles I (F spec) (fun loaded => R spec loaded.index) (Loading.load env settings spec.location))
    {s : Session ω} (hs : I s) :
    Settled (fun err => ∃ spec ∈ specs, F spec err) (fun cs => ∀ c ∈ cs, c.spec ∈ specs ∧ R c.spec c.index)
      (allOk (loadAll env settings specs s).1) := by
  induction specs generalizing s with
  | nil => exact nofun
  | cons spec specs ih =>
    have hload : wp (Loading.load env settings spec.location) _ s := h spec List.mem_cons_self s hs
    obtain ⟨hsettled, hs'⟩ := hload
    unfold loadAll
    change Settled _ _ (allOk (Except.map _ ((Loading.load env settings spec.location).run.run s).1 ::
      (loadAll env settings specs ((Loading.load env settings spec.location).run.run s).2).1))
    generalize (Loading.load env settings spec.location).run.run s = ran at hsettled hs' ⊢
    obtain ⟨r, s'⟩ := ran
    have hrest := ih (fun other hother => h other (List.mem_cons_of_mem _ hother)) hs'
    cases r with
    | error e => exact ⟨spec, List.mem_cons_self, hsettled⟩
    | ok loaded =>
      rw [Except.map, allOk]
      cases hothers : allOk (loadAll env settings specs s').1 with
      | error e =>
        rw [hothers] at hrest
        obtain ⟨other, hother, he⟩ := hrest
        exact ⟨other, List.mem_cons_of_mem _ hother, he⟩
      | ok cs =>
        rw [hothers] at hrest
        refine List.forall_mem_cons.2 ⟨⟨List.mem_cons_self, hsettled⟩, fun c hc => ?_⟩
        exact ⟨List.mem_cons_of_mem _ (hrest c hc).1, (hrest c hc).2⟩

theorem openNamed_of_error {err : ScanError} (h : (e.openModule env specs cancelled w).1 = .error err)
    (name : String) : e.openNamed env name specs cancelled w =
      (some (.error err), (e.openModule env specs cancelled w).2) := by
  unfold openNamed
  generalize e.openModule env specs cancelled w = o at *
  obtain ⟨result, e', w'⟩ := o
  dsimp only at h
  subst h
  rfl

/-- Without a table an open that succeeds is broken off; with one the containers are recorded. -/
theorem openNamed_of_ok {v : View} (h : (e.openModule env specs cancelled w).1 = .ok v) (name : String) :
    e.openNamed env name specs cancelled w =
      match v.table? with
      | none => (none, (e.openModule env specs cancelled w).2)
      | some table => (some (.ok v), { (e.openModule env specs cancelled w).2.1 with
            modules := e.modules.insert name ⟨table, specs.map (·.location)⟩ },
          (e.openModule env specs cancelled w).2.2) := by
  have hmodules : (e.openModule env specs cancelled w).2.1.modules = e.modules := rfl
  unfold openNamed
  generalize e.openModule env specs cancelled w = o at *
  obtain ⟨result, e', w'⟩ := o
  dsimp only at h hmodules
  subst h
  dsimp only
  cases v.table? with
  | none => rfl
  | some table => simp only [hmodules]

/-- An open under a name is an open that fails, or has no table and is broken off, or is recorded. -/
inductive NamedOpen (env : Environment ω) (e : Engine) (name : String) (specs : List ContainerSpec)
    (cancelled : Bool) (w : ω) : Prop
  | failed {err : ScanError} (hopen : (e.openModule env specs cancelled w).1 = .error err)
      (h : e.openNamed env name specs cancelled w = (some (.error err), (e.openModule env specs cancelled w).2))
  | brokenOff {v : View} (hopen : (e.openModule env specs cancelled w).1 = .ok v) (htable : v.table? = none)
      (h : e.openNamed env name specs cancelled w = (none, (e.openModule env specs cancelled w).2))
  | recorded {v : View} {table : List ContainerRow} (hopen : (e.openModule env specs cancelled w).1 = .ok v)
      (htable : v.table? = some table)
      (h : e.openNamed env name specs cancelled w =
        (some (.ok v), { (e.openModule env specs cancelled w).2.1 with
            modules := e.modules.insert name ⟨table, specs.map (·.location)⟩ },
          (e.openModule env specs cancelled w).2.2))

theorem openNamed_cases (env : Environment ω) (e : Engine) (name : String) (specs : List ContainerSpec)
    (cancelled : Bool) (w : ω) : NamedOpen env e name specs cancelled w := by
  cases hopen : (e.openModule env specs cancelled w).1 with
  | error err => exact .failed hopen (openNamed_of_error hopen name)
  | ok v =>
    have h := openNamed_of_ok hopen name
    cases htable : v.table? with
    | none =>
      rw [htable] at h
      exact .brokenOff hopen htable h
    | some table =>
      rw [htable] at h
      exact .recorded hopen htable h

/-- But for the record, an open under a name is an open. -/
theorem openNamed_eq (env : Environment ω) (e : Engine) (name : String) (specs : List ContainerSpec)
    (cancelled : Bool) (w : ω) : ∃ modules, (e.openNamed env name specs cancelled w).2 =
      ({ (e.openModule env specs cancelled w).2.1 with modules }, (e.openModule env specs cancelled w).2.2) := by
  cases openNamed_cases env e name specs cancelled w with
  | failed _ h => exact ⟨e.modules, congrArg Prod.snd h⟩
  | brokenOff _ _ h => exact ⟨e.modules, congrArg Prod.snd h⟩
  | recorded _ _ h => exact ⟨_, congrArg Prod.snd h⟩

end

namespace Client

variable {ω : Type}

/-- The views, and the one that was opened. -/
def viewsWith (c : Client ω) : Except ScanError View → List (View × View.Memo)
  | .ok v => c.views ++ [(v, {})]
  | .error _ => c.views

/-- Asks a view and keeps what it keeps of the answer. -/
def ask (c : Client ω) (n : Nat) (options : QueryOptions) (request : Query.Request) : Reply × Client ω :=
  match c.views[n]? with
  | none => (.noView, c)
  | some (v, memo) =>
    let (result, engine, memo) := c.engine.query v options request memo
    (.answered result, { c with engine, views := c.views.set n (v, memo) })

variable (env : Environment ω)

def call (c : Client ω) : Call → Reply × Client ω
  | .openModule specs cancelled =>
    let (result, engine, world) := c.engine.openModule env specs cancelled c.world
    (.opened result, ⟨engine, world, c.viewsWith result⟩)
  | .openNamed name specs cancelled =>
    let (result, engine, world) := c.engine.openNamed env name specs cancelled c.world
    (result.elim .brokenOff .opened, ⟨engine, world, result.elim c.views c.viewsWith⟩)
  | .release name =>
    let (evicted, engine) := c.engine.release name
    (.released evicted, { c with engine })
  | .evict l =>
    let (was, engine) := c.engine.evict l
    (.evicted was, { c with engine })
  | .invalidate l =>
    let (result, engine, world) := c.engine.invalidate env l c.world
    (.invalidated result, { c with engine, world })
  | .clearStore =>
    let (result, world) := c.engine.clearStore env c.world
    (.cleared result, { c with world })
  | .stats => (.counted (c.engine.stats env c.world), c)
  | .query n options request => c.ask n options request

def turn (c : Client ω) (t : Turn ω) : Reply × Client ω :=
  call env { c with world := t.change c.world } t.call

def run : List (Turn ω) → Client ω → History × Client ω
  | [], c => ([], c)
  | t :: turns, c =>
    let next := c.turn env t
    let rest := run turns next.2
    ((t.call, next.1) :: rest.1, rest.2)

/-- A query leaves nothing behind in the engine but its event. -/
theorem ask_engine (c : Client ω) (n : Nat) (options : QueryOptions) (request : Query.Request) :
    ∃ events, (c.ask n options request).2.engine =
      { c.engine with cache := { c.engine.cache with events := c.engine.cache.events ++ events } } := by
  have hsame : c.engine =
      { c.engine with cache := { c.engine.cache with events := c.engine.cache.events ++ [] } } := by
    rw [List.append_nil]
  unfold ask
  rcases c.views[n]? with - | ⟨v, memo⟩
  · exact ⟨[], hsame⟩
  · simp only [Engine.query]
    generalize (request.run v options).run.run memo = answered
    obtain ⟨result, memo'⟩ := answered
    cases result with
    | ok answer => exact ⟨_, rfl⟩
    | error err => exact ⟨[], hsame⟩

/-- A query does not look at the world. -/
theorem ask_world (c : Client ω) (w : ω) (n : Nat) (options : QueryOptions) (request : Query.Request) :
    ({ c with world := w } : Client ω).ask n options request =
      ((c.ask n options request).1, { (c.ask n options request).2 with world := w }) := by
  unfold ask
  cases c.views[n]? <;> rfl

theorem world_ask (c : Client ω) (n : Nat) (options : QueryOptions) (request : Query.Request) :
    (c.ask n options request).2.world = c.world :=
  congrArg (fun r => r.2.world) (c.ask_world c.world n options request)

variable {env}

theorem calls_run (turns : List (Turn ω)) (c : Client ω) :
    (run env turns c).1.map Prod.fst = turns.map (·.call) := by
  induction turns generalizing c with
  | nil => rfl
  | cons t turns ih => exact congrArg (t.call :: ·) (ih _)

/-- What every turn preserves, a run preserves. -/
theorem run_induction {P : Client ω → Prop} {turns : List (Turn ω)}
    (hturn : ∀ t ∈ turns, ∀ c, P c → P (c.turn env t).2) {c : Client ω} (h : P c) :
    P (run env turns c).2 := by
  induction turns generalizing c with
  | nil => exact h
  | cons t turns ih =>
    exact ih (fun t' ht' => hturn t' (List.mem_cons_of_mem _ ht')) (hturn t List.mem_cons_self c h)

end Client

end ClassCatalog.Engine
