import ClassCatalog.Cache.Load
import ClassCatalog.Query

/-!
# Engines

An engine opens modules: it loads the containers of a list and merges them into a view. It remembers
under a name which containers a module has, so that releasing the module takes those out of memory
that no other module has.
-/

namespace ClassCatalog

/-- How an engine is to work. -/
structure EngineOptions where
  /-- Where the store lives; without it, the default place. -/
  cachePath : Option String := none
  disabled : Bool := false
  readOnly : Bool := false
  alwaysValid : Bool := false
  identityPolicy : IdentityPolicy := .timestampSize
  /-- How many containers may be loaded at a time; without it, what the machine suggests. -/
  scanThreads : Option Nat := none
  logQueries : Bool := false
  /-- The prefixes of platform types. -/
  platform : List String := defaultPlatformPrefixes
  deriving DecidableEq, Repr, Inhabited

namespace EngineOptions

/-- The part of the options that concerns the cache. -/
def cacheSettings (o : EngineOptions) : CacheSettings :=
  ⟨o.disabled, o.alwaysValid, o.identityPolicy⟩

def queryOptions (o : EngineOptions) : QueryOptions := { platform := o.platform }

end EngineOptions

/-- What is remembered of a module that was opened under a name. -/
structure ModuleRecord where
  table : List ContainerRow
  containers : List Location
  deriving DecidableEq, Repr, Inhabited

/-- A cache, the options it works under and the modules opened under a name. -/
structure Engine where
  options : EngineOptions := {}
  cache : Cache := {}
  modules : NameMap ModuleRecord := ∅
  deriving Inhabited

structure EngineStats where
  store : String
  storedIndexes : Nat
  publishedIndexes : Nat
  decodeCalls : Nat
  decodePasses : Nat
  cacheHits : Nat
  storeHits : Nat
  cacheMisses : Nat
  corruptEntries : Nat
  classFailures : Nat
  partialScans : Nat
  writes : Nat
  writeFailures : Nat
  invalidations : Nat
  queries : Nat
  deriving DecidableEq, Repr

/-- Whether two locations are one: of one kind, with the same path components and the same entry. -/
def Location.same : Location → Location → Bool
  | directory p, directory q => FilePath.same p q
  | archive p, archive q => FilePath.same p q
  | nested p e, nested q f => FilePath.same p q && e == f
  | _, _ => false

namespace Engine

variable {ω : Type} (env : Environment ω)

/-- The environment as the engine may use it. -/
def restricted (e : Engine) : Environment ω :=
  { env with store := env.store.restrict e.options.readOnly }

/-- Loads containers one after the other, each whatever came of the others. -/
def loadAll (env : Environment ω) (settings : CacheSettings) :
    List ContainerSpec → Session ω → List (Except ScanError ViewContainer) × Session ω
  | [], s => ([], s)
  | spec :: rest, s =>
    let (result, s) := (Loading.load env settings spec.location).run s
    let loaded := result.map fun l => (⟨spec, l.index, l.serial⟩ : ViewContainer)
    let (others, s) := loadAll env settings rest s
    (loaded :: others, s)

/-- The list of all results, or the first error. -/
def allOk : List (Except ScanError ViewContainer) → Except ScanError (List ViewContainer)
  | [] => .ok []
  | .error e :: _ => .error e
  | .ok c :: rest => (allOk rest).map (c :: ·)

/-- Opens a module. Every container is loaded, and the first that fails is the module's failure. -/
def openModule (e : Engine) (specs : List ContainerSpec) (cancelled : Bool) (world : ω) :
    Except ScanError View × Engine × ω :=
  let (results, s) :=
    loadAll (e.restricted env) e.options.cacheSettings specs ⟨e.cache, world, cancelled⟩
  ((allOk results).map View.ofContainers, { e with cache := s.cache }, s.world)

/-- Opens a module and remembers its containers under a name. If the view has no table, this is broken off before
anything is remembered. -/
def openNamed (e : Engine) (name : String) (specs : List ContainerSpec) (cancelled : Bool)
    (world : ω) : Option (Except ScanError View) × Engine × ω :=
  match e.openModule env specs cancelled world with
  | (.error err, e, world) => (some (.error err), e, world)
  | (.ok v, e, world) =>
    match v.table? with
    | none => (none, e, world)
    | some table =>
      (some (.ok v), { e with modules := e.modules.insert name ⟨table, specs.map (·.location)⟩ }, world)

/-- Whether some module has a container. -/
def uses (e : Engine) (l : Location) : Bool :=
  e.modules.values.any fun record => record.containers.any fun m => m.same l

/-- Takes those containers out of memory that no module has, and counts them. -/
def evictUnused (e : Engine) : List Location → Nat × Engine
  | [] => (0, e)
  | l :: rest =>
    if e.uses l then evictUnused e rest
    else
      let (was, cache) := e.cache.evict l
      let (count, e) := evictUnused { e with cache } rest
      (count + if was then 1 else 0, e)

/-- Forgets a module and takes the containers that only it has out of memory. -/
def release (e : Engine) (name : String) : Nat × Engine :=
  match e.modules.find? name with
  | none => (0, e)
  | some record => evictUnused { e with modules := e.modules.erase name } record.containers

/-- Takes a container's index out of memory. -/
def evict (e : Engine) (l : Location) : Bool × Engine :=
  let (was, cache) := e.cache.evict l
  (was, { e with cache })

/-- Has a container made anew when it is next opened. -/
def invalidate (e : Engine) (l : Location) (world : ω) : Except StoreError Unit × Engine × ω :=
  let (result, cache, world) :=
    e.cache.invalidate (e.restricted env).store e.options.cacheSettings l world
  (result, { e with cache }, world)

/-- Empties the store. -/
def clearStore (e : Engine) (world : ω) : Except StoreError Unit × ω :=
  (e.restricted env).store.clear world

/-- Answers a query and reports that it did. -/
def query (e : Engine) (v : View) (options : QueryOptions) (request : Query.Request)
    (memo : View.Memo) : Except ScanError Query.Answer × Engine × View.Memo :=
  match (request.run v options).run.run memo with
  | (.ok answer, memo) =>
    (.ok answer,
      { e with cache := e.cache.report (.query request.kind request.target answer.size) }, memo)
  | (.error err, memo) => (.error err, e, memo)

/-- Counts of the engine's work and of what it keeps. -/
def stats (e : Engine) (world : ω) : Except StoreError EngineStats := do
  let store := (e.restricted env).store
  let stored ← store.size world
  let events := e.cache.events
  return {
    store := store.description
    storedIndexes := stored
    publishedIndexes := e.cache.published.size
    decodeCalls := e.cache.decodeCalls
    decodePasses := e.cache.decodePasses
    cacheHits := events.countP Event.isHit
    storeHits := events.countP Event.isStoreHit
    cacheMisses := events.countP Event.isMiss
    corruptEntries := events.countP Event.isCorrupt
    classFailures := events.countP Event.isClassFailure
    partialScans := events.countP Event.isPartialScan
    writes := events.countP Event.isWrite
    writeFailures := events.countP Event.isWriteFailure
    invalidations := events.countP Event.isInvalidation
    queries := events.countP Event.isQuery }

end Engine

end ClassCatalog
