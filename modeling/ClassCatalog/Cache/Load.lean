import ClassCatalog.Cache.Scan
import ClassCatalog.Index.Blob
import ClassCatalog.ScanError

/-!
# Loading the index of a container

An index is looked for among those in memory, then in the store, and is made anew from the container
if neither has one for the container's present identity. An invalidated container is made anew
whatever is at hand; that it is to be made anew is forgotten only when it has been.
-/

namespace ClassCatalog

/-- How the cache is to work. -/
structure CacheSettings where
  /-- Neither read nor write the store. -/
  disabled : Bool := false
  /-- Accept an index for its path alone. -/
  alwaysValid : Bool := false
  identityPolicy : IdentityPolicy := .timestampSize
  deriving DecidableEq, Repr, Inhabited

/-- An index in memory. -/
structure Loaded where
  index : Index
  /-- Which loading made it: two of one number are one. -/
  serial : Nat
  deriving Inhabited

/-- The indexes in memory, the containers to be made anew and an account of the work done. -/
structure Cache where
  published : NameMap Loaded := ∅
  forced : NameMap Unit := ∅
  /-- How many class files were decoded. -/
  decodeCalls : Nat := 0
  /-- How many containers were read. -/
  decodePasses : Nat := 0
  nextSerial : Nat := 0
  /-- Everything reported, in order. -/
  events : List Event := []
  deriving Inhabited

namespace Cache

def report (c : Cache) (e : Event) : Cache := { c with events := c.events ++ [e] }

/-- Puts an index into memory. -/
def publish (c : Cache) (key : String) (index : Index) : Loaded × Cache :=
  let loaded : Loaded := ⟨index, c.nextSerial⟩
  (loaded,
    { c with published := c.published.insert key loaded, nextSerial := c.nextSerial + 1 })

/-- Notes that a container is to be made anew. -/
def force (c : Cache) (key : String) : Cache := { c with forced := c.forced.insert key () }

/-- Notes that a container need not be made anew. -/
def unforce (c : Cache) (key : String) : Cache := { c with forced := c.forced.erase key }

end Cache

/-- All that a load can change. -/
structure Session (ω : Type) where
  cache : Cache
  world : ω
  /-- Whether the caller has asked to cancel. -/
  cancelled : Bool := false

abbrev Loading (ω : Type) := ExceptT ScanError (StateM (Session ω))

namespace Loading

variable {ω : Type} (env : Environment ω) (settings : CacheSettings)

def onCache (f : Cache → Cache) : Loading ω Unit := modify fun s => { s with cache := f s.cache }

def report (e : Event) : Loading ω Unit := onCache fun c => c.report e

def isCancelled : Loading ω Bool := do
  let s ← get
  return s.cancelled

/-- The course of an enumeration, unless it is interrupted. -/
def enumerate (l : Location) : Loading ω Enumeration := do
  let s ← get
  let (listing, world) := env.enumerate l s.world
  set { s with world }
  match listing with
  | .delivered course => return course
  | .interrupted => throw (.cancelled l.logicalPath)

def entriesDigest (l : Location) : Loading ω String := do
  let course ← enumerate env l
  modify fun s => { s with cancelled := s.cancelled || course.cancels }
  match course.failure with
  | some reason => throw (.containerUnreadable l.logicalPath reason)
  | none => return ClassEntry.digest course.entries

def digest (l : Location) : Loading ω String := do
  let s ← get
  match env.ownDigest l s.world with
  | some (.ok d) => return d
  | some (.error reason) => throw (.containerUnreadable l.logicalPath reason)
  | none => entriesDigest env l

/-- The present identity of a container. -/
def resolve (l : Location) : Loading ω Identity := do
  let s ← get
  match env.stat l s.world with
  | .error reason => throw (.containerUnreadable l.logicalPath reason)
  | .ok stat =>
    let digest ←
      match settings.identityPolicy with
      | .timestampSize => pure none
      | .contentDigest => do
        let d ← digest env l
        pure (some d)
    return ⟨l.logicalPath, stat.size, stat.lastModified, digest⟩

/-- Whether an index of one identity may stand for a container of another. -/
def accepts (stored current : Identity) : Bool :=
  if settings.alwaysValid then stored.path == current.path else stored == current

/-- The index in memory for a container, unless it is to be made anew. -/
def remembered (key : String) (forced : Bool) (current : Identity) : Loading ω (Option Loaded) := do
  let s ← get
  return if forced then none else
    (s.cache.published.find? key).filter fun loaded => accepts settings loaded.index.identity current

/-- The stored index of a container. -/
def readStored (key : String) (world : ω) : Except ScanError (Option Index) :=
  match env.store.get key world with
  | .error e => .error (.cacheCorrupt key e.message)
  | .ok none => .ok none
  | .ok (some bytes) =>
    match Blob.decode bytes with
    | .error e => .error (.cacheCorrupt key e.message)
    | .ok index => .ok (some index)

def rebuild (l : Location) (current : Identity) : Loading ω Index := do
  onCache fun c => { c with decodePasses := c.decodePasses + 1 }
  let course ← enumerate env l
  let s ← get
  let scan := Scan.run course.deliveries { index := { identity := current }, cancelled := s.cancelled }
  set { s with
    cancelled := scan.cancelled
    cache := { s.cache with
      decodeCalls := s.cache.decodeCalls + scan.decoded
      events := s.cache.events ++ scan.events } }
  if scan.stopped then throw (.cancelled current.path)
  match course.failure with
  | some reason => throw (.containerUnreadable l.logicalPath reason)
  | none =>
    if scan.cancelled then throw (.cancelled current.path)
    if scan.index.incomplete then
      report (.partialScan current.path scan.index.failures.length scan.index.classes.size)
    return scan.index

/-- Puts an index into the store. That the store refuses changes is no event. -/
def persist (key : String) (index : Index) : Loading ω Unit := do
  let blob := Blob.encode index
  let s ← get
  let (result, world) := env.store.put key blob s.world
  set { s with world }
  match result with
  | .ok () => report (.written index.identity.path blob.length)
  | .error .readOnly => pure ()
  | .error e => report (.writeFailed index.identity.path e.message)

/-- Puts an index into memory. -/
def publish (key : String) (index : Index) : Loading ω Loaded := do
  let s ← get
  let (loaded, cache) := s.cache.publish key index
  set { s with cache }
  return loaded

/-- What the store has for a container: an index, or why there is none. -/
def fromStore (key : String) (forced : Bool) (current : Identity) :
    Loading ω (Except MissReason Index) := do
  if settings.disabled then return .error .disabled
  if forced then return .error .forced
  let s ← get
  match readStored env key s.world with
  | .ok none => return .error .absent
  | .ok (some index) =>
    return if accepts settings index.identity current then .ok index else .error .stale
  | .error e => do
    report (.corrupt current.path e.message)
    return .error .corrupt

/-- Makes an index anew and keeps it. A container that had to be made anew and could not be still
has to be. -/
def renew (key : String) (l : Location) (current : Identity) (forced : Bool) :
    Loading ω Loaded := do
  let index ← tryCatch (rebuild env l current) fun e => do
    if forced then onCache fun c => c.force key
    throw e
  unless settings.disabled do persist env key index
  publish key index

/-- Takes an index from the store, or makes it anew. -/
def fetch (key : String) (l : Location) (current : Identity) (forced : Bool) :
    Loading ω Loaded := do
  let stored ← fromStore env settings key forced current
  match stored with
  | .ok index => do
    report (.hit current.path true)
    publish key index
  | .error reason => do
    report (.miss current.path reason)
    renew env settings key l current forced

/-- Loads an index of the present identity from memory, from the store or anew. -/
def attempt (key : String) (l : Location) (current : Identity) : Loading ω Loaded := do
  let s ← get
  let forced := s.cache.forced.contains key
  onCache fun c => c.unforce key
  let hit ← remembered settings key forced current
  match hit with
  | some loaded => do
    report (.hit current.path false)
    return loaded
  | none => fetch env settings key l current forced

/-- Tries again after each interruption that was not the caller's own request. -/
def attempts (key : String) (l : Location) (current : Identity) : Nat → Loading ω Loaded
  | 0 => attempt env settings key l current
  | n + 1 => tryCatch (attempt env settings key l current) fun e => do
    let mine ← isCancelled
    match e, mine with
    | .cancelled _, false => attempts key l current n
    | e, _ => throw e

/-- The index of a container. -/
def load (l : Location) : Loading ω Loaded := do
  let key := l.cacheKey
  let current ← resolve env settings l
  let s ← get
  let hit ← remembered settings key (s.cache.forced.contains key) current
  match hit with
  | some loaded => do
    report (.hit current.path false)
    return loaded
  | none => do
    let s ← get
    attempts env settings key l current (env.pending s.world)

end Loading

namespace Cache

/-- Takes a container's index out of memory, and tells whether there was one. -/
def evict (c : Cache) (l : Location) : Bool × Cache :=
  (c.published.contains l.cacheKey, { c with published := c.published.erase l.cacheKey })

/-- Takes a container's index out of memory and store, and has it made anew. A store that refuses
changes is left as it is. -/
def invalidate {ω : Type} (store : Store ω) (settings : CacheSettings) (c : Cache) (l : Location)
    (world : ω) : Except StoreError Unit × Cache × ω :=
  let key := l.cacheKey
  let c := ((c.force key).evict l).2.report (.invalidated l.logicalPath)
  if settings.disabled then (.ok (), c, world)
  else
    match store.delete key world with
    | (.ok _, world) => (.ok (), c, world)
    | (.error .readOnly, world) => (.ok (), c, world)
    | (.error e, world) => (.error e, c, world)

end Cache

end ClassCatalog
