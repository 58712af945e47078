import ClassCatalog.Cache.Load

/-!
# Callers that share a cache

Any number of callers are at work on one cache. Each makes one call, step by step: a step is one look
at what all share, or one change of it, and between two steps of a caller the others make as many of
theirs as they like.

Loads of one container share the work. A load that finds no index in memory takes the cell that is set
up under the container's key, or sets one up. The first that finds its cell empty fills it, that is,
it gets the index from memory, from the store or anew; the others wait. Whoever has the result takes
the cell down if it is still the one under the key, and returns. But if the result is only that
somebody else has asked to cancel, it starts over with the cell that is set up by then.

What an enumeration delivers is settled when it begins; requests to cancel arrive at any time.
-/

namespace ClassCatalog

namespace Loading

variable {ω : Type} (env : Environment ω) (settings : CacheSettings)

/-- Whether a container is to be made anew, which is forgotten. -/
def takeForce (key : String) : Loading ω Bool := do
  let s ← get
  onCache fun c => c.unforce key
  return s.cache.forced.contains key

/-- The index in memory for a container, reported if there is one. -/
def recollect (key : String) (forced : Bool) (current : Identity) : Loading ω (Option Loaded) := do
  let hit ← remembered settings key forced current
  if hit.isSome then report (.hit current.path false)
  return hit

/-- Begins to read a container. -/
def openContainer (l : Location) : Loading ω Enumeration := do
  onCache fun c => { c with decodePasses := c.decodePasses + 1 }
  enumerate env l

/-- Takes one delivery into an index; an entry after a request to cancel is refused. -/
def takeDelivery (current : Identity) (index : Index) (d : Delivery) : Loading ω Index := do
  let s ← get
  let scan := Scan.run [d] { index, cancelled := s.cancelled }
  set { s with
    cancelled := scan.cancelled
    cache := { s.cache with
      decodeCalls := s.cache.decodeCalls + scan.decoded
      events := s.cache.events ++ scan.events } }
  if scan.stopped then throw (.cancelled current.path)
  return scan.index

/-- The index of a container that has been read to the end. -/
def closeContainer (l : Location) (current : Identity) (failure : Option String) (index : Index) :
    Loading ω Index := do
  match failure with
  | some reason => throw (.containerUnreadable l.logicalPath reason)
  | none =>
    let mine ← isCancelled
    if mine then throw (.cancelled current.path)
    if index.incomplete then
      report (.partialScan current.path index.failures.length index.classes.size)
    return index

end Loading

/-- How far the filling of a cell has come. -/
inductive Filling where
  /-- It has yet to see whether the container is to be made anew. -/
  | begun
  /-- It has yet to look in memory. -/
  | flagged (forced : Bool)
  /-- It has yet to ask the store. -/
  | missed (forced : Bool)
  /-- It has yet to begin to read the container. -/
  | opening (forced : Bool)
  /-- It has yet to take these deliveries. -/
  | reading (forced : Bool) (rest : List Delivery) (failure : Option String) (index : Index)
  /-- It has failed, and a container to be made anew still has to be. -/
  | failed (forced : Bool) (e : ScanError)
  /-- It has yet to store the index. -/
  | built (index : Index)
  /-- It has yet to put the index into memory. -/
  | kept (index : Index)
  | ended (result : Except ScanError Loaded)
  deriving Inhabited

namespace Filling

open Loading

variable {ω : Type} (env : Environment ω) (settings : CacheSettings)

/-- The next step of a filling. -/
def step (key : String) (l : Location) (current : Identity) : Filling → Loading ω Filling
  | begun => do
    let forced ← takeForce key
    return flagged forced
  | flagged forced => do
    let hit ← recollect settings key forced current
    match hit with
    | some loaded => return ended (.ok loaded)
    | none => return missed forced
  | missed forced => do
    let stored ← fromStore env settings key forced current
    match stored with
    | .ok index => do
      report (.hit current.path true)
      return kept index
    | .error reason => do
      report (.miss current.path reason)
      return opening forced
  | opening forced =>
    tryCatch (do
      let course ← openContainer env l
      return reading forced course.deliveries course.failure { identity := current })
      fun e => return failed forced e
  | reading forced (d :: rest) failure index =>
    tryCatch (do
      let index ← takeDelivery current index d
      return reading forced rest failure index)
      fun e => return failed forced e
  | reading forced [] failure index =>
    tryCatch (do
      let index ← closeContainer l current failure index
      return built index)
      fun e => return failed forced e
  | failed forced e => do
    if forced then onCache fun c => c.force key
    return ended (.error e)
  | built index => do
    unless settings.disabled do persist env key index
    return kept index
  | kept index => do
    let loaded ← publish key index
    return ended (.ok loaded)
  | ended result => return ended result

end Filling

/-- How far a load has come. -/
inductive LoadStage where
  | ready
  /-- The identity of the container could not be learned. -/
  | refused (e : ScanError)
  /-- It has yet to see whether the container is to be made anew. -/
  | resolved (current : Identity)
  /-- It has yet to look in memory. -/
  | recalling (current : Identity)
  /-- It has yet to take a cell. -/
  | seeking (current : Identity)
  /-- It has a cell, which it fills if nobody does. -/
  | holding (current : Identity) (cell : Nat)
  | filling (current : Identity) (cell : Nat) (f : Filling)
  /-- It has yet to take the cell down. -/
  | leaving (current : Identity) (cell : Nat) (result : Except ScanError Loaded)
  /-- It has yet to return or start over. -/
  | deciding (current : Identity) (result : Except ScanError Loaded)
  | returned (current : Identity) (result : Except ScanError Loaded)
  deriving Inhabited

/-- How far the invalidation of a container has come. -/
inductive InvalidationStage where
  | ready
  /-- The container is to be made anew; its index has yet to be taken out of memory. -/
  | forced
  /-- The index has yet to be taken out of the store. -/
  | dropped
  | returned (result : Except StoreError Unit)
  deriving Inhabited

/-- A call, and how far it has come. -/
inductive Caller where
  | load (l : Location) (stage : LoadStage)
  /-- With the answer, once it is given. -/
  | evict (l : Location) (was : Option Bool)
  | invalidate (l : Location) (stage : InvalidationStage)
  deriving Inhabited

/-- What is in a cell. -/
inductive Cell where
  | empty
  /-- Some caller fills it. -/
  | taken
  | filled (result : Except ScanError Loaded)
  deriving Inhabited

/-- Callers at work on one cache. -/
structure Crowd (ι ω : Type) where
  cache : Cache := {}
  world : ω
  /-- The cells that are set up, by the keys of the containers. -/
  cells : NameMap Nat := ∅
  contents : Nat → Cell := fun _ => .empty
  nextCell : Nat := 0
  callers : ι → Caller
  /-- What each caller looks at to see whether it has been asked to cancel. -/
  token : ι → Nat
  cancelled : Nat → Bool := fun _ => false

namespace Crowd

variable {ι ω α : Type} [DecidableEq ι] (env : Environment ω) (settings : CacheSettings)

/-- What all share, as a caller sees it. -/
def session (s : Crowd ι ω) (i : ι) : Session ω := ⟨s.cache, s.world, s.cancelled (s.token i)⟩

/-- A caller has come further. -/
def moved (s : Crowd ι ω) (i : ι) (c : Caller) : Crowd ι ω :=
  { s with callers := fun j => if j = i then c else s.callers j }

/-- A caller's step on what all share. -/
def act (s : Crowd ι ω) (i : ι) (p : Loading ω α) (next : Except ScanError α → Caller) :
    Crowd ι ω :=
  let r := p.run.run (s.session i)
  moved { s with
    cache := r.2.cache
    world := r.2.world
    cancelled := fun k => if k = s.token i then r.2.cancelled else s.cancelled k } i (next r.1)

def withContents (s : Crowd ι ω) (cell : Nat) (x : Cell) : Crowd ι ω :=
  { s with contents := fun c => if c = cell then x else s.contents c }

/-- Takes the cell under a key, and sets one up if there is none. -/
def seek (s : Crowd ι ω) (i : ι) (l : Location) (current : Identity) : Crowd ι ω :=
  match s.cells.find? l.cacheKey with
  | some cell => s.moved i (.load l (.holding current cell))
  | none =>
    moved { s with
      cells := s.cells.insert l.cacheKey s.nextCell
      nextCell := s.nextCell + 1 } i (.load l (.holding current s.nextCell))

/-- Takes a cell down, if it is the one under the key. -/
def takeDown (s : Crowd ι ω) (key : String) (cell : Nat) : Crowd ι ω :=
  if s.cells.find? key = some cell then { s with cells := s.cells.erase key } else s

/-- Whether a load has come to nothing because somebody else asked to cancel. -/
def isForeign (s : Crowd ι ω) (i : ι) : Except ScanError Loaded → Bool
  | .error (.cancelled _) => !s.cancelled (s.token i)
  | _ => false

/-- The next step of a load, unless it is over or waits for somebody to fill its cell. -/
def stepLoad (s : Crowd ι ω) (i : ι) (l : Location) : LoadStage → Option (Crowd ι ω)
  | .ready => some <| s.act i (Loading.resolve env settings l) fun
    | .ok current => .load l (.resolved current)
    | .error e => .load l (.refused e)
  | .resolved current => some <| s.moved i <| .load l <|
    if s.cache.forced.contains l.cacheKey then .seeking current else .recalling current
  | .recalling current =>
    some <| s.act i (Loading.recollect settings l.cacheKey false current) fun
    | .ok (some loaded) => .load l (.returned current (.ok loaded))
    | .ok none => .load l (.seeking current)
    | .error e => .load l (.returned current (.error e))
  | .seeking current => some (s.seek i l current)
  | .holding current cell =>
    match s.contents cell with
    | .empty => some <| (s.withContents cell .taken).moved i (.load l (.filling current cell .begun))
    | .taken => none
    | .filled result => some <| s.moved i (.load l (.leaving current cell result))
  | .filling current cell (.ended result) =>
    some <| (s.withContents cell (.filled result)).moved i (.load l (.leaving current cell result))
  | .filling current cell f =>
    some <| s.act i (f.step env settings l.cacheKey l current) fun
    | .ok f => .load l (.filling current cell f)
    | .error e => .load l (.filling current cell (.ended (.error e)))
  | .leaving current cell result =>
    some <| (s.takeDown l.cacheKey cell).moved i (.load l (.deciding current result))
  | .deciding current result => some <| s.moved i <| .load l <|
    if s.isForeign i result then .seeking current else .returned current result
  | .refused _ => none
  | .returned .. => none

/-- The next step of an invalidation, unless it is over. -/
def stepInvalidation (s : Crowd ι ω) (i : ι) (l : Location) :
    InvalidationStage → Option (Crowd ι ω)
  | .ready =>
    some <| moved { s with cache := s.cache.force l.cacheKey } i (.invalidate l .forced)
  | .forced =>
    some <| moved { s with cache := (s.cache.evict l).2.report (.invalidated l.logicalPath) } i
      (.invalidate l .dropped)
  | .dropped =>
    if settings.disabled then some <| s.moved i (.invalidate l (.returned (.ok ())))
    else
      let r := env.store.delete l.cacheKey s.world
      some <| moved { s with world := r.2 } i <| .invalidate l <| .returned <|
        match r.1 with
        | .ok _ => .ok ()
        | .error .readOnly => .ok ()
        | .error e => .error e
  | .returned _ => none

/-- The next step of a caller, if it can take one. -/
def step (s : Crowd ι ω) (i : ι) : Option (Crowd ι ω) :=
  match s.callers i with
  | .load l stage => s.stepLoad env settings i l stage
  | .evict l none =>
    some <| moved { s with cache := (s.cache.evict l).2 } i (.evict l (some (s.cache.evict l).1))
  | .evict _ (some _) => none
  | .invalidate l stage => s.stepInvalidation env settings i l stage

/-- Gives callers turns, one after the other. Whoever cannot take a step is passed over. -/
def play (s : Crowd ι ω) (turns : List ι) : Crowd ι ω :=
  turns.foldl (fun s i => (s.step env settings i).getD s) s

end Crowd

end ClassCatalog
