/-!
# Events

What the cache reports while it works, and the counts that are kept of it.
-/

namespace ClassCatalog

/-- Why the classes of a container had to be read. -/
inductive MissReason where
  | absent
  | stale
  | corrupt
  | forced
  | disabled
  deriving DecidableEq, Repr

def MissReason.name : MissReason → String
  | absent => "absent"
  | stale => "stale"
  | corrupt => "corrupt"
  | forced => "forced"
  | disabled => "disabled"

inductive Event where
  | hit (path : String) (fromStore : Bool)
  | miss (path : String) (reason : MissReason)
  | classFailed (path entry reason : String)
  | partialScan (path : String) (failures classes : Nat)
  | written (path : String) (bytes : Nat)
  | writeFailed (path reason : String)
  | corrupt (path reason : String)
  | invalidated (path : String)
  | query (kind target : String) (results : Nat)
  deriving DecidableEq, Repr

namespace Event

/-- Whether an index was at hand. -/
def isHit : Event → Bool
  | hit .. => true
  | _ => false

/-- Whether an index came from the store. -/
def isStoreHit : Event → Bool
  | hit _ fromStore => fromStore
  | _ => false

/-- Whether a container had to be read. -/
def isMiss : Event → Bool
  | miss .. => true
  | _ => false

def isClassFailure : Event → Bool
  | classFailed .. => true
  | _ => false

/-- Whether a container was read with failures. -/
def isPartialScan : Event → Bool
  | partialScan .. => true
  | _ => false

/-- Whether an index was stored. -/
def isWrite : Event → Bool
  | written .. => true
  | _ => false

def isWriteFailure : Event → Bool
  | writeFailed .. => true
  | _ => false

/-- Whether stored bytes were no index. -/
def isCorrupt : Event → Bool
  | corrupt .. => true
  | _ => false

def isInvalidation : Event → Bool
  | invalidated .. => true
  | _ => false

def isQuery : Event → Bool
  | query .. => true
  | _ => false

end Event

end ClassCatalog
