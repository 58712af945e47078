import ClassCatalog.Cache.Environment
import ClassCatalog.Cache.Event
import ClassCatalog.ClassFile.Record
import ClassCatalog.Index.Basic

/-!
# Reading a container

Every entry of a container is decoded and taken into an index: whole records, partial records with
the reason for what they lack, and for entries without a record the reason alone.
-/

namespace ClassCatalog

/-- Takes an entry into an index, and tells what went wrong with it. -/
def Index.take (index : Index) (e : ClassEntry) : Index × List Event :=
  match ClassFile.decode e.bytes with
  | .ok r => (index.insert e.name r, [])
  | .error fault =>
    let failed := index.recordFailure e.name fault.reason
    let event := Event.classFailed index.identity.path e.name fault.reason
    match fault with
    | .incomplete r _ => (failed.insert e.name r, [event])
    | .malformed _ => (failed, [event])

/-- What a scan has come to. -/
structure Scan where
  index : Index
  /-- How many entries were decoded. -/
  decoded : Nat := 0
  events : List Event := []
  /-- Whether the caller has asked to cancel. -/
  cancelled : Bool := false
  /-- Whether an entry was refused for that. -/
  stopped : Bool := false

/-- Takes deliveries into an index, up to the first entry after a request to cancel. -/
def Scan.run : List Delivery → Scan → Scan
  | [], s => s
  | .cancel :: rest, s => Scan.run rest { s with cancelled := true }
  | .entry e :: rest, s =>
    if s.cancelled then { s with stopped := true }
    else
      let (index, events) := s.index.take e
      Scan.run rest { s with index, decoded := s.decoded + 1, events := s.events ++ events }

def Index.ofEntries (identity : Identity) (entries : List ClassEntry) : Index :=
  entries.foldl (fun index e => (index.take e).1) { identity }

end ClassCatalog
