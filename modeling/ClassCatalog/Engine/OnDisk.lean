import ClassCatalog.Container.OnDisk
import ClassCatalog.Engine.Variables
import ClassCatalog.Store.Database

/-!
# Engines on a disk

An engine on a disk keeps its indexes in the store its options name, or in memory if they turn the
store off. Removing a store takes away the file of the database and the one beside it, or a directory
with all that is in it.
-/

namespace ClassCatalog

/-- A failure of a store in words. -/
def StoreError.failure (e : StoreError) : Failure :=
  { message := e.message
    causes := match e with
      | .io reason => [reason]
      | _ => [] }

namespace Engine

/-- The store that options name, and the disk with what was made for it. -/
def storeFor (o : EngineOptions) (lookup : String → Option String) (d : Disk) :
    Except Failure (Store DiskWorld × Disk) := do
  if o.disabled then return (DiskWorld.inMemory, d)
  let path ← o.resolvedPath lookup
  match Store.openAt path d with
  | .ok (s, d) => return (DiskWorld.onDisk s, d)
  | .error e => throw (e.failure.within ("Failed to open cache store: " ++ path))

/-- An engine on a disk with its environment. -/
def openOnDisk (o : EngineOptions) (lookup : String → Option String) (d : Disk) :
    Except Failure (Environment DiskWorld × Engine × DiskWorld) := do
  let (store, d) ← storeFor o lookup d
  return (DiskWorld.environment store, { options := o }, { disk := d })

end Engine

namespace Disk

/-- What a step on the disk comes to, a refusal being put in words. -/
def orFailure (message : String) : Except DiskError Disk → Except Failure Disk
  | .ok d => .ok d
  | .error e => .error ⟨message, [e.message]⟩

/-- Takes a file away if it is there. -/
def removeIfThere (d : Disk) (kind path : String) : Except Failure Disk :=
  if d.exists? path then
    orFailure ("Failed to remove " ++ kind ++ " file: " ++ path) (d.remove path)
  else .ok d

def removeStore (d : Disk) (path : String) : Except Failure Disk :=
  if d.isDirectory path then
    orFailure ("Failed to remove cache directory: " ++ path) (d.removeTree path)
  else do
    let d ← d.removeIfThere "db" path
    d.removeIfThere "db lock" (Database.lockPath path)

end Disk

end ClassCatalog
