import ClassCatalog.Store.Memory

/-!
# Containers in memory

Containers held in memory beside a store in memory. Enumerating a container can be made to break off
or to be cancelled before a given entry, and the next enumerations can be made to be interrupted.
-/

namespace ClassCatalog

/-- A container in memory. -/
structure ScriptedContainer where
  entries : List ClassEntry
  /-- The size; without it, that of all entries together. -/
  size : Option UInt64 := none
  lastModified : UInt64 := 0
  /-- Before which entry enumerating breaks off. -/
  failAfter : Option Nat := none
  /-- Before which entry the caller asks to cancel. -/
  cancelAfter : Option Nat := none
  deriving Inhabited

namespace ScriptedContainer

/-- The reason for which enumerating breaks off. -/
def broken : String := "broken"

/-- The deliveries from the entry at `position` on. -/
def deliveries (c : ScriptedContainer) : Nat → List ClassEntry → Enumeration
  | _, [] => {}
  | position, e :: rest =>
    if c.failAfter = some position then { failure := some broken }
    else
      let course := deliveries c (position + 1) rest
      let first := if c.cancelAfter = some position then [.cancel, .entry e] else [.entry e]
      { course with deliveries := first ++ course.deliveries }

def course (c : ScriptedContainer) : Enumeration := c.deliveries 0 c.entries

def stat (c : ScriptedContainer) : ContainerStat :=
  ⟨c.size.getD (ContainerStat.totalSize (c.entries.map fun e => e.bytes.length)), c.lastModified⟩

end ScriptedContainer

/-- Containers by logical path, interruptions to come and a store. -/
structure ScriptedWorld where
  containers : NameMap ScriptedContainer := ∅
  interruptions : Nat := 0
  store : MemoryStore := {}
  deriving Inhabited

namespace ScriptedWorld

/-- The reason for which an unknown container cannot be read. -/
def missing : String := "missing"

/-- Enumerates a container, unless that is to be interrupted. -/
def enumerate (l : Location) (w : ScriptedWorld) : Listing × ScriptedWorld :=
  match w.containers.find? l.logicalPath with
  | none => (.delivered { failure := some missing }, w)
  | some c =>
    if w.interruptions = 0 then (.delivered c.course, w)
    else (.interrupted, { w with interruptions := w.interruptions - 1 })

/-- The environment of containers and a store in memory. -/
def environment : Environment ScriptedWorld where
  stat l w :=
    match w.containers.find? l.logicalPath with
    | none => .error missing
    | some c => .ok c.stat
  enumerate := enumerate
  ownDigest _ _ := none
  store := MemoryStore.store.onPart (·.store) fun s w => { w with store := s }
  pending w := w.interruptions

end ScriptedWorld

end ClassCatalog
