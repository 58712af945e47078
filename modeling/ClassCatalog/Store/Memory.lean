import ClassCatalog.Cache.Environment
import ClassCatalog.NameMap

/-!
# Stores in memory

A map held in memory. Writing can be made to fail.
-/

namespace ClassCatalog

/-- A map from keys to bytes in memory. -/
structure MemoryStore where
  entries : NameMap Bytes := ∅
  failWrites : Bool := false
  /-- How many writes succeeded. -/
  writes : Nat := 0
  deriving Inhabited

namespace MemoryStore

/-- Replaces the bytes under a key, unless writes are to fail. -/
def put (key : String) (bytes : Bytes) (m : MemoryStore) : Except StoreError Unit × MemoryStore :=
  if m.failWrites then (.error (.backend "write failure injected"), m)
  else (.ok (), { m with entries := m.entries.insert key bytes, writes := m.writes + 1 })

def delete (key : String) (m : MemoryStore) : Except StoreError Bool × MemoryStore :=
  (.ok (m.entries.contains key), { m with entries := m.entries.erase key })

def store : Store MemoryStore where
  get key m := .ok (m.entries.find? key)
  put := put
  delete := delete
  size m := .ok m.entries.size
  clear m := (.ok (), { m with entries := ∅ })
  description := "memory"

end MemoryStore

namespace Store

/-- The store operations on a part of a larger state. -/
def onPart {σ ω : Type} (part : ω → σ) (update : σ → ω → ω) (s : Store σ) : Store ω where
  get key w := s.get key (part w)
  put key bytes w :=
    let (r, x) := s.put key bytes (part w)
    (r, update x w)
  delete key w :=
    let (r, x) := s.delete key (part w)
    (r, update x w)
  size w := s.size (part w)
  clear w :=
    let (r, x) := s.clear (part w)
    (r, update x w)
  description := s.description

end Store

end ClassCatalog
