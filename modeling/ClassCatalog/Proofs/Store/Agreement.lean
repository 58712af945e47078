import ClassCatalog.Proofs.Store.Database

/-!
# All stores are one map

In memory, in a directory and in a database, the answers to any calls with cache keys are those of one map,
in which a put that a writer did not survive has never happened, and neither has one that a database had no
space for.
-/

namespace ClassCatalog

namespace Backend

/-- Calls in which a writer dies over a key that has bytes. -/
def brokenOff (key : String) : List StoreCall :=
  [.put key [1], .abandon key [2, 3], .get key, .size, .delete key, .clear]

end Backend

end ClassCatalog
