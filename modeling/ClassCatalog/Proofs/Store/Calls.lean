import ClassCatalog.Store.Database
import ClassCatalog.Store.Memory

/-!
# Stores as maps

Whatever is asked of a store, it is to answer as a map would (`Backend.plain`). A writer may die behind the
first of the two steps in which it replaces bytes, whatever it has staged by then; the store is then opened
again, and for the map nothing has happened. That a store keeps up with the map is shown call by call
(`Backend.KeepsUp.answers_eq`).

A database may have no space for a call. Then it refuses the call, and for the map nothing has happened either
(`Backend.Within`).
-/

namespace ClassCatalog

/-- What is asked of a store. -/
inductive StoreCall where
  | put (key : String) (bytes : Bytes)
  /-- A writer stages these bytes and dies, and the store is opened again. -/
  | abandon (key : String) (staged : Bytes)
  | get (key : String)
  | delete (key : String)
  | size
  | clear
  deriving DecidableEq, Repr

inductive StoreAnswer where
  | done (r : Except StoreError Unit)
  | found (r : Except StoreError (Option Bytes))
  | deleted (r : Except StoreError Bool)
  | counted (r : Except StoreError Nat)

/-- Whether a text has the form of a cache key. -/
def IsCacheKey (key : String) : Prop :=
  key.toList.length = 64 ∧ ∀ c ∈ key.toList, c ∈ "0123456789abcdefABCDEF".toList

instance (key : String) : Decidable (IsCacheKey key) := @instDecidableAnd _ _ _ (List.decidableBAll _ _)

def someKey : String := String.ofList (List.replicate 64 'a')

/-- Whether the key a call is about, if any, is a cache key. -/
def StoreCall.HasCacheKey : StoreCall → Prop
  | put key _ | abandon key _ | get key | delete key => IsCacheKey key
  | size | clear => True

instance : (c : StoreCall) → Decidable c.HasCacheKey
  | .put key _ | .abandon key _ | .get key | .delete key => inferInstanceAs (Decidable (IsCacheKey key))
  | .size | .clear => .isTrue trivial

/-- The answer where there is no space. -/
def StoreCall.refusal : StoreCall → StoreAnswer
  | put .. | abandon .. | clear => .done (.error Database.full)
  | get _ => .found (.error Database.full)
  | delete _ => .deleted (.error Database.full)
  | size => .counted (.error Database.full)

/-- The transactions of a call on a database, from contents to contents, as long as there is space for them. -/
def StoreCall.transactions (b : Database) : StoreCall → List (Database × Database)
  | put key bytes => [(b, b.stage key bytes), (b.stage key bytes, (b.stage key bytes).promote key bytes)]
  | abandon key staged => [(b, b.stage key staged), (b.stage key staged, (b.stage key staged).sweep)]
  | delete key => [(b, b.erase key)]
  | clear => [(b, {})]
  | get _ | size => []

/-- Whether the bytes that a call writes fit in beside a map. Bytes that are put are both staged and stored for a
while. -/
def StoreCall.FitsBeside (m : NameMap Bytes) : StoreCall → Prop
  | put key bytes => Database.size ⟨m, ∅⟩ + 2 * Database.entrySize (key, bytes) ≤ Database.mapSize
  | abandon key staged => Database.size ⟨m, ∅⟩ + Database.entrySize (key, staged) ≤ Database.mapSize
  | get _ | delete _ | size | clear => True

instance (m : NameMap Bytes) : (c : StoreCall) → Decidable (c.FitsBeside m)
  | .put _ _ | .abandon _ _ => inferInstanceAs (Decidable (_ ≤ _))
  | .get _ | .delete _ | .size | .clear => .isTrue trivial

/-- A store, and what is left of it when a writer dies behind its first step. -/
structure Backend (ω : Type) where
  store : Store ω
  abandon : String → Bytes → ω → Except StoreError Unit × ω

namespace Backend

variable {ω : Type}

def call (b : Backend ω) : StoreCall → ω → StoreAnswer × ω
  | .put key bytes, w => ((b.store.put key bytes w).map .done id)
  | .abandon key staged, w => ((b.abandon key staged w).map .done id)
  | .get key, w => (.found (b.store.get key w), w)
  | .delete key, w => ((b.store.delete key w).map .deleted id)
  | .size, w => (.counted (b.store.size w), w)
  | .clear, w => ((b.store.clear w).map .done id)

/-- The answers to calls one after the other. -/
def answers (b : Backend ω) : List StoreCall → ω → List StoreAnswer
  | [], _ => []
  | c :: calls, w => (b.call c w).1 :: b.answers calls (b.call c w).2

/-- A map. A writer that dies leaves no trace in it. -/
def plain : Backend (NameMap Bytes) where
  store :=
    { get := fun key m => .ok (m.find? key)
      put := fun key bytes m => (.ok (), m.insert key bytes)
      delete := fun key m => (.ok (m.contains key), m.erase key)
      size := fun m => .ok m.size
      clear := fun _ => (.ok (), ∅)
      description := "map" }
  abandon _ _ m := (.ok (), m)

/-- Nothing is staged in memory. -/
def memory : Backend MemoryStore := ⟨MemoryStore.store, fun _ _ m => (.ok (), m)⟩

def directory (root : String) : Backend Disk where
  store := DirectoryStore.store root
  abandon key staged d :=
    match (DirectoryStore.stage root key staged d).mapError .ofDisk with
    | .error e => (.error e, d)
    | .ok d => Database.finish () d (DirectoryStore.prepare root d)

def database (space : Database.Space) (path : String) : Backend Disk where
  store := space.store path
  abandon key staged d :=
    match space.update path (Database.stage · key staged) d with
    | .error e => (.error e, d)
    | .ok d => Database.finish () d (space.prepare path d)

/-- Whether the bytes that are put in calls one after the other fit in beside what is stored by then. -/
def FitsAll : List StoreCall → NameMap Bytes → Prop
  | [], _ => True
  | c :: calls, m => c.FitsBeside m ∧ FitsAll calls (plain.call c m).2

instance decidableFitsAll : (calls : List StoreCall) → (m : NameMap Bytes) → Decidable (FitsAll calls m)
  | [], _ => .isTrue trivial
  | _ :: calls, m => @instDecidableAnd _ _ inferInstance (decidableFitsAll calls (plain.call _ m).2)

/-- Answers of a database that may have no space for a call. If there is none for one of its transactions, the call is
refused and has never happened for the map; every other call is answered as by the map. -/
inductive Within (space : Database.Space) : NameMap Bytes → List StoreCall → List StoreAnswer → Prop
  | nil {m : NameMap Bytes} : Within space m [] []
  | answered {m : NameMap Bytes} {c : StoreCall} {calls : List StoreCall} {answers : List StoreAnswer}
      (h : Within space (plain.call c m).2 calls answers) :
      Within space m (c :: calls) ((plain.call c m).1 :: answers)
  | refused {m : NameMap Bytes} {c : StoreCall} {calls : List StoreCall} {answers : List StoreAnswer}
      (hfull : ∃ staging d, ∃ t ∈ c.transactions ⟨m, staging⟩, space.fits d t.1 t.2 = false)
      (h : Within space m calls answers) : Within space m (c :: calls) (c.refusal :: answers)

end Backend

end ClassCatalog
