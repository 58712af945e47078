import ClassCatalog.Proofs.Cache.Keeps
import ClassCatalog.Proofs.Cache.Transparency

/-!
# Loads of other containers

Let the store change under no key but the one it is asked to change (`Store.Faithful`), and let no
container reach into it when it is read (`Environment.Faithful`). Then a load of a container leaves alone
what the cache has under the keys of all others (`Session.Frames`).
-/

namespace ClassCatalog

variable {ω : Type} {held : ω → String → Option Bytes}

/-- An honest store that changes under no other key than asked, and keeps nothing that it says it has
deleted. -/
structure Store.Faithful (store : Store ω) (held : ω → String → Option Bytes) : Prop
    extends store.Honest held where
  put_other {key k : String} (bytes : Bytes) (w : ω) (hne : k ≠ key) :
    held (store.put key bytes w).2 k = held w k ∨ held (store.put key bytes w).2 k = none
  deleted {key : String} {w : ω} {b : Bool} (hok : (store.delete key w).1 = .ok b) :
    held (store.delete key w).2 key = none

namespace Store.Faithful

theorem readOnly {store : Store ω} (h : store.Faithful held) : store.readOnly.Faithful held :=
  ⟨h.toHonest.readOnly, fun _ _ _ => .inl rfl, nofun⟩

theorem restrict {store : Store ω} (h : store.Faithful held) (restricted : Bool) :
    (store.restrict restricted).Faithful held := by
  cases restricted with
  | true => exact h.readOnly
  | false => exact h

theorem memory : MemoryStore.store.Faithful fun m key => m.entries.find? key := by
  refine ⟨Store.Honest.memory, fun {key k} bytes m hne => .inl ?_, fun {key m b} _ => ?_⟩
  · show (m.put key bytes).2.entries.find? k = m.entries.find? k
    unfold MemoryStore.put
    split
    · rfl
    · exact NameMap.find?_insert_of_ne _ hne _
  · exact (NameMap.find?_erase ..).trans (if_pos rfl)

theorem onPart {σ : Type} {store : Store σ} {held : σ → String → Option Bytes} (part : ω → σ)
    (update : σ → ω → ω) (hpart : ∀ x w, part (update x w) = x) (h : store.Faithful held) :
    (store.onPart part update).Faithful fun w => held (part w) := by
  refine ⟨h.toHonest.onPart part update hpart, fun bytes w hne => ?_, fun {key w b} hok => ?_⟩
  · simpa only [Store.onPart, hpart] using h.put_other bytes (part w) hne
  · simpa only [Store.onPart, hpart] using h.deleted (w := part w) hok

end Store.Faithful

/-- A faithful store, and containers that can be read without changing what it holds. -/
structure Environment.Faithful (env : Environment ω) (held : ω → String → Option Bytes) : Prop where
  store : env.store.Faithful held
  enumerate (l : Location) (w : ω) (key : String) : held (env.enumerate l w).2 key = held w key

/-- What the containers of a world in memory deliver. -/
def ScriptedWorld.listing (w : ScriptedWorld) (l : Location) : Enumeration :=
  match w.containers.find? l.logicalPath with
  | none => { failure := some missing }
  | some c => c.course

/-- Enumerating a container in memory leaves the store beside it alone. -/
theorem ScriptedWorld.store_enumerate (l : Location) (w : ScriptedWorld) :
    (environment.enumerate l w).2.store = w.store := by
  show (ScriptedWorld.enumerate l w).2.store = w.store
  unfold ScriptedWorld.enumerate
  split
  · rfl
  · split <;> rfl

theorem ScriptedWorld.faithful :
    environment.Faithful fun w key => w.store.entries.find? key := by
  refine ⟨Store.Faithful.memory.onPart ScriptedWorld.store (fun m w => { w with store := m })
    fun _ _ => rfl, fun l w key => ?_⟩
  rw [store_enumerate]

/-- Sessions that have the same for a key, but that the store may have lost it. -/
structure Session.Frames (held : ω → String → Option Bytes) (key : String) (s s' : Session ω) :
    Prop where
  serials : s.cache.nextSerial ≤ s'.cache.nextSerial
  events : s.cache.events.length ≤ s'.cache.events.length
  forced : s'.cache.forced.contains key = s.cache.forced.contains key
  published : s'.cache.published.find? key = s.cache.published.find? key
  held : held s'.world key = held s.world key ∨ held s'.world key = none

namespace Session.Frames

variable {key : String} {s s' s'' : Session ω}

theorem refl (s : Session ω) : Frames held key s s :=
  ⟨Nat.le_refl _, Nat.le_refl _, rfl, rfl, .inl rfl⟩

theorem trans (h : Frames held key s s') (h' : Frames held key s' s'') : Frames held key s s'' := by
  refine ⟨Nat.le_trans h.serials h'.serials, Nat.le_trans h.events h'.events,
    h'.forced.trans h.forced, h'.published.trans h.published, ?_⟩
  obtain hsame | hnone := h'.held
  · rw [hsame]
    exact h.held
  · exact .inr hnone

end Session.Frames

namespace Loading

variable {env : Environment ω} {settings : CacheSettings} {key : String} {l : Location}

theorem frames_tolerates (henv : env.Faithful held) (key : String) :
    ToleratesOthers env key (Session.Frames held key) where
  refl := .refl
  trans := .trans
  enumerate l s := ⟨Nat.le_refl _, Nat.le_refl _, rfl, rfl, .inl (henv.enumerate l s.world key)⟩
  cancel _ _ := ⟨Nat.le_refl _, Nat.le_refl _, rfl, rfl, .inl rfl⟩
  work _ _ _ _ _ := ⟨Nat.le_refl _, (List.sublist_append_left ..).length_le, rfl, rfl, .inl rfl⟩
  report _ _ := ⟨Nat.le_refl _, (List.sublist_append_left ..).length_le, rfl, rfl, .inl rfl⟩
  publish _ _ hne := ⟨Nat.le_succ _, Nat.le_refl _, rfl, NameMap.find?_insert_of_ne _ hne _, .inl rfl⟩
  force _ hne := ⟨Nat.le_refl _, Nat.le_refl _, Cache.contains_force_of_ne hne, rfl, .inl rfl⟩
  unforce _ hne := ⟨Nat.le_refl _, Nat.le_refl _, Cache.contains_unforce_of_ne hne, rfl, .inl rfl⟩
  put s bytes hne := ⟨Nat.le_refl _, Nat.le_refl _, rfl, rfl, henv.store.put_other bytes s.world hne⟩

/-- A load of another container. -/
theorem frames_load (henv : env.Faithful held) (hne : key ≠ l.cacheKey) :
    Keeps (Session.Frames held key) (load env settings l) :=
  (frames_tolerates henv key).keeps_load hne

end Loading

end ClassCatalog
