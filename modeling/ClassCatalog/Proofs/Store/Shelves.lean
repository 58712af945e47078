import ClassCatalog.Container.OnDisk
import ClassCatalog.Container.Scripted
import ClassCatalog.Proofs.Cache.Slot
import ClassCatalog.Proofs.Store.Directory

/-!
# Stores with a shelf for each key

Under a key a store has what was written there last, or what was there before if that could not be written, and
writing under another key does not show there (`Environment.Shelves`). Stores in memory are such stores, and so are
directories in which nothing is in the way of the files (`DirectoryStore.Holds`): the key of a container is a hash,
and the files of two keys have two names.
-/

namespace ClassCatalog

variable {ω κ : Type} {env : Environment ω} {w : ω}

structure Environment.Shelves (env : Environment ω) (w : ω) : Prop where
  own {w' : ω} (hw : env.Writes w w') (l : Location) {bytes found : Bytes}
    (h : env.store.get l.cacheKey (env.store.put l.cacheKey bytes w').2 = .ok (some found)) :
    found = bytes ∨ env.store.get l.cacheKey w' = .ok (some found)
  other {w' : ω} (hw : env.Writes w w') {l k : Location} (bytes : Bytes) (hne : k.cacheKey ≠ l.cacheKey) :
    env.store.get k.cacheKey (env.store.put l.cacheKey bytes w').2 = env.store.get k.cacheKey w'

namespace Environment.Shelves

theorem of_cells (cells : env.store.Cells κ) (hwrite : ∀ key bytes c found,
    cells.read key (cells.write key bytes c) = .ok (some found) →
      found = bytes ∨ cells.read key c = .ok (some found)) : env.Shelves w where
  own _ l _ _ h := by
    rw [cells.get, cells.put] at h
    rw [cells.get]
    exact hwrite _ _ _ _ h
  other _ _ _ bytes hne := by rw [cells.get, cells.get, cells.put_other bytes _ hne]

/-- A store that stands for a map, and for the changed map when it is written to. -/
theorem of_maps {R : ω → NameMap Bytes → Prop} {m : NameMap Bytes}
    (hget : ∀ {w m}, R w m → ∀ l : Location, env.store.get l.cacheKey w = .ok (m.find? l.cacheKey))
    (hput : ∀ {w m}, R w m → ∀ (l : Location) bytes,
      R (env.store.put l.cacheKey bytes w).2 (m.insert l.cacheKey bytes))
    (h : R w m) : env.Shelves w := by
  have hholds : ∀ {w'}, env.Writes w w' → ∃ held, R w' held := by
    intro w' hw
    induction hw with
    | refl => exact ⟨m, h⟩
    | put _ l bytes ih =>
      obtain ⟨held, hheld⟩ := ih
      exact ⟨_, hput hheld l bytes⟩
  refine ⟨fun {_} hw l {bytes found} hfound => ?_, fun {_} hw {l k} bytes hne => ?_⟩
  · obtain ⟨held, hheld⟩ := hholds hw
    rw [hget (hput hheld l bytes), NameMap.find?_insert_self] at hfound
    exact .inl (Option.some.inj (Except.ok.inj hfound)).symm
  · obtain ⟨held, hheld⟩ := hholds hw
    rw [hget (hput hheld l bytes), hget hheld, NameMap.find?_insert_of_ne _ hne]

/-- A store that refuses every change shows what it has. -/
theorem restrict (h : env.Shelves w) : (restricted : Bool) →
    { env with store := env.store.restrict restricted : Environment ω }.Shelves w
  | true => ⟨fun _ _ _ _ => .inr, fun _ _ _ _ _ => rfl⟩
  | false => h

end Environment.Shelves

theorem ScriptedWorld.shelves (w : ScriptedWorld) : environment.Shelves w := by
  refine .of_cells (Store.Cells.memory.onPart ScriptedWorld.store (fun m w => { w with store := m }) fun _ _ => rfl) ?_
  rintro key bytes ⟨failWrites, held⟩ found h
  cases failWrites with
  | true => exact .inr h
  | false => exact .inl (Option.some.inj (Except.ok.inj h)).symm

/-! ### Directories -/

theorem Sha256.length_hash (message : Bytes) : (hash message).length = 32 := by
  simp [hash, State.toBytes]

theorem Location.isCacheKey_cacheKey (l : Location) : IsCacheKey l.cacheKey := by
  unfold IsCacheKey cacheKey Sha256.hexHash Bytes.hex
  rw [String.toList_ofList, Bytes.length_hexDigits, Sha256.length_hash]
  refine ⟨rfl, fun c hc => ?_⟩
  obtain ⟨n, hn, rfl⟩ := Bytes.exists_digitChar_of_mem_hexDigits hc
  have hdigit : ∀ n < 16, Nat.digitChar n ∈ "0123456789abcdefABCDEF".toList := by decide
  exact hdigit n hn

theorem DirectoryStore.shelves {root : String} {p : Place} {w : DiskWorld} {m : NameMap Bytes}
    (h : Holds root p w.disk m) :
    (DiskWorld.environment (DiskWorld.onDisk (DirectoryStore.store root))).Shelves w := by
  refine .of_maps (R := fun w m => Holds root p w.disk m) (fun {w m} h l => ?_) (fun {w m} h l bytes => ?_) h
  · simp only [DiskWorld.environment, DiskWorld.onDisk, Store.onPart, DirectoryStore.store]
    exact h.get l.isCacheKey_cacheKey
  · obtain ⟨d, hput, hdone⟩ := h.put l.isCacheKey_cacheKey bytes
    simp only [DiskWorld.environment, DiskWorld.onDisk, Store.onPart, DirectoryStore.store, hput]
    exact hdone

end ClassCatalog
