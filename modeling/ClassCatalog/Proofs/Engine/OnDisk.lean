import ClassCatalog.Engine.OnDisk
import ClassCatalog.Proofs.Engine.NoWrite

/-!
# What an engine on a disk does to it

To open an engine is to open the store its options name, unless they turn it off (`Opened`). An engine that is
read-only leaves everything as it is from then on: its containers are only read, and its store refuses every
change (`world_openModule_of_readOnly`, `world_invalidate_of_readOnly`).
-/

namespace ClassCatalog

namespace Engine

variable {lookup : String → Option String} {o : EngineOptions} {d : Disk} {env : Environment DiskWorld} {e : Engine}
  {w : DiskWorld}

/-- What opening an engine on a disk comes to. -/
inductive Opened (o : EngineOptions) (lookup : String → Option String) (d : Disk) :
    Environment DiskWorld → Engine → DiskWorld → Prop
  | without (h : o.disabled = true) :
      Opened o lookup d (DiskWorld.environment DiskWorld.inMemory) { options := o } { disk := d }
  | stored {path : String} {s : Store Disk} {d' : Disk} (h : o.disabled = false)
      (hpath : o.resolvedPath lookup = .ok path) (hopen : Store.openAt path d = .ok (s, d')) :
      Opened o lookup d (DiskWorld.environment (DiskWorld.onDisk s)) { options := o } { disk := d' }

theorem opened_of_openOnDisk (h : openOnDisk o lookup d = .ok (env, e, w)) : Opened o lookup d env e w := by
  unfold openOnDisk storeFor at h
  cases hdisabled : o.disabled with
  | true =>
    simp only [hdisabled, if_true, bind, Except.bind, pure, Except.pure] at h
    cases h
    exact .without hdisabled
  | false =>
    simp only [hdisabled, bind, Except.bind, pure, Except.pure] at h
    cases hpath : o.resolvedPath lookup with
    | error f => simp [hpath] at h
    | ok path =>
      cases hopen : Store.openAt path d with
      | error f => simp [hpath, hopen, throw, throwThe, MonadExceptOf.throw] at h
      | ok opened =>
        obtain ⟨s, d'⟩ := opened
        simp [hpath, hopen] at h
        obtain ⟨rfl, rfl, rfl⟩ := h
        exact .stored hdisabled hpath hopen

/-! ### Engines that are read-only -/

/-- Containers on a disk are read without a trace. -/
theorem environment_of_opened (h : Opened o lookup d env e w) :
    e.options = o ∧ ∀ l w, (env.enumerate l w).2 = w := by
  cases h with
  | without h => exact ⟨rfl, fun l w => rfl⟩
  | stored h hpath hopen => exact ⟨rfl, fun l w => rfl⟩

variable (hreads : ∀ l w, (env.enumerate l w).2 = w) (hreadOnly : e.options.readOnly = true)

include hreads hreadOnly in
theorem world_openModule_of_readOnly (specs : List ContainerSpec) (cancelled : Bool) (w : DiskWorld) :
    (e.openModule env specs cancelled w).2.2 = w := by
  have hinert : (e.restricted env).store.Inert (id : DiskWorld → DiskWorld) := by
    rw [store_restricted hreadOnly]
    exact env.store.inert_readOnly id
  exact contents_openModule hreads hinert specs cancelled w

include hreadOnly in
theorem world_invalidate_of_readOnly (l : Location) (w : DiskWorld) : (e.invalidate env l w).2.2 = w := by
  show (e.cache.invalidate _ _ l w).2.2 = w
  rw [Cache.invalidate_world, store_restricted hreadOnly]
  split <;> rfl

end Engine

end ClassCatalog
