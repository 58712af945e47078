import ClassCatalog.ClassFile.Blueprint
import ClassCatalog.Container.Scripted
import ClassCatalog.Proofs.Cache.Purged
import ClassCatalog.Proofs.Engine.Calls

/-!
# After an invalidation

An engine invalidates a container, and then works on as it likes (`Engine.Run`): whatever a load of the
container returns was made since. There is one exception. A store that must not be changed keeps what it
has, which is no failure; when the container has been made anew and was taken out of memory, the
old index is found in the store.
-/

namespace ClassCatalog

variable {ω : Type} {env : Environment ω} {held : ω → String → Option Bytes}

/-- The copies of an index that memory can hold the blob of are the index itself. -/
theorem Index.HasCopy.eq {index copy : Index} (h : index.HasCopy copy)
    (hfits : (Blob.encode index).length < Blob.addressable) : copy = index := by
  obtain heq | hdecode := h
  · exact heq
  · rw [Blob.decode_encode hfits] at hdecode
    exact (Except.ok.inj hdecode).symm

/-- An index is a copy of one that was made. -/
def Index.CopyOf (i : Index) (made : List Index) : Prop := ∃ index ∈ made, index.HasCopy i

theorem Index.CopyOf.append {i : Index} {made : List Index} (h : i.CopyOf made) (since : List Index) :
    i.CopyOf (since ++ made) := by
  obtain ⟨index, hindex, hcopy⟩ := h
  exact ⟨index, List.mem_append_right since hindex, hcopy⟩

namespace Cache.Invalidated

variable {settings : CacheSettings} {key : String} {serials : Nat} {left made : Index → Prop} {c : Cache}
  {w : ω}

theorem evict (h : c.Invalidated settings held key serials left made w) (l : Location) :
    (c.evict l).2.Invalidated settings held key serials left made w := by
  refine ⟨⟨h.serials_le, fun {loaded} hfound => ?_, h.stored⟩, h.owed⟩
  rw [Cache.evict, NameMap.find?_erase] at hfound
  split at hfound
  · cases hfound
  · exact h.published hfound

theorem invalidate {store : Store ω} (h : c.Invalidated settings held key serials left made w)
    (hstore : store.Faithful held) (l : Location) :
    (c.invalidate store settings l w).2.1.Invalidated settings held key serials left made
      (c.invalidate store settings l w).2.2 := by
  have hforce : (c.force l.cacheKey).Invalidated settings held key serials left made w :=
    ⟨h.toPurged.congr rfl rfl, h.owed.imp_left fun hforced => Cache.contains_force hforced l.cacheKey⟩
  have hevict := hforce.evict l
  rw [invalidate_cache, invalidate_world]
  split
  · exact ⟨hevict.toPurged.congr rfl rfl, hevict.owed⟩
  · refine ⟨⟨hevict.serials_le, hevict.published, fun henabled {bytes index} hbytes hdecode => ?_⟩,
      hevict.owed⟩
    obtain hsame | hnone := hstore.delete l.cacheKey w key
    · exact hevict.stored henabled (hsame ▸ hbytes) hdecode
    · nomatch hnone.symm.trans hbytes

end Cache.Invalidated

theorem Cache.delete_of_invalidate_ok {store : Store ω} {settings : CacheSettings} {c : Cache}
    {l : Location} {w : ω} (henabled : settings.disabled = false)
    (hok : (c.invalidate store settings l w).1 = .ok ()) :
    (∃ b, (store.delete l.cacheKey w).1 = .ok b) ∨ (store.delete l.cacheKey w).1 = .error .readOnly := by
  unfold Cache.invalidate at hok
  rw [henabled, if_neg Bool.false_ne_true] at hok
  split at hok
  next b _ hdelete => exact .inl ⟨b, congrArg Prod.fst hdelete⟩
  next hdelete => exact .inr (congrArg Prod.fst hdelete)
  next => nomatch hok

namespace Engine

variable {e e₀ : Engine} {w w₀ : ω} {l : Location} {key : String}

theorem restricted_faithful (henv : env.Faithful held) (e : Engine) : (e.restricted env).Faithful held :=
  ⟨henv.store.restrict e.options.readOnly, henv.enumerate⟩

/-- Only the store can be closed to an engine. -/
theorem restricted_reads {w' : ω} (h : (e.restricted env).Reads w w') : env.Reads w w' := by
  induction h with
  | refl => exact .refl
  | enumerate _ l ih => exact ih.enumerate l

theorem restricted_scanned {index : Index} (h : (e.restricted env).Scanned l w index) :
    env.Scanned l w index := by
  obtain ⟨w', course, hreads, hdelivered⟩ := h
  exact ⟨w', course, restricted_reads hreads, hdelivered⟩

/-- Loads one container. -/
def load (env : Environment ω) (e : Engine) (l : Location) (cancelled : Bool) (w : ω) :
    Except ScanError Loaded × Engine × ω :=
  let r := (Loading.load (e.restricted env) e.options.cacheSettings l).run.run ⟨e.cache, w, cancelled⟩
  (r.1, { e with cache := r.2.cache }, r.2.world)

/-- Whether a load that has left the engine `e'` had to read the container. -/
def missed (e e' : Engine) : Bool := e'.cache.missedSince e.cache.events.length

/-- The index that a load has made anew for a key, if it has. -/
def madeBy (key : String) (e : Engine) (l : Location) :
    Except ScanError Loaded × Engine × ω → List Index
  | (.ok loaded, e', _) => if l.cacheKey = key ∧ e.missed e' = true then [loaded.index] else []
  | (.error _, _, _) => []

/-- What can become of an engine and its world, and which indexes loads make anew for a key meanwhile.
Containers change at will between calls. -/
inductive Run (env : Environment ω) (held : ω → String → Option Bytes) (key : String) (e₀ : Engine)
    (w₀ : ω) : List Index → Engine → ω → Prop
  | start : Run env held key e₀ w₀ [] e₀ w₀
  | change {made : List Index} {e : Engine} {w w' : ω} (h : Run env held key e₀ w₀ made e w)
      (hheld : ∀ k, held w' k = held w k) : Run env held key e₀ w₀ made e w'
  | load {made : List Index} {e : Engine} {w : ω} (h : Run env held key e₀ w₀ made e w) (l : Location)
      (cancelled : Bool) :
      Run env held key e₀ w₀ (madeBy key e l (e.load env l cancelled w) ++ made)
        (e.load env l cancelled w).2.1 (e.load env l cancelled w).2.2
  | evict {made : List Index} {e : Engine} {w : ω} (h : Run env held key e₀ w₀ made e w) (l : Location) :
      Run env held key e₀ w₀ made (e.evict l).2 w
  | invalidate {made : List Index} {e : Engine} {w : ω} (h : Run env held key e₀ w₀ made e w)
      (l : Location) :
      Run env held key e₀ w₀ made (e.invalidate env l w).2.1 (e.invalidate env l w).2.2
  | release {made : List Index} {e : Engine} {w : ω} (h : Run env held key e₀ w₀ made e w)
      (name : String) : Run env held key e₀ w₀ made (e.release name).2 w
  | remember {made : List Index} {e : Engine} {w : ω} (h : Run env held key e₀ w₀ made e w)
      (modules : NameMap ModuleRecord) : Run env held key e₀ w₀ made { e with modules } w

/-- An index that the store keeps when an invalidation asks to delete it, because it must not be
changed. -/
structure Leaves (env : Environment ω) (held : ω → String → Option Bytes) (e : Engine) (l : Location)
    (w : ω) (index : Index) : Prop where
  enabled : e.options.disabled = false
  refused : ((e.restricted env).store.delete l.cacheKey w).1 = .error .readOnly
  kept : ∃ bytes, held w l.cacheKey = some bytes ∧ Blob.decode bytes = .ok index

/-! ### Modules -/

theorem Run.loadAll {made : List Index} {specs : List ContainerSpec} {cancelled : Bool} {s : Session ω}
    (h : Run env held key e₀ w₀ made e w)
    (hs : (Engine.loadAll (e.restricted env) e.options.cacheSettings specs
      ⟨e.cache, w, cancelled⟩).2 = s) :
    ∃ since, Run env held key e₀ w₀ (since ++ made) { e with cache := s.cache } s.world := by
  induction specs generalizing made e w cancelled with
  | nil =>
    subst hs
    exact ⟨[], h⟩
  | cons spec specs ih =>
    obtain ⟨since, hrun⟩ := ih (h.load spec.location cancelled) hs
    refine ⟨since ++ madeBy key e spec.location (e.load env spec.location cancelled w), ?_⟩
    rw [List.append_assoc]
    exact hrun

/-- To open a module is to load its containers. -/
theorem Run.openModule {made : List Index} (h : Run env held key e₀ w₀ made e w)
    (specs : List ContainerSpec) (cancelled : Bool) :
    ∃ since, Run env held key e₀ w₀ (since ++ made) (e.openModule env specs cancelled w).2.1
      (e.openModule env specs cancelled w).2.2 :=
  h.loadAll rfl

theorem Run.openNamed {made : List Index} (h : Run env held key e₀ w₀ made e w) (name : String)
    (specs : List ContainerSpec) (cancelled : Bool) :
    ∃ since, Run env held key e₀ w₀ (since ++ made) (e.openNamed env name specs cancelled w).2.1
      (e.openNamed env name specs cancelled w).2.2 := by
  obtain ⟨since, hrun⟩ := h.openModule specs cancelled
  obtain ⟨modules, hnamed⟩ := openNamed_eq env e name specs cancelled w
  refine ⟨since, ?_⟩
  rw [hnamed]
  exact hrun.remember modules

/-! ### What a run keeps -/

/-- Every index that an invalidated container has was made since, or was left in the store. -/
structure Invalidated (held : ω → String → Option Bytes) (key : String) (options : EngineOptions)
    (serials : Nat) (left : Index → Prop) (made : List Index) (e : Engine) (w : ω) : Prop
    extends e.cache.Invalidated options.cacheSettings held key serials left
      (fun i => i.CopyOf made) w where
  options_eq : e.options = options

variable {options : EngineOptions} {serials : Nat} {left : Index → Prop} {made : List Index}

namespace Invalidated

theorem evictUnused (h : e.Invalidated held key options serials left made w) (ls : List Location) :
    (e.evictUnused ls).2.Invalidated held key options serials left made w := by
  induction ls generalizing e with
  | nil => exact h
  | cons l ls ih =>
    unfold Engine.evictUnused
    split
    · exact ih h
    · have hevicted : { e with cache := (e.cache.evict l).2 }.Invalidated held key options serials left
          made w := ⟨h.toInvalidated.evict l, h.options_eq⟩
      exact ih hevicted

theorem release (h : e.Invalidated held key options serials left made w) (name : String) :
    (e.release name).2.Invalidated held key options serials left made w := by
  unfold Engine.release
  cases e.modules.find? name with
  | none => exact h
  | some record =>
    have hforgotten : { e with modules := e.modules.erase name }.Invalidated held key options serials
        left made w := ⟨h.toInvalidated, h.options_eq⟩
    exact hforgotten.evictUnused record.containers

theorem ends (henv : env.Faithful held)
    (h : e.Invalidated held l.cacheKey options serials left made w) (cancelled : Bool) :
    wp (Loading.load (e.restricted env) e.options.cacheSettings l)
      (Loading.Ends (e.restricted env) options.cacheSettings held l.cacheKey serials left
        (fun i => i.CopyOf made) l ⟨e.cache, w, cancelled⟩) ⟨e.cache, w, cancelled⟩ := by
  obtain rfl := h.options_eq
  exact Loading.wp_load_invalidated (s := ⟨e.cache, w, cancelled⟩) (restricted_faithful henv e)
    h.toInvalidated

theorem load (henv : env.Faithful held) (h : e.Invalidated held key options serials left made w)
    (l : Location) (cancelled : Bool) :
    (e.load env l cancelled w).2.1.Invalidated held key options serials left
      (madeBy key e l (e.load env l cancelled w) ++ made) (e.load env l cancelled w).2.2 := by
  by_cases hkey : l.cacheKey = key
  · subst hkey
    have hends := h.ends henv cancelled
    unfold Engine.load
    unfold wp at hends
    generalize (Loading.load (e.restricted env) e.options.cacheSettings l).run.run ⟨e.cache, w, cancelled⟩
      = r at hends
    obtain ⟨result, s⟩ := r
    cases hends with
    | failed _ h' => exact ⟨h', h.options_eq⟩
    | renewed hserial hmissed hscanned h' =>
      rename_i loaded
      have hnew : madeBy l.cacheKey e l (.ok loaded, { e with cache := s.cache }, s.world) =
          [loaded.index] := if_pos ⟨rfl, hmissed⟩
      rw [hnew]
      refine ⟨⟨h'.mono fun i hi => ?_, .inr ⟨_, _, List.mem_cons_self .., .inl rfl⟩⟩, h.options_eq⟩
      obtain hbefore | hcopy := hi
      · exact hbefore.append [_]
      · exact ⟨_, List.mem_cons_self .., hcopy⟩
    | found hserial hmissed h' hmade hindex =>
      exact ⟨⟨h'.mono fun i hi => hi.append _, .inr (hmade.imp fun i hi => hi.append _)⟩, h.options_eq⟩
  · have hframe : wp (Loading.load (e.restricted env) e.options.cacheSettings l)
        (fun _ s' => Session.Frames held key ⟨e.cache, w, cancelled⟩ s') ⟨e.cache, w, cancelled⟩ :=
      Loading.frames_load (restricted_faithful henv e) (Ne.symm hkey) _
    have hnone : madeBy key e l (e.load env l cancelled w) = [] := by
      unfold madeBy
      split
      · exact if_neg fun h => hkey h.1
      · rfl
    rw [hnone]
    exact ⟨Cache.Invalidated.frame (s := ⟨e.cache, w, cancelled⟩) h.toInvalidated hframe, h.options_eq⟩

end Invalidated

theorem Run.invalidated (henv : env.Faithful held) (hrun : Run env held key e₀ w₀ made e w)
    (h : e₀.Invalidated held key options serials left [] w₀) :
    e.Invalidated held key options serials left made w := by
  induction hrun with
  | start => exact h
  | change hrun hheld ih =>
    exact ⟨⟨⟨ih.serials_le, ih.published, fun henabled {bytes index} hbytes =>
      ih.stored henabled (hheld key ▸ hbytes)⟩, ih.owed⟩, ih.options_eq⟩
  | load hrun l cancelled ih => exact ih.load henv l cancelled
  | evict hrun l ih => exact ⟨ih.toInvalidated.evict l, ih.options_eq⟩
  | invalidate hrun l ih =>
    obtain rfl := ih.options_eq
    exact ⟨ih.toInvalidated.invalidate (restricted_faithful henv _).store l, rfl⟩
  | release hrun name ih => exact ih.release name
  | remember hrun modules ih => exact ⟨ih.toInvalidated, ih.options_eq⟩

theorem Invalidated.of_invalidate (henv : env.Faithful held) (hok : (e.invalidate env l w).1 = .ok ()) :
    (e.invalidate env l w).2.1.Invalidated held l.cacheKey e.options e.cache.nextSerial
      (e.Leaves env held l w) [] (e.invalidate env l w).2.2 := by
  have hstore := (restricted_faithful henv e).store
  show Engine.Invalidated held l.cacheKey e.options _ _ []
    { e with cache := (e.cache.invalidate (e.restricted env).store e.options.cacheSettings l w).2.1 }
    (e.cache.invalidate (e.restricted env).store e.options.cacheSettings l w).2.2
  rw [Cache.invalidate_cache, Cache.invalidate_world]
  refine ⟨⟨⟨Nat.le_refl _, fun {loaded} hfound => ?_, fun henabled {bytes index} hbytes hdecode => ?_⟩,
    .inl Cache.contains_force_self⟩, rfl⟩
  · nomatch hfound.symm.trans ((NameMap.find?_erase ..).trans (if_pos rfl))
  · rw [if_neg (ne_true_of_eq_false henabled)] at hbytes
    obtain ⟨b, hdeleted⟩ | hrefused := Cache.delete_of_invalidate_ok henabled hok
    · nomatch (hstore.deleted hdeleted).symm.trans hbytes
    · refine .inr ⟨henabled, hrefused, bytes, ?_, hdecode⟩
      obtain hsame | hnone := hstore.delete l.cacheKey w l.cacheKey
      · exact hsame ▸ hbytes
      · nomatch hnone.symm.trans hbytes

/-- What a load of a container returns after an invalidation was not in memory before. If the load had to
read the container, it is made of what that delivers; if not, a load since the invalidation has made it,
or the store has refused to delete it. Then too a load since has made one. -/
theorem made_since_invalidation (henv : env.Faithful held) (hok : (e₀.invalidate env l w₀).1 = .ok ())
    (hrun : Run env held l.cacheKey (e₀.invalidate env l w₀).2.1 (e₀.invalidate env l w₀).2.2 made e w)
    {cancelled : Bool} {loaded : Loaded} (hloaded : (e.load env l cancelled w).1 = .ok loaded) :
    e₀.cache.nextSerial ≤ loaded.serial ∧
      (e.missed (e.load env l cancelled w).2.1 = true ∧ env.Scanned l w loaded.index ∨
        e.missed (e.load env l cancelled w).2.1 = false ∧
          (loaded.index.CopyOf made ∨ made ≠ [] ∧ e₀.Leaves env held l w₀ loaded.index)) := by
  have h := hrun.invalidated henv (.of_invalidate henv hok)
  have hends := h.ends henv cancelled
  unfold Engine.load at hloaded ⊢
  unfold wp at hends
  rw [hloaded] at hends
  cases hends with
  | renewed hserial hmissed hscanned _ => exact ⟨hserial, .inl ⟨hmissed, restricted_scanned hscanned⟩⟩
  | found hserial hmissed _ hmade hindex =>
    obtain ⟨i, index, hmem, -⟩ := hmade
    exact ⟨hserial, .inr ⟨hmissed, hindex.imp_right fun hleft => ⟨List.ne_nil_of_mem hmem, hleft⟩⟩⟩

/-! ### An archive that gets another class and keeps its identity -/

/-- An archive of one class. -/
def archiveOf (name : String) (store : MemoryStore) : ScriptedWorld :=
  let entry : ClassEntry := ⟨"entry.class", ClassFile.Blueprint.assemble { name }⟩
  { containers := NameMap.empty.insert "a.jar" { entries := [entry], size := some 9 }, store }

/-- The store has an index of it as it was before. -/
def overwritten : ScriptedWorld :=
  archiveOf "b.B"
    (load ScriptedWorld.environment {} (.archive "a.jar") false (archiveOf "a.A" {})).2.2.store

def invalidated (readOnly : Bool) : Except StoreError Unit × Engine × ScriptedWorld :=
  Engine.invalidate ScriptedWorld.environment { options := { readOnly } } (.archive "a.jar") overwritten

def reloaded (readOnly : Bool) : Except ScanError Loaded × Engine × ScriptedWorld :=
  (invalidated readOnly).2.1.load ScriptedWorld.environment (.archive "a.jar") false
    (invalidated readOnly).2.2

/-- The archive is loaded once more, when its index has been taken out of memory. -/
def restored (readOnly : Bool) : Except ScanError Loaded × Engine × ScriptedWorld :=
  ((reloaded readOnly).2.1.evict (.archive "a.jar")).2.load ScriptedWorld.environment (.archive "a.jar")
    false (reloaded readOnly).2.2

theorem reloaded_run (readOnly : Bool) (held : ScriptedWorld → String → Option Bytes) (key : String) :
    Run ScriptedWorld.environment held key (invalidated readOnly).2.1 (invalidated readOnly).2.2
      (madeBy key (invalidated readOnly).2.1 (.archive "a.jar") (reloaded readOnly) ++ [])
      ((reloaded readOnly).2.1.evict (.archive "a.jar")).2 (reloaded readOnly).2.2 :=
  .evict (.load .start (.archive "a.jar") false) (.archive "a.jar")

theorem restored_found (readOnly : Bool) : ∃ loaded index,
    (restored readOnly).1 = .ok loaded ∧
      ((reloaded readOnly).2.1.evict (.archive "a.jar")).2.missed (restored readOnly).2.1 = false ∧
      madeBy (Location.archive "a.jar").cacheKey (invalidated readOnly).2.1 (.archive "a.jar")
        (reloaded readOnly) = [index] ∧
      loaded.index.classes.names = [if readOnly then "a.A" else "b.B"] ∧
      index.classes.names = ["b.B"] ∧ (Blob.encode index).length < Blob.addressable := by
  have hlast : ((reloaded readOnly).2.1.evict (.archive "a.jar")).2.missed (restored readOnly).2.1 =
      false := by cases readOnly <;> decide +kernel
  have hanswer : (restored readOnly).1.toOption.map (fun loaded => loaded.index.classes.names) =
      some [if readOnly then "a.A" else "b.B"] := by cases readOnly <;> decide +kernel
  have hindexes : (madeBy (Location.archive "a.jar").cacheKey (invalidated readOnly).2.1
      (.archive "a.jar") (reloaded readOnly)).map (fun index =>
        (index.classes.names, decide ((Blob.encode index).length < Blob.addressable))) =
      [(["b.B"], true)] := by cases readOnly <;> decide +kernel
  obtain ⟨loaded, hloaded, hnames⟩ := Option.map_eq_some_iff.1 hanswer
  obtain ⟨index, hmade, hindex⟩ := List.map_eq_singleton_iff.1 hindexes
  obtain ⟨hclasses, hfits⟩ := Prod.mk.inj hindex
  have hok : (restored readOnly).1 = .ok loaded := by
    cases hrestored : (restored readOnly).1 with
    | ok other =>
      rw [hrestored] at hloaded
      exact congrArg Except.ok (Option.some.inj hloaded)
    | error e =>
      rw [hrestored] at hloaded
      cases hloaded
  exact ⟨loaded, index, hok, hlast, hmade, hnames, hclasses, of_decide_eq_true hfits⟩

/-- What a read-only store keeps comes back, when the invalidated container has been made anew and was
taken out of memory. -/
theorem left_index_comes_back : ¬ ∀ (held : ScriptedWorld → String → Option Bytes) (e₀ e : Engine)
    (w₀ w : ScriptedWorld) (l : Location) (made : List Index) (loaded : Loaded),
    ScriptedWorld.environment.Faithful held →
      (e₀.invalidate ScriptedWorld.environment l w₀).1 = .ok () →
      Run ScriptedWorld.environment held l.cacheKey (e₀.invalidate ScriptedWorld.environment l w₀).2.1
        (e₀.invalidate ScriptedWorld.environment l w₀).2.2 made e w →
      (e.load ScriptedWorld.environment l false w).1 = .ok loaded →
      e.missed (e.load ScriptedWorld.environment l false w).2.1 = true ∨ loaded.index.CopyOf made := by
  intro hnever
  obtain ⟨loaded, index, hrestored, hlast, hmade, hloaded, hindex, hfits⟩ := restored_found true
  have hrun := reloaded_run true (fun w key => w.store.entries.find? key) (Location.archive "a.jar").cacheKey
  rw [hmade] at hrun
  obtain hmissed | ⟨i, hi, hcopy⟩ := hnever _ _ _ _ _ _ _ loaded ScriptedWorld.faithful rfl hrun hrestored
  · nomatch hlast.symm.trans hmissed
  · obtain rfl := List.mem_singleton.1 hi
    rw [hcopy.eq hfits, hindex] at hloaded
    nomatch hloaded

/-- A store that can be changed has what the load in between has made. -/
theorem made_since_invalidation_of_overwritten : ∃ loaded index,
    ScriptedWorld.environment.Faithful (fun w key => w.store.entries.find? key) ∧
      (invalidated false).1 = .ok () ∧
      Run ScriptedWorld.environment (fun w key => w.store.entries.find? key)
        (Location.archive "a.jar").cacheKey (invalidated false).2.1 (invalidated false).2.2 [index]
        ((reloaded false).2.1.evict (.archive "a.jar")).2 (reloaded false).2.2 ∧
      (restored false).1 = .ok loaded ∧ loaded.index.CopyOf [index] := by
  obtain ⟨loaded, index, hrestored, hlast, hmade, hloaded, hindex, hfits⟩ := restored_found false
  have hrun := reloaded_run false (fun w key => w.store.entries.find? key) (Location.archive "a.jar").cacheKey
  rw [hmade] at hrun
  refine ⟨loaded, index, ScriptedWorld.faithful, rfl, hrun, hrestored, ?_⟩
  obtain ⟨-, ⟨hmissed, -⟩ | ⟨-, hcopy | ⟨-, hleft⟩⟩⟩ :=
    made_since_invalidation ScriptedWorld.faithful rfl hrun hrestored
  · nomatch hlast.symm.trans hmissed
  · exact hcopy
  · nomatch hleft.refused

end Engine

end ClassCatalog
