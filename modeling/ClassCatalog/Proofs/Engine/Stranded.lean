import ClassCatalog.Proofs.Engine.Release

/-!
# Indexes that no module lists

Each container of a module is loaded on its own and its index stays in memory, whatever becomes of the
open; only releases look at the records. So an index in memory belongs to a container that some record
lists, or one of the calls made so far has left it behind (`Call.Strands`): an open without a name or one
that failed, an open that replaced a record and no longer lists the container, or a release that took
another path of the container for the same.
-/

namespace ClassCatalog.Engine

variable {ω : Type} {env : Environment ω} {modules : NameMap ModuleRecord} {key name : String}
  {l : Location} {call : Call} {reply : Reply}

/-! ### What an open puts into memory -/

theorem published_tolerates (key : String) : Loading.ToleratesOthers env key
    fun s s' => s'.cache.published.find? key = s.cache.published.find? key where
  refl _ := rfl
  trans h h' := h'.trans h
  enumerate _ _ := rfl
  cancel _ _ := rfl
  work _ _ _ _ _ := rfl
  report _ _ := rfl
  publish _ _ hne := NameMap.find?_insert_of_ne _ hne _
  force _ _ := rfl
  unforce _ _ := rfl
  put _ _ _ := rfl

/-- An open puts nothing into memory but under the keys of its containers. -/
theorem published_openModule {specs : List ContainerSpec}
    (h : ∀ spec ∈ specs, key ≠ spec.location.cacheKey) (e : Engine) (cancelled : Bool) (w : ω) :
    (e.openModule env specs cancelled w).2.1.cache.published.find? key = e.cache.published.find? key :=
  keeps_loadAll (published_tolerates key).toTolerates
    (fun spec hspec => (published_tolerates key).keeps_load (h spec hspec)) _

/-! ### What a call leaves behind -/

/-- After the call an index of the container may be in memory though no record lists it. -/
inductive Call.Strands (modules : NameMap ModuleRecord) (l : Location) : Call → Reply → Prop
  /-- The module was opened without a name. -/
  | unnamed {specs : List ContainerSpec} {cancelled : Bool} {reply : Reply}
      (hl : l ∈ specs.map (·.location)) : Strands modules l (.openModule specs cancelled) reply
  /-- The open failed, for another container or after it had been loaded. -/
  | failed {name : String} {specs : List ContainerSpec} {cancelled : Bool} {e : ScanError}
      (hl : l ∈ specs.map (·.location)) :
      Strands modules l (.openNamed name specs cancelled) (.opened (.error e))
  /-- The open was broken off when everything had been loaded. -/
  | brokenOff {name : String} {specs : List ContainerSpec} {cancelled : Bool}
      (hl : l ∈ specs.map (·.location)) : Strands modules l (.openNamed name specs cancelled) .brokenOff
  /-- The module was opened anew, without the container. -/
  | replaced {name : String} {specs : List ContainerSpec} {cancelled : Bool} {v : View}
      {record : ModuleRecord} (hrecord : modules.find? name = some record) (hl : l ∈ record.containers)
      (hmissing : ∀ spec ∈ specs, spec.location.logicalPath ≠ l.logicalPath) :
      Strands modules l (.openNamed name specs cancelled) (.opened (.ok v))
  /-- Another module has the container by another path. -/
  | aliased {name : String} {reply : Reply} {record : ModuleRecord} {m : Location}
      (hrecord : modules.find? name = some record) (hl : l ∈ record.containers)
      (hm : Listed (modules.erase name) m) (hsame : m.same l = true)
      (hne : m.logicalPath ≠ l.logicalPath) : Strands modules l (.release name) reply

/-- Some call of a run does. -/
def History.Strands (l : Location) : NameMap ModuleRecord → History → Prop
  | _, [] => False
  | modules, (call, reply) :: rest =>
    call.Strands modules l reply ∨ Strands l (call.recorded modules reply) rest

/-- Some record lists a container with this key. -/
def Owned (modules : NameMap ModuleRecord) (key : String) : Prop :=
  ∃ l, Listed modules l ∧ l.cacheKey = key

theorem listed_iff :
    Listed modules l ↔ ∃ name record, modules.find? name = some record ∧ l ∈ record.containers := by
  simp only [Listed, NameMap.mem_values_iff]
  constructor
  · rintro ⟨record, ⟨name, hname⟩, hl⟩
    exact ⟨name, record, hname, hl⟩
  · rintro ⟨name, record, hname, hl⟩
    exact ⟨record, ⟨name, hname⟩, hl⟩

/-- A listed container is listed under this name or is listed without it. -/
theorem Listed.erase_or (h : Listed modules l) (name : String) :
    Listed (modules.erase name) l ∨ ∃ record, modules.find? name = some record ∧ l ∈ record.containers := by
  obtain ⟨other, record, hother, hl⟩ := listed_iff.mp h
  by_cases hname : other = name
  · exact .inr ⟨record, hname ▸ hother, hl⟩
  · refine .inl (listed_iff.mpr ⟨other, record, ?_, hl⟩)
    rw [NameMap.find?_erase, if_neg hname, hother]

theorem Listed.insert (h : Listed (modules.erase name) l) (record : ModuleRecord) :
    Listed (modules.insert name record) l := by
  obtain ⟨other, record', hother, hl⟩ := listed_iff.mp h
  rw [NameMap.find?_erase] at hother
  split at hother
  · cases hother
  next hne =>
    refine listed_iff.mpr ⟨other, record', ?_, hl⟩
    rw [NameMap.find?_insert_of_ne _ hne, hother]

theorem listed_insert_self {record : ModuleRecord} (hl : l ∈ record.containers) :
    Listed (modules.insert name record) l :=
  listed_iff.mpr ⟨name, record, NameMap.find?_insert_self .., hl⟩

/-- Something is in memory under a key. -/
def Has (e : Engine) (key : String) : Prop := e.cache.published.contains key = true

/-- Something is in memory under a key that no record accounts for. -/
def Astray (e : Engine) (key : String) : Prop := e.Has key ∧ ¬ Owned e.modules key

/-- What is in memory under a key after a call is owned, or the call has left it behind, or it was astray
before. -/
def Traced (key : String) (e : Engine) (call : Call) (reply : Reply) (e' : Engine) : Prop :=
  e'.Has key → Owned e'.modules key ∨ (∃ l, call.Strands e.modules l reply ∧ l.cacheKey = key) ∨
    e.Astray key

variable {e e' : Engine}

theorem has_congr (h : e'.cache.published.find? key = e.cache.published.find? key) :
    e'.Has key ↔ e.Has key := by
  unfold Has NameMap.contains
  rw [h]

/-- A call that keeps the records and puts nothing into memory under the key. -/
theorem Traced.of_kept (hmodules : e'.modules = e.modules) (hkept : e'.Has key → e.Has key) :
    Traced key e call reply e' := by
  intro h
  by_cases howned : Owned e.modules key
  · exact .inl (hmodules ▸ howned)
  · exact .inr (.inr ⟨hkept h, howned⟩)

theorem exists_spec_or (specs : List ContainerSpec) (key : String) :
    (∃ l ∈ specs.map (·.location), l.cacheKey = key) ∨ ∀ spec ∈ specs, key ≠ spec.location.cacheKey := by
  by_cases h : ∃ l ∈ specs.map (·.location), l.cacheKey = key
  · exact .inl h
  · exact .inr fun spec hspec heq => h ⟨_, List.mem_map_of_mem hspec, heq.symm⟩

theorem traced_openModule (e : Engine) (specs : List ContainerSpec) (cancelled : Bool) (w : ω) :
    Traced key e (.openModule specs cancelled) reply (e.openModule env specs cancelled w).2.1 := by
  rcases exists_spec_or specs key with ⟨l, hl, hkey⟩ | hother
  · exact fun _ => .inr (.inl ⟨l, .unnamed hl, hkey⟩)
  · exact .of_kept rfl (has_congr (published_openModule hother e cancelled w)).mp

theorem traced_openNamed (e : Engine) (name : String) (specs : List ContainerSpec) (cancelled : Bool)
    (w : ω) :
    Traced key e (.openNamed name specs cancelled)
      ((e.openNamed env name specs cancelled w).1.elim .brokenOff .opened)
      (e.openNamed env name specs cancelled w).2.1 := by
  have hkept : (∀ spec ∈ specs, key ≠ spec.location.cacheKey) →
      (e.openModule env specs cancelled w).2.1.Has key → e.Has key :=
    fun hother => (has_congr (published_openModule hother e cancelled w)).mp
  cases openNamed_cases env e name specs cancelled w with
  | failed _ h =>
    rw [h]
    rcases exists_spec_or specs key with ⟨l, hl, hkey⟩ | hother
    · exact fun _ => .inr (.inl ⟨l, .failed hl, hkey⟩)
    · exact .of_kept rfl (hkept hother)
  | brokenOff _ _ h =>
    rw [h]
    rcases exists_spec_or specs key with ⟨l, hl, hkey⟩ | hother
    · exact fun _ => .inr (.inl ⟨l, .brokenOff hl, hkey⟩)
    · exact .of_kept rfl (hkept hother)
  | recorded _ _ h =>
    rw [h]
    rcases exists_spec_or specs key with ⟨l, hl, hkey⟩ | hother
    · exact fun _ => .inl ⟨l, listed_insert_self hl, hkey⟩
    intro h
    by_cases howned : Owned e.modules key
    · obtain ⟨l, hl, hkey⟩ := howned
      rcases hl.erase_or name with hrest | ⟨record, hrecord, hl⟩
      · exact .inl ⟨l, hrest.insert _, hkey⟩
      · refine .inr (.inl ⟨l, .replaced hrecord hl fun spec hspec hpath => ?_, hkey⟩)
        refine hother spec hspec ?_
        rw [← hkey, Location.cacheKey, Location.cacheKey, hpath]
    · exact .inr (.inr ⟨hkept hother h, howned⟩)

theorem traced_release (e : Engine) (name : String) :
    Traced key e (.release name) reply (e.release name).2 := by
  cases hfind : e.modules.find? name with
  | none =>
    rw [release_unknown hfind]
    exact .of_kept rfl id
  | some record =>
    obtain ⟨hwithout, -⟩ := release_without hfind
    intro h
    have hstays : ¬ ∃ l ∈ record.containers, l.cacheKey = key ∧
        ∀ m, Listed (e.modules.erase name) m → m.same l = false :=
      fun hgone => Option.isSome_iff_ne_none.mp h (hwithout.lost hgone)
    rw [modules_release]
    by_cases howned : Owned e.modules key
    · obtain ⟨l, hl, hkey⟩ := howned
      rcases hl.erase_or name with hrest | ⟨record', hrecord', hl⟩
      · exact .inl ⟨l, hrest, hkey⟩
      · obtain rfl := Option.some.inj (hfind.symm.trans hrecord')
        -- It was kept because another record lists the container, by this path or by another.
        obtain ⟨m, hm, hsame⟩ : ∃ m, Listed (e.modules.erase name) m ∧ m.same l = true := by
          refine Classical.byContradiction fun hnone => hstays ⟨l, hl, hkey, fun m hm => ?_⟩
          exact Bool.eq_false_iff.mpr fun hsame => hnone ⟨m, hm, hsame⟩
        by_cases hpath : m.logicalPath = l.logicalPath
        · refine .inl ⟨m, hm, ?_⟩
          rw [← hkey, Location.cacheKey, Location.cacheKey, hpath]
        · exact .inr (.inl ⟨l, .aliased hfind hl hm hsame hpath, hkey⟩)
    · exact .inr (.inr ⟨(has_congr (hwithout.kept hstays)).mp h, howned⟩)

theorem has_of_evict (h : (e.evict l).2.Has key) : e.Has key := by
  by_cases hkey : l.cacheKey = key
  · exact absurd ((Without.evict e l).lost hkey) (Option.isSome_iff_ne_none.mp h)
  · exact (has_congr ((Without.evict e l).kept hkey)).mp h

/-! ### Whose the indexes in memory are -/

namespace Client

theorem traced_call (c : Client ω) (call : Call) (key : String) :
    Traced key c.engine call (c.call env call).1 (c.call env call).2.engine := by
  cases call with
  | openModule specs cancelled => exact traced_openModule c.engine specs cancelled c.world
  | openNamed name specs cancelled => exact traced_openNamed c.engine name specs cancelled c.world
  | release name => exact traced_release c.engine name
  | evict l => exact .of_kept rfl has_of_evict
  | invalidate l =>
    have hcache : (c.engine.invalidate env l c.world).2.1.cache =
        ((c.engine.cache.force l.cacheKey).evict l).2.report (.invalidated l.logicalPath) :=
      Cache.invalidate_cache ..
    have hevicted : (c.engine.invalidate env l c.world).2.1.cache.published =
        (c.engine.evict l).2.cache.published := by
      rw [hcache]
      rfl
    exact .of_kept rfl fun h => has_of_evict ((has_congr (congrArg (·.find? key) hevicted)).mp h)
  | clearStore => exact .of_kept rfl id
  | stats => exact .of_kept rfl id
  | query n options request =>
    obtain ⟨events, hengine⟩ := c.ask_engine n options request
    have hkept : Traced key c.engine (.query n options request) (c.ask n options request).1
        (c.ask n options request).2.engine := by
      rw [hengine]
      exact .of_kept rfl id
    exact hkept

/-- Nothing but the calls of a run leaves an index behind that no record accounts for. -/
theorem traced_run (turns : List (Turn ω)) {c : Client ω} (h : (run env turns c).2.engine.Has key) :
    Owned (run env turns c).2.engine.modules key ∨
      (∃ l, (run env turns c).1.Strands l c.engine.modules ∧ l.cacheKey = key) ∨ c.engine.Astray key := by
  induction turns generalizing c with
  | nil =>
    by_cases howned : Owned c.engine.modules key
    · exact .inl howned
    · exact .inr (.inr ⟨h, howned⟩)
  | cons t turns ih =>
    have hmodules : t.call.recorded c.engine.modules (c.turn env t).1 = (c.turn env t).2.engine.modules :=
      (modules_call _ t.call).symm
    rcases ih h with howned | ⟨l, hl, hkey⟩ | ⟨hbefore, hunowned⟩
    · exact .inl howned
    · exact .inr (.inl ⟨l, .inr (hmodules ▸ hl), hkey⟩)
    · rcases traced_call { c with world := t.change c.world } t.call key hbefore with howned | hleft | hastray
      · exact absurd howned hunowned
      · obtain ⟨l, hl, hkey⟩ := hleft
        exact .inr (.inl ⟨l, .inl hl, hkey⟩)
      · exact .inr (.inr hastray)

end Client

/-- After any run, an index in memory belongs to a container that some record lists, unless a call of the
run has left it behind. If none has, an engine without modules has nothing in memory. -/
theorem published_is_owned_or_stranded (env : Environment ω) (options : EngineOptions) (world : ω)
    (turns : List (Turn ω)) :
    let history := (Client.run env turns ⟨{ options }, world, []⟩).1
    let e := (Client.run env turns ⟨{ options }, world, []⟩).2.engine
    (∀ key loaded, e.cache.published.find? key = some loaded →
      (∃ l, Listed e.modules l ∧ l.cacheKey = key) ∨ ∃ l, history.Strands l ∅ ∧ l.cacheKey = key) ∧
    ((∀ l, ¬ history.Strands l ∅) →
      (∀ key loaded, e.cache.published.find? key = some loaded →
        ∃ l, Listed e.modules l ∧ l.cacheKey = key) ∧
      (e.modules.isEmpty = true → e.cache.published.size = 0)) := by
  intro history e
  have htraced : ∀ key loaded, e.cache.published.find? key = some loaded →
      Owned e.modules key ∨ ∃ l, history.Strands l ∅ ∧ l.cacheKey = key := by
    intro key loaded hfind
    have hhas : e.Has key := congrArg Option.isSome hfind
    rcases Client.traced_run turns hhas with howned | hleft | ⟨hbefore, -⟩
    · exact .inl howned
    · exact .inr hleft
    · cases hbefore
  refine ⟨htraced, fun hnone => ?_⟩
  have howned : ∀ key loaded, e.cache.published.find? key = some loaded → Owned e.modules key :=
    fun key loaded hfind => (htraced key loaded hfind).resolve_right fun ⟨l, hl, _⟩ => hnone l hl
  refine ⟨howned, fun hempty => ?_⟩
  have hrecords : e.modules.values = [] := by
    show e.modules.entries.map _ = []
    rw [List.isEmpty_iff.mp hempty]
    rfl
  have hnames : e.cache.published.names = [] := by
    refine List.eq_nil_iff_forall_not_mem.mpr fun key hkey => ?_
    obtain ⟨loaded, hfind⟩ := NameMap.mem_names_iff.mp hkey
    obtain ⟨l, ⟨record, hrecord, -⟩, -⟩ := howned key loaded hfind
    rw [hrecords] at hrecord
    nomatch hrecord
  have hlength : e.cache.published.names.length = e.cache.published.size := List.length_map ..
  rw [← hlength, hnames]
  rfl

/-- A module whose archive is replaced by another, and a module that cannot be opened. -/
def movedModule : List (Turn ScriptedWorld) :=
  [⟨id, .openNamed "m" [⟨.archive "own.jar", .seed⟩] false⟩,
    ⟨id, .openNamed "m" [⟨.archive "shared.jar", .seed⟩] false⟩, ⟨id, .release "m"⟩]

def brokenModule : List (Turn ScriptedWorld) :=
  [⟨id, .openNamed "m" [⟨.archive "own.jar", .seed⟩, ⟨.archive "missing.jar", .seed⟩] false⟩]

/-- Either leaves an index in memory when no module is open any more. -/
theorem index_outlives_module :
    let left (turns : List (Turn ScriptedWorld)) :=
      (Client.run ScriptedWorld.environment turns ⟨{}, ownAndShared, []⟩).2.engine
    ((left movedModule).modules.isEmpty = true ∧ (left movedModule).cache.published.size = 1) ∧
      (left brokenModule).modules.isEmpty = true ∧ (left brokenModule).cache.published.size = 1 := by
  decide +kernel

/-- Whether a view was opened that has a table. -/
def Reply.isView : Reply → Bool
  | opened (.ok v) => v.table?.isSome
  | _ => false

theorem Reply.eq_of_isView {r : Reply} (h : r.isView = true) :
    ∃ v rows, r = .opened (.ok v) ∧ v.table? = some rows := by
  unfold isView at h
  split at h
  · obtain ⟨rows, hrows⟩ := Option.isSome_iff_exists.mp h
    exact ⟨_, rows, rfl, hrows⟩
  · cases h

/-- A module that gets a further archive, and is released. -/
def grownModule : List (Turn ScriptedWorld) :=
  [⟨id, .openNamed "m" [⟨.archive "own.jar", .seed⟩] false⟩,
    ⟨id, .openNamed "m" [⟨.archive "own.jar", .seed⟩, ⟨.archive "shared.jar", .seed⟩] false⟩,
    ⟨id, .release "m"⟩]

def ranGrownModule : History × Client ScriptedWorld :=
  Client.run ScriptedWorld.environment grownModule ⟨{}, ownAndShared, []⟩

/-- Its archives are listed until then, so nothing is left behind. -/
theorem nothing_outlives_grownModule :
    let e := ranGrownModule.2.engine
    (∀ l, ¬ ranGrownModule.1.Strands l ∅) ∧ e.modules.isEmpty = true ∧ e.cache.published.size = 0 := by
  have hempty : ranGrownModule.2.engine.modules.isEmpty = true := by decide +kernel
  have hcalls : ranGrownModule.1.map Prod.fst = grownModule.map (·.call) := Client.calls_run ..
  have hopened : ranGrownModule.1.map (fun p => p.2.isView) = [true, true, false] := by decide +kernel
  obtain ⟨-, howned⟩ := published_is_owned_or_stranded ScriptedWorld.environment {} ownAndShared grownModule
  rw [show Client.run _ grownModule _ = ranGrownModule from rfl] at howned
  generalize ranGrownModule = ran at *
  have hnone : ∀ l, ¬ ran.1.Strands l ∅ := by
    generalize ran.1 = history at *
    obtain ⟨⟨_, r⟩, _, rfl, rfl, hcalls₁⟩ := List.map_eq_cons_iff.mp hcalls
    obtain ⟨⟨_, r'⟩, _, rfl, rfl, hcalls₂⟩ := List.map_eq_cons_iff.mp hcalls₁
    obtain ⟨⟨_, r''⟩, _, rfl, rfl, hcalls₃⟩ := List.map_eq_cons_iff.mp hcalls₂
    obtain rfl := List.map_eq_nil_iff.mp hcalls₃
    simp only [List.map_cons, List.map_nil, List.cons.injEq, and_true] at hopened
    obtain ⟨hr, hr', -⟩ := hopened
    obtain ⟨v, rows, rfl, htable⟩ := Reply.eq_of_isView hr
    obtain ⟨v', rows', rfl, htable'⟩ := Reply.eq_of_isView hr'
    rintro l (h | h | h | h)
    · rcases h with - | - | - | ⟨hrecord, -, -⟩
      cases hrecord
    · rcases h with - | - | - | ⟨hrecord, hl, hmissing⟩
      simp only [Call.recorded, htable] at hrecord
      obtain rfl := Option.some.inj hrecord
      obtain rfl := List.mem_singleton.mp hl
      exact hmissing _ List.mem_cons_self rfl
    · rcases h with - | - | - | - | ⟨-, -, hm, -, -⟩
      obtain ⟨name, record, hfind, -⟩ := listed_iff.mp hm
      simp only [Call.recorded, htable, htable', NameMap.find?_erase, NameMap.find?_insert] at hfind
      split at hfind
      · cases hfind
      · cases hfind
    · exact h
  exact ⟨hnone, hempty, (howned hnone).2 hempty⟩

end ClassCatalog.Engine
