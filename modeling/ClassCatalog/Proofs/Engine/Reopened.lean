import ClassCatalog.Proofs.Cache.OneKey
import ClassCatalog.Proofs.Cache.Reloading
import ClassCatalog.Proofs.Engine.Schedule
import ClassCatalog.Proofs.Store.Shelves
import ClassCatalog.Proofs.View.Equality

/-!
# Opening again

A module whose containers nobody changes is opened again. The engine that opened it has all indexes in memory
(`Engine.Backs`) and makes the same view of them. A new engine over the same store finds there what the first has
stored, or makes it anew, unless the first went on with an index that only it had (`Loading.Restores`). Its view
agrees but for the numbers of loadings, so that the two are the same if they are plain.
-/

namespace ClassCatalog

variable {ω : Type} {env : Environment ω} {settings : CacheSettings} {w w' : ω}

/-! ### Views -/

namespace View

variable {u v : View}

theorem table?_withoutSerials (v : View) : v.withoutSerials.table? = v.table? := by
  unfold table? withoutSerials
  rw [List.mapM_map]
  rfl

theorem classes_withoutSerials (v : View) : v.withoutSerials.classes = v.classes := by
  have hclass : v.withoutSerials.class? = v.class? := by
    funext name
    unfold class? containerOf? withoutSerials
    cases v.lookup.find? name with
    | none => rfl
    | some position =>
      simp only [Option.bind_some, List.getElem?_map]
      cases v.containers[position]? <;> rfl
  exact congrArg (fun f => v.classNames.filterMap f) hclass

theorem Plain.same_of_withoutSerials (hu : u.Plain) (h : v.withoutSerials = u.withoutSerials) :
    u.same? v = some true := by
  have htable : v.table? = u.table? := by rw [← table?_withoutSerials, h, table?_withoutSerials]
  have hclasses : v.classes = u.classes := by rw [← classes_withoutSerials, h, classes_withoutSerials]
  have hlookup : v.withoutSerials.lookup = u.withoutSerials.lookup := congrArg View.lookup h
  change v.lookup = u.lookup at hlookup
  have hself := hu.same_self
  unfold same? at hself ⊢
  rwa [htable, hclasses, hlookup]

end View

/-! ### What the store brings back -/

theorem Environment.stored?_congr {key : String} {current : Identity}
    (h : env.store.get key w' = env.store.get key w) :
    env.stored? settings key current w' = env.stored? settings key current w := by
  unfold stored?
  rw [h]

namespace Loading

variable {l k : Location} {key : String} {current : Identity} {made : Except ScanError Index} {c c' : Cache}
  {index : Index} {loaded : Loaded}

/-- What an engine goes on with is not lost with its memory: the index in memory that may be used is the one in the
store, or what reading the container makes if none there may be used; and if the container is to be made anew, the
index in the store that may be used is what reading it makes. -/
structure Restores (env : Environment ω) (settings : CacheSettings) (key : String) (current : Identity)
    (made : Except ScanError Index) (c : Cache) (w : ω) : Prop where
  remembered {index : Index} (h : c.usable? settings key current = some index) :
    env.stored? settings key current w = some index ∨
      env.stored? settings key current w = none ∧ made = .ok index
  forced {index : Index} (hforced : c.forced.contains key = true)
    (h : env.stored? settings key current w = some index) : made = .ok index

theorem usable?_of_has (h : c.Has settings key current loaded) :
    c.usable? settings key current = some loaded.index := by
  unfold Cache.usable?
  rw [h.unforced, h.published]
  simp [Option.filter, h.accepts]

theorem usable?_congr (hpublished : c'.published.find? key = c.published.find? key)
    (hforced : c'.forced.contains key = c.forced.contains key) :
    c'.usable? settings key current = c.usable? settings key current := by
  unfold Cache.usable?
  rw [hpublished, hforced]

/-- A new cache has nothing to lose. -/
theorem Restores.fresh : Restores env settings key current made {} w := ⟨nofun, nofun⟩

/-- A load brings its index back from the world it leaves. -/
theorem Restores.load (h : Restores env settings l.cacheKey current made c w') (hshelves : env.Shelves w)
    (hw : env.Writes w w') (hfits : ∀ index, made = .ok index → (Blob.encode index).length < Blob.addressable)
    {w'' : ω} (hfinds : Finds env settings l.cacheKey current made c w' loaded.index w'')
    (hhas : c'.Has settings l.cacheKey current loaded) :
    Restores env settings l.cacheKey current made c' w'' := by
  refine ⟨fun {index} hindex => ?_, fun hforced => ?_⟩
  · rw [usable?_of_has hhas] at hindex
    obtain rfl := Option.some.inj hindex
    cases hfinds with
    | remembered hremembered => exact h.remembered hremembered
    | stored hforced hstored => exact .inl hstored
    | made hnone hmade =>
      cases hfound : env.stored? settings l.cacheKey current _ with
      | none => exact .inr ⟨rfl, hmade⟩
      | some found =>
        refine .inl (congrArg some ?_)
        obtain ⟨hdisabled, bytes, hget, hdecode, haccepts⟩ := Environment.stored?_eq_some.1 hfound
        rw [hdisabled] at hget
        rcases hshelves.own hw l hget with rfl | hbefore
        · rw [Blob.decode_encode (hfits _ hmade)] at hdecode
          exact (Except.ok.inj hdecode).symm
        -- The write has failed, and what was there before may be used: then the container was to be made anew.
        · have hold : env.stored? settings l.cacheKey current w' = some found :=
            Environment.stored?_eq_some.2 ⟨hdisabled, bytes, hbefore, hdecode, haccepts⟩
          rcases hnone with hforced | hnone
          · exact Except.ok.inj ((h.forced hforced hold).symm.trans hmade)
          · nomatch hnone.symm.trans hold
  · nomatch hhas.unforced.symm.trans hforced

theorem Restores.congr (h : Restores env settings key current made c w)
    (husable : c'.usable? settings key current = c.usable? settings key current)
    (hforced : c'.forced.contains key = c.forced.contains key)
    (hstored : env.stored? settings key current w' = env.stored? settings key current w) :
    Restores env settings key current made c' w' := by
  refine ⟨fun hindex => ?_, fun hforced' hfound => h.forced (hforced ▸ hforced') (hstored ▸ hfound)⟩
  rw [hstored]
  exact h.remembered (husable ▸ hindex)

/-- A new cache brings back what may be used in the old one. -/
theorem Restores.yields_empty (h : Restores env settings key current made c w)
    (hhas : c.Has settings key current loaded) :
    yields env settings key current made {} w = .ok loaded.index := by
  have hempty : Cache.usable? {} settings key current = none := rfl
  have hunforced : (Cache.forced {}).contains key = false := rfl
  simp only [yields, hempty, hunforced, Bool.false_eq_true, if_false]
  rcases h.remembered (usable?_of_has hhas) with hstored | ⟨hnone, hmade⟩
  · rw [hstored]
  · rw [hnone, hmade]

theorem yields_of_has (h : c.Has settings key current loaded) :
    yields env settings key current made c w = .ok loaded.index := by
  rw [yields, usable?_of_has h]

theorem yields_congr (husable : c'.usable? settings key current = c.usable? settings key current)
    (hforced : c'.forced.contains key = c.forced.contains key)
    (hstored : env.stored? settings key current w' = env.stored? settings key current w) :
    yields env settings key current made c' w' = yields env settings key current made c w := by
  rw [yields, yields, husable, hforced, hstored]

/-- A load writes under its own key only. -/
theorem stored?_of_finds (hshelves : env.Shelves w) (hw : env.Writes w w') {w'' : ω}
    (hfinds : Finds env settings l.cacheKey current made c w' index w'') (hne : k.cacheKey ≠ l.cacheKey)
    (other : Identity) : env.stored? settings k.cacheKey other w'' = env.stored? settings k.cacheKey other w' := by
  cases hfinds with
  | remembered => rfl
  | stored => rfl
  | made =>
    cases hdisabled : settings.disabled with
    | true => rfl
    | false => exact Environment.stored?_congr (hshelves.other hw _ hne)

end Loading

/-! ### Loads one after the other -/

namespace Engine

variable {specs : List ContainerSpec} {spec : ContainerSpec} {cancelled : Bool} {listing : Location → Enumeration}
  {s : Session ω} {v : ViewContainer} {containers : List ViewContainer}

theorem allOk_cons_eq_ok {result : Except ScanError ViewContainer} {results : List (Except ScanError ViewContainer)} :
    allOk (result :: results) = .ok containers ↔
      ∃ c others, result = .ok c ∧ allOk results = .ok others ∧ containers = c :: others := by
  cases result with
  | error e => simp [allOk]
  | ok c =>
    rw [allOk]
    cases allOk results with
    | error e => simp [Except.map]
    | ok others => simp [Except.map, eq_comm]

/-- The container of a view that a load makes. -/
abbrev loadedAs (spec : ContainerSpec) (loaded : Loaded) : ViewContainer := ⟨spec, loaded.index, loaded.serial⟩

/-- What every load that succeeds preserves or establishes, loading all containers does if it succeeds. -/
theorem loadAll_run {P : Session ω → Prop} {G : ViewContainer → Session ω → Prop}
    (hload : ∀ spec ∈ specs, ∀ s, P s → wp (Loading.load env settings spec.location) (fun r s' =>
      ∀ loaded, r = .ok loaded → P s' ∧ G (loadedAs spec loaded) s' ∧ ∀ v, G v s → G v s') s)
    (hs : P s) (hok : allOk (loadAll env settings specs s).1 = .ok containers) :
    P (loadAll env settings specs s).2 ∧ containers.map ViewContainer.spec = specs ∧
      (∀ c ∈ containers, G c (loadAll env settings specs s).2) ∧
      ∀ v, G v s → G v (loadAll env settings specs s).2 := by
  induction specs generalizing s containers with
  | nil =>
    cases hok
    exact ⟨hs, rfl, nofun, fun _ => id⟩
  | cons spec specs ih =>
    have hfirst : ∀ loaded, (loadOne env settings spec s).1 = .ok loaded → P (loadOne env settings spec s).2 ∧
        G (loadedAs spec loaded) (loadOne env settings spec s).2 ∧
        ∀ v, G v s → G v (loadOne env settings spec s).2 := hload spec List.mem_cons_self s hs
    rw [loadAll_cons] at hok ⊢
    generalize loadOne env settings spec s = ran at hfirst hok ⊢
    obtain ⟨r, s'⟩ := ran
    obtain ⟨c, others, hc, hothers, rfl⟩ := allOk_cons_eq_ok.1 hok
    cases r with
    | error e => nomatch hc
    | ok loaded =>
      obtain rfl := Except.ok.inj hc
      obtain ⟨hs', hgiven, hkept⟩ := hfirst loaded rfl
      obtain ⟨hend, hspecs, hall, hlater⟩ := ih (fun other hother => hload other (List.mem_cons_of_mem _ hother))
        hs' hothers
      refine ⟨hend, congrArg (spec :: ·) hspecs, List.forall_mem_cons.2 ⟨hlater _ hgiven, hall⟩, ?_⟩
      exact fun v hv => hlater v (hkept v hv)

/-- What a load that succeeds has done. -/
theorem wp_load_ok (h : env.Calm settings specs w listing) (hspec : spec ∈ specs) (hw : env.Writes w s.world) :
    wp (Loading.load env settings spec.location) (fun r s' => ∀ loaded, r = .ok loaded →
      ∃ current, Loading.identityOf env settings spec.location w = .ok current ∧
        s'.cache.Has settings spec.location.cacheKey current loaded ∧
        Loading.Finds env settings spec.location.cacheKey current
          (Scan.outcomeFor s.cancelled spec.location current (listing spec.location)) s.cache s.world
          loaded.index s'.world ∧
        Loading.yields env settings spec.location.cacheKey current
          (Scan.outcomeFor s.cancelled spec.location current (listing spec.location)) s.cache s.world =
            .ok loaded.index ∧
        env.Writes w s'.world ∧ s'.cancelled = s.cancelled) s := by
  have hstill := h.still hspec
  have hundisturbed := hstill.undisturbed hw
  have hidentity : Loading.identityOf env settings spec.location s.world = _ := hstill.identityOf hw
  cases hcurrent : Loading.identityOf env settings spec.location w with
  | error e =>
    rw [hcurrent] at hidentity
    unfold Loading.load
    rw [wp_bind, Loading.wp_resolve hundisturbed, hidentity]
    exact nofun
  | ok current =>
    rw [hcurrent] at hidentity
    refine wp_mono (wp_and (Loading.wp_load_found hundisturbed hidentity) (Loading.wp_load_holds hidentity)) ?_
    rintro r s' ⟨⟨hyields, hfinds, hwrites, hcancelled⟩, hholds⟩ loaded rfl
    exact ⟨current, rfl, hholds loaded rfl, hfinds loaded rfl, hyields.symm, hw.trans hwrites, hcancelled⟩

/-! ### The same engine -/

/-- The index of a container of a view is in memory, and may be used. -/
def Backs (env : Environment ω) (settings : CacheSettings) (w : ω) (v : ViewContainer) (s : Session ω) : Prop :=
  ∃ current, Loading.identityOf env settings v.spec.location w = .ok current ∧
    s.cache.Has settings v.spec.location.cacheKey current ⟨v.index, v.serial⟩

theorem backs_load (h : env.Calm settings specs w listing) (hspec : spec ∈ specs) (hv : v.spec ∈ specs)
    (hw : env.Writes w s.world) (hbacks : Backs env settings w v s) :
    wp (Loading.load env settings spec.location) (fun _ s' => Backs env settings w v s') s := by
  obtain ⟨current, hcurrent, hhas⟩ := hbacks
  have hstill := h.still hspec
  by_cases hkey : v.spec.location.cacheKey = spec.location.cacheKey
  · have hidentity : Loading.identityOf env settings spec.location s.world = _ := hstill.identityOf hw
    cases hcurrent' : Loading.identityOf env settings spec.location w with
    | error e =>
      rw [hcurrent'] at hidentity
      unfold Loading.load
      rw [wp_bind, Loading.wp_resolve (hstill.undisturbed hw), hidentity]
      exact ⟨current, hcurrent, hhas⟩
    | ok current' =>
      rw [hcurrent'] at hidentity
      obtain ⟨rfl, -⟩ := h.one hv hspec hkey hcurrent hcurrent'
      rw [hkey] at hhas
      obtain ⟨t, hcache, hrun⟩ := Loading.free_of_has hhas hidentity
      unfold wp
      rw [hrun env.store]
      refine ⟨current, hcurrent, ?_⟩
      rw [hkey, hcache]
      exact hhas.congr rfl rfl
  · have halike : wp (Loading.load env settings spec.location)
        (fun _ s' => Session.Alike (fun _ => ()) v.spec.location.cacheKey s s') s :=
      (Loading.alike_tolerates (fun _ _ => rfl) fun _ _ _ => rfl).keeps_load hkey s
    exact wp_mono halike fun _ _ halike => ⟨current, hcurrent, hhas.congr halike.published halike.forced⟩

/-- An engine that has loaded all containers loads them again as they are. -/
theorem loadAll_of_backs (h : env.Calm settings specs w listing) (hspecs : ∀ v ∈ containers, v.spec ∈ specs)
    (hbacks : ∀ v ∈ containers, Backs env settings w v s) (hw : env.Writes w s.world) :
    allOk (loadAll env settings (containers.map ViewContainer.spec) s).1 = .ok containers := by
  induction containers generalizing s with
  | nil => rfl
  | cons v others ih =>
    obtain ⟨hv, hspecs⟩ := List.forall_mem_cons.1 hspecs
    obtain ⟨⟨current, hcurrent, hhas⟩, hothers⟩ := List.forall_mem_cons.1 hbacks
    have hidentity : Loading.identityOf env settings v.spec.location s.world = .ok current :=
      ((h.still hv).identityOf hw).trans hcurrent
    obtain ⟨t, hcache, hrun⟩ := Loading.free_of_has hhas hidentity
    have hload : loadOne env settings v.spec s = (.ok ⟨v.index, v.serial⟩, t) := hrun env.store
    have hworld : env.Writes w (loadOne env settings v.spec s).2.world := by
      obtain ⟨-, -, -, -, -, hworld, -⟩ : ∃ current, _ := wp_load_ok h hv hw _ (congrArg Prod.fst hload)
      exact hworld
    rw [List.map_cons, loadAll_cons]
    rw [hload] at hworld ⊢
    refine allOk_cons_eq_ok.2 ⟨_, others, rfl, ih hspecs (fun v hv => ?_) hworld, rfl⟩
    obtain ⟨current, hcurrent, hhas⟩ := hothers v hv
    refine ⟨current, hcurrent, ?_⟩
    rw [hcache]
    exact hhas.congr rfl rfl

theorem loadAll_backs (h : env.Calm settings specs w listing) (hw : env.Writes w s.world)
    (hok : allOk (loadAll env settings specs s).1 = .ok containers) :
    env.Writes w (loadAll env settings specs s).2.world ∧ containers.map ViewContainer.spec = specs ∧
      ∀ v ∈ containers, v.spec ∈ specs ∧ Backs env settings w v (loadAll env settings specs s).2 := by
  have hload : ∀ spec ∈ specs, ∀ s : Session ω, env.Writes w s.world →
      wp (Loading.load env settings spec.location) (fun r s' => ∀ loaded, r = .ok loaded →
        env.Writes w s'.world ∧ (spec ∈ specs ∧ Backs env settings w (loadedAs spec loaded) s') ∧
        ∀ v, (v.spec ∈ specs ∧ Backs env settings w v s) → (v.spec ∈ specs ∧ Backs env settings w v s')) s := by
    intro spec hspec s hw
    have hkeeps : wp (Loading.load env settings spec.location) (fun _ s' => ∀ v : ViewContainer,
        (v.spec ∈ specs ∧ Backs env settings w v s) → (v.spec ∈ specs ∧ Backs env settings w v s')) s :=
      fun v hv => ⟨hv.1, backs_load h hspec hv.1 hw hv.2⟩
    refine wp_mono (wp_and (wp_load_ok h hspec hw) hkeeps) ?_
    rintro r s' ⟨hok, hkeeps⟩ loaded hloaded
    obtain ⟨current, hcurrent, hhas, -, -, hwrites, -⟩ := hok loaded hloaded
    exact ⟨hwrites, ⟨hspec, current, hcurrent, hhas⟩, hkeeps⟩
  obtain ⟨hend, hspecs, hbacks, -⟩ := loadAll_run (P := fun s => env.Writes w s.world)
    (G := fun v s => v.spec ∈ specs ∧ Backs env settings w v s) hload hw hok
  exact ⟨hend, hspecs, hbacks⟩

/-! ### A new engine -/

section

variable (env settings specs cancelled w listing)

/-- The store is one for the containers of a list, and the indexes that are made of them can be written to it. -/
structure Lasting : Prop where
  shelves : env.Shelves w
  fits {spec : ContainerSpec} (h : spec ∈ specs) {current : Identity}
    (hcurrent : Loading.identityOf env settings spec.location w = .ok current) (index : Index)
    (hmade : Scan.outcomeFor cancelled spec.location current (listing spec.location) = .ok index) :
    (Blob.encode index).length < Blob.addressable

/-- A new cache brings back what one goes on with for the containers of a list. -/
def Recovers (s : Session ω) : Prop :=
  ∀ spec ∈ specs, ∀ current, Loading.identityOf env settings spec.location w = .ok current →
    Loading.Restores env settings spec.location.cacheKey current
      (Scan.outcomeFor cancelled spec.location current (listing spec.location)) s.cache s.world

/-- What a load would return for a container of a view is the index it has there. -/
def Ready (v : ViewContainer) (s : Session ω) : Prop :=
  ∃ current, Loading.identityOf env settings v.spec.location w = .ok current ∧
    Loading.yields env settings v.spec.location.cacheKey current
      (Scan.outcomeFor cancelled v.spec.location current (listing v.spec.location)) s.cache s.world = .ok v.index

end

/-- There is the same under a key, in memory and in the store. -/
structure Unchanged (env : Environment ω) (settings : CacheSettings) (key : String) (s s' : Session ω) : Prop where
  usable (current : Identity) : s'.cache.usable? settings key current = s.cache.usable? settings key current
  forced : s'.cache.forced.contains key = s.cache.forced.contains key
  stored (current : Identity) :
    env.stored? settings key current s'.world = env.stored? settings key current s.world

/-- A load that succeeds changes nothing for another container, or what it finds is found for that one too. -/
theorem wp_load_each (h : env.Calm settings specs w listing) (hshelves : env.Shelves w) (hspec : spec ∈ specs)
    (hw : env.Writes w s.world) :
    wp (Loading.load env settings spec.location) (fun r s' => ∀ loaded, r = .ok loaded →
      env.Writes w s'.world ∧ s'.cancelled = s.cancelled ∧ ∀ other ∈ specs, ∀ current,
        Loading.identityOf env settings other.location w = .ok current →
          Unchanged env settings other.location.cacheKey s s' ∨
          s'.cache.Has settings other.location.cacheKey current loaded ∧
          Loading.Finds env settings other.location.cacheKey current
            (Scan.outcomeFor s.cancelled other.location current (listing other.location)) s.cache s.world
            loaded.index s'.world ∧
          Loading.yields env settings other.location.cacheKey current
            (Scan.outcomeFor s.cancelled other.location current (listing other.location)) s.cache s.world =
              .ok loaded.index) s := by
  have halike : wp (Loading.load env settings spec.location) (fun _ s' => ∀ key ≠ spec.location.cacheKey,
      Session.Alike (fun _ => ()) key s s') s := fun key hne =>
    (Loading.alike_tolerates (fun _ _ => rfl) fun _ _ _ => rfl).keeps_load hne s
  refine wp_mono (wp_and (wp_load_ok h hspec hw) halike) ?_
  rintro r s' ⟨hok, halike⟩ loaded hloaded
  obtain ⟨current, hcurrent, hhas, hfinds, hyields, hwrites, hcancelled⟩ := hok loaded hloaded
  refine ⟨hwrites, hcancelled, fun other hother current' hcurrent' => ?_⟩
  by_cases hkey : spec.location.cacheKey = other.location.cacheKey
  · obtain ⟨rfl, hmade⟩ := Loading.outcomeFor_of_calm h hspec hother hkey hcurrent hcurrent' s.cancelled
    rw [hkey] at hhas
    rw [hkey, hmade] at hfinds hyields
    exact .inr ⟨hhas, hfinds, hyields⟩
  · have hsame := halike _ (Ne.symm hkey)
    exact .inl ⟨fun _ => Loading.usable?_congr hsame.published hsame.forced, hsame.forced,
      Loading.stored?_of_finds hshelves hw hfinds (Ne.symm hkey)⟩

theorem recovers_load (h : env.Calm settings specs w listing)
    (hlasting : Lasting env settings w specs s.cancelled listing) (hspec : spec ∈ specs)
    (hw : env.Writes w s.world) (hs : Recovers env settings w specs s.cancelled listing s) :
    wp (Loading.load env settings spec.location) (fun r s' => ∀ loaded, r = .ok loaded →
      env.Writes w s'.world ∧ s'.cancelled = s.cancelled ∧
        Recovers env settings w specs s'.cancelled listing s') s := by
  refine wp_mono (wp_load_each h hlasting.shelves hspec hw) ?_
  intro r s' heach loaded hloaded
  obtain ⟨hwrites, hcancelled, heach⟩ := heach loaded hloaded
  refine ⟨hwrites, hcancelled, fun other hother current hcurrent => ?_⟩
  rw [hcancelled]
  have hrestores := hs other hother current hcurrent
  rcases heach other hother current hcurrent with hsame | ⟨hhas, hfinds, -⟩
  · exact hrestores.congr (hsame.usable current) hsame.forced (hsame.stored current)
  · exact hrestores.load hlasting.shelves hw (hlasting.fits hother hcurrent) hfinds hhas

theorem loadAll_recovers (h : env.Calm settings specs w listing)
    (hlasting : Lasting env settings w specs s.cancelled listing) (hw : env.Writes w s.world)
    (hs : Recovers env settings w specs s.cancelled listing s)
    (hok : allOk (loadAll env settings specs s).1 = .ok containers) :
    Recovers env settings w specs s.cancelled listing (loadAll env settings specs s).2 := by
  have hload : ∀ spec ∈ specs, ∀ t : Session ω, (env.Writes w t.world ∧ t.cancelled = s.cancelled ∧
        Recovers env settings w specs s.cancelled listing t) →
      wp (Loading.load env settings spec.location) (fun r t' => ∀ loaded, r = .ok loaded →
        (env.Writes w t'.world ∧ t'.cancelled = s.cancelled ∧
          Recovers env settings w specs s.cancelled listing t') ∧ True ∧ ∀ _ : ViewContainer, True → True) t := by
    rintro spec hspec t ⟨hwrites, hcancelled, ht⟩
    rw [← hcancelled] at hlasting ht
    refine wp_mono (recovers_load h hlasting hspec hwrites ht) ?_
    intro r t' hstep loaded hloaded
    obtain ⟨hwrites', hcancelled', ht'⟩ := hstep loaded hloaded
    rw [hcancelled', hcancelled] at ht'
    exact ⟨⟨hwrites', hcancelled'.trans hcancelled, ht'⟩, trivial, fun _ => id⟩
  obtain ⟨⟨-, -, hend⟩, -⟩ := loadAll_run (G := fun _ _ => True) hload ⟨hw, rfl, hs⟩ hok
  exact hend

theorem ready_load (h : env.Calm settings specs w listing) (hshelves : env.Shelves w) (hspec : spec ∈ specs)
    (hw : env.Writes w s.world) (hv : v.spec ∈ specs) (hready : Ready env settings w s.cancelled listing v s) :
    wp (Loading.load env settings spec.location) (fun r s' => ∀ loaded, r = .ok loaded →
      Ready env settings w s'.cancelled listing v s') s := by
  refine wp_mono (wp_load_each h hshelves hspec hw) ?_
  intro r s' heach loaded hloaded
  obtain ⟨-, hcancelled, heach⟩ := heach loaded hloaded
  obtain ⟨current, hcurrent, hyields⟩ := hready
  rw [hcancelled]
  refine ⟨current, hcurrent, ?_⟩
  rcases heach v.spec hv current hcurrent with hsame | ⟨hhas, -, hyields'⟩
  · rw [Loading.yields_congr (hsame.usable current) hsame.forced (hsame.stored current), hyields]
  · rw [Loading.yields_of_has hhas, ← hyields', hyields]

theorem wp_load_ready (h : env.Calm settings specs w listing) (hv : v.spec ∈ specs) (hw : env.Writes w s.world)
    (hready : Ready env settings w s.cancelled listing v s) :
    wp (Loading.load env settings v.spec.location) (fun r _ => ∃ loaded, r = .ok loaded ∧ loaded.index = v.index)
      s := by
  obtain ⟨current, hcurrent, hyields⟩ := hready
  have hstill := h.still hv
  refine wp_mono (Loading.wp_load_found (hstill.undisturbed hw) ((hstill.identityOf hw).trans hcurrent)) ?_
  rintro r s' ⟨hresult, -⟩
  rw [hyields] at hresult
  cases r with
  | error e => nomatch hresult
  | ok loaded => exact ⟨loaded, rfl, Except.ok.inj hresult⟩

/-- Containers whose loads would return the indexes of a view are loaded to these. -/
theorem loadAll_of_ready (h : env.Calm settings specs w listing) (hshelves : env.Shelves w)
    (hspecs : ∀ v ∈ containers, v.spec ∈ specs) (hw : env.Writes w s.world)
    (hready : ∀ v ∈ containers, Ready env settings w s.cancelled listing v s) :
    ∃ loaded, allOk (loadAll env settings (containers.map ViewContainer.spec) s).1 = .ok loaded ∧
      loaded.map ViewContainer.withoutSerial = containers.map ViewContainer.withoutSerial := by
  induction containers generalizing s with
  | nil => exact ⟨[], rfl, rfl⟩
  | cons v others ih =>
    obtain ⟨hv, hspecs⟩ := List.forall_mem_cons.1 hspecs
    obtain ⟨hready, hothers⟩ := List.forall_mem_cons.1 hready
    obtain ⟨loaded, hloaded, hindex⟩ : ∃ loaded, (loadOne env settings v.spec s).1 = .ok loaded ∧
        loaded.index = v.index := wp_load_ready h hv hw hready
    have hworld : env.Writes w (loadOne env settings v.spec s).2.world := by
      obtain ⟨-, -, -, -, -, hworld, -⟩ : ∃ current, _ := wp_load_ok h hv hw loaded hloaded
      exact hworld
    have hlater : ∀ u ∈ others, Ready env settings w (loadOne env settings v.spec s).2.cancelled listing u
        (loadOne env settings v.spec s).2 := fun u hu =>
      ready_load h hshelves hv hw (hspecs u hu) (hothers u hu) loaded hloaded
    obtain ⟨later, hok, hsame⟩ := ih hspecs hworld hlater
    rw [List.map_cons, loadAll_cons, hloaded]
    refine ⟨_, allOk_cons_eq_ok.2 ⟨_, later, rfl, hok, rfl⟩, ?_⟩
    rw [List.map_cons, List.map_cons, hsame]
    refine congrArg (· :: _) ?_
    show (⟨v.spec, loaded.index, 0⟩ : ViewContainer) = ⟨v.spec, v.index, 0⟩
    rw [hindex]

/-! ### Modules -/

variable {e : Engine} {u : View}

/-- A new engine that is to work as the old one. -/
def restarted (e : Engine) : Engine := { options := e.options }

theorem openModule_eq_ok : (e.openModule env specs cancelled w).1 = .ok u ↔
    ∃ containers, allOk (loadAll (e.restricted env) e.options.cacheSettings specs (e.session w cancelled)).1 =
      .ok containers ∧ View.ofContainers containers = u := by
  show (allOk (loadAll _ _ _ (e.session w cancelled)).1).map View.ofContainers = .ok u ↔ _
  cases allOk (loadAll (e.restricted env) e.options.cacheSettings specs (e.session w cancelled)).1 with
  | error err => exact ⟨nofun, fun ⟨_, h, _⟩ => nomatch h⟩
  | ok containers => simp [Except.map]

/-- Opened again by the same engine, a module whose containers nobody changes gives the same view. -/
theorem openModule_again (h : (e.restricted env).Calm e.options.cacheSettings specs w listing)
    (hopen : (e.openModule env specs cancelled w).1 = .ok u) (cancelled' : Bool) :
    ((e.openModule env specs cancelled w).2.1.openModule env specs cancelled'
      (e.openModule env specs cancelled w).2.2).1 = .ok u := by
  obtain ⟨containers, hok, rfl⟩ := openModule_eq_ok.1 hopen
  obtain ⟨hwrites, hspecs, hbacks⟩ := loadAll_backs h .refl hok
  refine openModule_eq_ok.2 ⟨containers, ?_, rfl⟩
  have hagain := loadAll_of_backs (s := session (e.openModule env specs cancelled w).2.1
    (e.openModule env specs cancelled w).2.2 cancelled') h (fun v hv => (hbacks v hv).1) (fun v hv => (hbacks v hv).2)
    hwrites
  rw [hspecs] at hagain
  exact hagain

/-- Opened by a new engine over the same store, it gives the same view but for the numbers of loadings. -/
theorem openModule_restarted (h : (e.restricted env).Calm e.options.cacheSettings specs w listing)
    (hlasting : Lasting (e.restricted env) e.options.cacheSettings w specs cancelled listing)
    (hrecovers : Recovers (e.restricted env) e.options.cacheSettings w specs cancelled listing (e.session w cancelled))
    (hopen : (e.openModule env specs cancelled w).1 = .ok u) :
    ∃ v, (e.restarted.openModule env specs cancelled (e.openModule env specs cancelled w).2.2).1 = .ok v ∧
      v.withoutSerials = u.withoutSerials := by
  obtain ⟨containers, hok, rfl⟩ := openModule_eq_ok.1 hopen
  obtain ⟨hwrites, hspecs, hbacks⟩ := loadAll_backs h .refl hok
  have hend := loadAll_recovers h hlasting .refl hrecovers hok
  have hready : ∀ v ∈ containers, Ready (e.restricted env) e.options.cacheSettings w cancelled listing v
      (e.restarted.session (e.openModule env specs cancelled w).2.2 cancelled) := by
    intro v hv
    obtain ⟨hspec, current, hcurrent, hhas⟩ := hbacks v hv
    exact ⟨current, hcurrent, (hend v.spec hspec current hcurrent).yields_empty hhas⟩
  obtain ⟨loaded, hloaded, hsame⟩ := loadAll_of_ready
    (s := e.restarted.session (e.openModule env specs cancelled w).2.2 cancelled) h hlasting.shelves
    (fun v hv => (hbacks v hv).1) hwrites hready
  rw [hspecs] at hloaded
  refine ⟨View.ofContainers loaded, openModule_eq_ok.2 ⟨loaded, hloaded, rfl⟩, ?_⟩
  rw [← View.ofContainers_withoutSerial, hsame, View.ofContainers_withoutSerial]

/-- What one engine opens over a directory, the next engine over it opens to the same view. -/
theorem openModule_restarted_of_directory {root : String} {p : Place} {m : NameMap Bytes} {o : EngineOptions}
    {w : DiskWorld} (hstore : DirectoryStore.Holds root p w.disk m)
    (h : (restricted (DiskWorld.environment (DiskWorld.onDisk (DirectoryStore.store root))) { options := o }).Calm
      o.cacheSettings specs w listing)
    (hfits : ∀ spec ∈ specs, ∀ current index,
      Scan.outcomeFor cancelled spec.location current (listing spec.location) = .ok index →
        (Blob.encode index).length < Blob.addressable)
    (hopen : (openModule (DiskWorld.environment (DiskWorld.onDisk (DirectoryStore.store root))) { options := o } specs
      cancelled w).1 = .ok u) :
    let env := DiskWorld.environment (DiskWorld.onDisk (DirectoryStore.store root))
    ∃ v, (openModule env { options := o } specs cancelled
        (openModule env { options := o } specs cancelled w).2.2).1 = .ok v ∧
      v.withoutSerials = u.withoutSerials :=
  openModule_restarted h ⟨(DirectoryStore.shelves hstore).restrict _, fun hspec current _ => hfits _ hspec current⟩
    (fun _ _ _ _ => .fresh) hopen

/-- Comparing views is symmetric and transitive, and reflexive for plain views; between the tables of views that are
the same nothing differs. A module whose containers nobody changes is opened to the same view by the engine that has
opened it, and by a new one over the same store if that brings back what the first went on with. -/
theorem unchanged_modules_are_recognised (env : Environment ω) :
    (∀ u v : View, u.same? v = some true → v.same? u = some true) ∧
    (∀ t u v : View, t.same? u = some true → u.same? v = some true → t.same? v = some true) ∧
    (∀ v : View, v.Plain → v.same? v = some true) ∧
    (∀ u v : View, u.same? v = some true → ∃ before after, u.table? = some before ∧ v.table? = some after ∧
      TableChange.between? before after = none) ∧
    ∀ (e e' : Engine) (specs : List ContainerSpec) (cancelled : Bool) (w w' : ω)
      (listing : Location → Enumeration) (u : View),
      (e.restricted env).Calm e.options.cacheSettings specs w listing →
      e.openModule env specs cancelled w = (.ok u, e', w') →
      (e'.openModule env specs cancelled w').1 = .ok u ∧
        (Lasting (e.restricted env) e.options.cacheSettings w specs cancelled listing →
          Recovers (e.restricted env) e.options.cacheSettings w specs cancelled listing ⟨e.cache, w, cancelled⟩ →
          ∃ v, (e'.restarted.openModule env specs cancelled w').1 = .ok v ∧ v.withoutSerials = u.withoutSerials ∧
            (u.Plain → u.same? v = some true)) := by
  refine ⟨fun _ _ => View.same_symm, fun _ _ _ => View.same_trans, fun _ => View.Plain.same_self,
    fun _ _ => View.tables_of_same, fun e e' specs cancelled w w' listing u h hopen => ?_⟩
  have hok : (e.openModule env specs cancelled w).1 = .ok u := congrArg Prod.fst hopen
  have hagain := openModule_again h hok cancelled
  rw [hopen] at hagain
  refine ⟨hagain, fun hlasting hrecovers => ?_⟩
  obtain ⟨v, hv, hsame⟩ := openModule_restarted h hlasting hrecovers hok
  have hoptions : e'.options = e.options := congrArg (·.2.1.options) hopen.symm
  rw [hopen, restarted, ← hoptions] at hv
  exact ⟨v, hv, hsame, fun hu => hu.same_of_withoutSerials hsame⟩

/-! ### What is recognised, and what is not -/

def bothArchives : List ContainerSpec := ["a.jar", "b.jar"].map fun name => ⟨.archive name, .seed⟩

theorem twoArchives_lasting :
    Lasting ScriptedWorld.environment {} twoArchives bothArchives false twoArchives.listing := by
  refine ⟨ScriptedWorld.shelves _, ?_⟩
  have hfits : ∀ spec ∈ bothArchives,
      ((Loading.identityOf ScriptedWorld.environment {} spec.location twoArchives).toOption.all fun current =>
        (Scan.outcomeFor false spec.location current (twoArchives.listing spec.location)).toOption.all fun index =>
          decide ((Blob.encode index).length < Blob.addressable)) = true := by
    decide +kernel
  intro spec hspec current hcurrent index hmade
  have hfit := hfits spec hspec
  rw [hcurrent, Except.toOption, Option.all_some, hmade, Except.toOption, Option.all_some] at hfit
  exact of_decide_eq_true hfit

/-- Two archives that nobody changes, opened by an engine, again by this, and by another over the same store. -/
theorem twoArchives_are_recognised : ∃ (u v : View) (e : Engine) (w : ScriptedWorld),
    ({} : Engine).openModule ScriptedWorld.environment bothArchives false twoArchives = (.ok u, e, w) ∧
    u.same? u = some true ∧ (e.openModule ScriptedWorld.environment bothArchives false w).1 = .ok u ∧
    (e.restarted.openModule ScriptedWorld.environment bothArchives false w).1 = .ok v ∧
    v.same? u = some true ∧ v.same? v = some true ∧
    ∃ before after, u.table? = some before ∧ v.table? = some after ∧ TableChange.between? before after = none := by
  obtain ⟨hsymm, htrans, hself, htables, hopen⟩ := unchanged_modules_are_recognised ScriptedWorld.environment
  have hcancels : ∀ spec ∈ bothArchives, (twoArchives.listing spec.location).cancels = false := by
    decide +kernel
  have hcalm : ScriptedWorld.environment.Calm {} bothArchives twoArchives twoArchives.listing := by
    refine .of_keys (fun spec hspec => ScriptedWorld.still rfl (hcancels spec hspec)) ?_
    decide +kernel
  have hplain : ((({} : Engine).openModule ScriptedWorld.environment bothArchives false twoArchives).1.toOption.any
      fun u => decide u.Plain) = true := by
    decide +kernel
  rcases hrun : ({} : Engine).openModule ScriptedWorld.environment bothArchives false twoArchives with ⟨r, e, w⟩
  rw [hrun] at hplain
  cases r with
  | error err => nomatch hplain
  | ok u =>
    have hu : u.Plain := of_decide_eq_true hplain
    obtain ⟨hagain, hrestarted⟩ := hopen {} e bothArchives false twoArchives w twoArchives.listing u hcalm hrun
    obtain ⟨v, hv, -, hsame⟩ := hrestarted twoArchives_lasting fun _ _ _ _ => .fresh
    exact ⟨u, v, e, w, rfl, hself u hu, hagain, hv, hsymm _ _ (hsame hu), htrans _ _ _ (hsymm _ _ (hsame hu)) (hsame hu),
      htables _ _ (hsame hu)⟩

theorem options_openModule : (e.openModule env specs cancelled w).2.1.options = e.options := rfl

theorem restricted_of_writable (h : e.options.readOnly = false) : e.restricted env = env := by
  unfold restricted
  rw [h]
  rfl

/-- Whether the view of an opening is the same as that of another one behind it. -/
def compared {ω : Type} (ran : Except ScanError View × Engine × ω) (f : Engine → ω → Except ScanError View) :
    Option Bool := do
  (← ran.1.toOption).same? (← (f ran.2.1 ran.2.2).toOption)

theorem of_compared {ran : Except ScanError View × Engine × ω} {f : Engine → ω → Except ScanError View} {b : Bool}
    (h : compared ran f = some b) :
    ∃ u e w v, ran = (.ok u, e, w) ∧ f e w = .ok v ∧ u.same? v = some b := by
  obtain ⟨r, e, w⟩ := ran
  cases r with
  | error err => nomatch h
  | ok u =>
    cases hv : f e w with
    | error err => simp [compared, hv, Except.toOption] at h
    | ok v => exact ⟨u, e, w, v, rfl, hv, by simpa [compared, hv, Except.toOption] using h⟩

def classArchive (b : ClassFile.Blueprint) : ScriptedWorld :=
  { containers := NameMap.ofList [("a.jar", { entries := [⟨"entry.class", b.assemble⟩] })] }

def onlyArchive : List ContainerSpec := [⟨.archive "a.jar", .seed⟩]

/-- An archive whose class has an annotation with a NaN. -/
def weightless : ScriptedWorld :=
  classArchive { name := "a.A", annotations := [⟨"app.Weight", .runtime, [("value", .float 0x7FC00000)]⟩] }

theorem weightless_differs : ∃ v e w,
    ({} : Engine).openModule ScriptedWorld.environment onlyArchive false weightless = (.ok v, e, w) ∧
      v.same? v = some false := by
  have hcompared : compared (({} : Engine).openModule ScriptedWorld.environment onlyArchive false weightless)
      (fun _ _ => (({} : Engine).openModule ScriptedWorld.environment onlyArchive false weightless).1) =
        some false := by
    decide +kernel
  obtain ⟨u, e, w, v, hrun, hv, hdiffers⟩ := of_compared hcompared
  rw [hrun] at hv
  obtain rfl := Except.ok.inj hv
  exact ⟨u, e, w, hrun, hdiffers⟩

/-- An engine that has opened another archive, trusts what it has for the path alone and keeps no store. -/
def trusting : Engine :=
  (({ options := { disabled := true, alwaysValid := true } } : Engine).openModule ScriptedWorld.environment
    onlyArchive false (classArchive { name := "a.A" })).2.1

theorem trusting_calm : (trusting.restricted ScriptedWorld.environment).Calm trusting.options.cacheSettings onlyArchive
    (classArchive { name := "b.B" }) (classArchive { name := "b.B" }).listing := by
  have hcancels : ∀ spec ∈ onlyArchive, ((classArchive { name := "b.B" }).listing spec.location).cancels = false := by
    decide +kernel
  rw [restricted_of_writable (congrArg EngineOptions.readOnly options_openModule)]
  refine .of_keys (fun spec hspec => ScriptedWorld.still rfl (hcancels spec hspec)) ?_
  decide +kernel

theorem trusting_differs : ∃ u e w v,
    trusting.openModule ScriptedWorld.environment onlyArchive false (classArchive { name := "b.B" }) = (.ok u, e, w) ∧
      (e.restarted.openModule ScriptedWorld.environment onlyArchive false w).1 = .ok v ∧ u.same? v = some false :=
  of_compared (f := fun e w => (e.restarted.openModule ScriptedWorld.environment onlyArchive false w).1)
    (by decide +kernel)

/-- A directory beside an archive with the same key, and a class in the directory. -/
def classInShared (b : ClassFile.Blueprint) : DiskWorld :=
  let nodes := sharedPath.disk.nodes.insert "./d!/e/entry.class" (.file b.assemble 1)
  { disk := { sharedPath.disk with nodes } }

/-- An engine that has opened the directory before the class in it was replaced by one of the same size and time. -/
def outdated : Engine :=
  (({} : Engine).openModule (DiskWorld.environment DiskWorld.inMemory) [⟨.directory "d!/e", .seed⟩] false
    (classInShared { name := "a.A" })).2.1

theorem outdated_still : ∀ spec ∈ sharedKey, (outdated.restricted (DiskWorld.environment DiskWorld.inMemory)).Still
    (classInShared { name := "b.B" }) spec.location
      ((classInShared { name := "b.B" }).disk.containerCourse spec.location) := by
  have hcancels : ∀ spec ∈ sharedKey,
      ((classInShared { name := "b.B" }).disk.containerCourse spec.location).cancels = false := by
    decide +kernel
  rw [restricted_of_writable (congrArg EngineOptions.readOnly options_openModule)]
  exact fun spec hspec => DiskWorld.still (hcancels spec hspec)

theorem outdated_differs : ∃ u e w v,
    outdated.openModule (DiskWorld.environment DiskWorld.inMemory) sharedKey false (classInShared { name := "b.B" }) =
        (.ok u, e, w) ∧
      (e.openModule (DiskWorld.environment DiskWorld.inMemory) sharedKey false w).1 = .ok v ∧
      u.same? v = some false :=
  of_compared (f := fun e w => (e.openModule (DiskWorld.environment DiskWorld.inMemory) sharedKey false w).1)
    (by decide +kernel)

/-- A view with a NaN is not the same as itself; an engine that trusts an outdated index without having stored it is
not followed by one that has it; and of two containers with one key the one takes the index of the other away. -/
theorem recognition_has_limits :
    (¬ ∀ v : View, v.same? v = some true) ∧
    (¬ ∀ (e e' : Engine) (specs : List ContainerSpec) (w w' : ScriptedWorld) (u : View),
      (e.restricted ScriptedWorld.environment).Calm e.options.cacheSettings specs w w.listing →
      e.openModule ScriptedWorld.environment specs false w = (.ok u, e', w') →
      ∃ v, (e'.restarted.openModule ScriptedWorld.environment specs false w').1 = .ok v ∧ u.same? v = some true) ∧
    (¬ ∀ (e e' : Engine) (specs : List ContainerSpec) (w w' : DiskWorld) (u : View),
      (∀ spec ∈ specs, (e.restricted (DiskWorld.environment DiskWorld.inMemory)).Still w spec.location
        (w.disk.containerCourse spec.location)) →
      e.openModule (DiskWorld.environment DiskWorld.inMemory) specs false w = (.ok u, e', w') →
      ∃ v, (e'.openModule (DiskWorld.environment DiskWorld.inMemory) specs false w').1 = .ok v ∧
        u.same? v = some true) := by
  refine ⟨fun hself => ?_, fun hrestarted => ?_, fun hagain => ?_⟩
  · obtain ⟨v, -, -, -, hdiffers⟩ := weightless_differs
    nomatch (hself v).symm.trans hdiffers
  · obtain ⟨u, e, w, v, hrun, hv, hdiffers⟩ := trusting_differs
    obtain ⟨v', hv', hsame⟩ := hrestarted trusting e onlyArchive _ w u trusting_calm hrun
    obtain rfl := Except.ok.inj (hv.symm.trans hv')
    nomatch hsame.symm.trans hdiffers
  · obtain ⟨u, e, w, v, hrun, hv, hdiffers⟩ := outdated_differs
    obtain ⟨v', hv', hsame⟩ := hagain outdated e sharedKey _ w u outdated_still hrun
    obtain rfl := Except.ok.inj (hv.symm.trans hv')
    nomatch hsame.symm.trans hdiffers

end Engine

end ClassCatalog
