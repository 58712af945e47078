import ClassCatalog.CommandLine.Report
import ClassCatalog.Container.OnDisk
import ClassCatalog.Container.Scripted
import ClassCatalog.Proofs.Blob.Frame
import ClassCatalog.Proofs.Blob.RoundTrip
import ClassCatalog.Proofs.Cache.Steps
import ClassCatalog.Proofs.Engine.Calls
import ClassCatalog.Proofs.View.Equality
import ClassCatalog.Proofs.View.Winner

/-!
# Opening whatever is stored

Bytes of any kind may lie in a store. They are cut into a frame and a payload only if they are long enough
(`Blob.framed`), and what cannot be read is no failure of a load: a load fails if its container cannot be
read or someone asks to cancel. A view can be shown unless the digest of some identity cannot be cut. The
identities that are learned of containers have digests that can, so that such an identity comes from elsewhere:
it was in memory or in the store, and was accepted for its path alone (`openModule_completes`).
-/

namespace ClassCatalog

/-! ### Loads -/

/-- The worlds that loads come to: containers are read, and indexes with stamps are stored. -/
inductive Environment.Reaches {ω : Type} (env : Environment ω) (w : ω) : ω → Prop
  | start : Reaches env w w
  | enumerate {w' : ω} (h : Reaches env w w') (l : Location) : Reaches env w (env.enumerate l w').2
  | put {w' : ω} {index : Index} (h : Reaches env w w') (key : String) (hindex : index.identity.HasStamp) :
      Reaches env w (env.store.put key (Blob.encode index) w').2

namespace Loading

variable {ω : Type} {env : Environment ω} {settings : CacheSettings} {l : Location} {key : String}
  {s₀ s : Session ω} {index : Index} {current : Identity}

/-- Where an index can be from that is not made of its container: it was in memory, or bytes that the store had
were read as it. -/
inductive Source (env : Environment ω) (s₀ : Session ω) (key : String) : Index → Prop
  | memory {loaded : Loaded} (h : s₀.cache.published.find? key = some loaded) : Source env s₀ key loaded.index
  | store {w : ω} {bytes : Bytes} {index : Index} (hw : env.Reaches s₀.world w)
      (hget : env.store.get key w = .ok (some bytes)) (hdecode : Blob.decode bytes = .ok index) :
      Source env s₀ key index

/-- The container cannot be read, or someone asks to cancel. -/
def Fails (l : Location) (e : ScanError) : Prop :=
  (∃ reason, e = .containerUnreadable l.logicalPath reason) ∨ e = .cancelled l.logicalPath

/-- A session that loads come to: what is in memory without a stamp is not made by them. -/
structure Traced (env : Environment ω) (s₀ s : Session ω) : Prop where
  reached : env.Reaches s₀.world s.world
  published {key : String} {loaded : Loaded} (h : s.cache.published.find? key = some loaded) :
    loaded.index.identity.HasStamp ∨ Source env s₀ key loaded.index

/-- An index that has a stamp, or was accepted for its path alone. -/
def Showable (env : Environment ω) (settings : CacheSettings) (s₀ : Session ω) (l : Location) (index : Index) :
    Prop :=
  index.identity.HasStamp ∨ settings.alwaysValid = true ∧ index.identity.path = l.logicalPath ∧
    Source env s₀ l.cacheKey index

namespace Traced

theorem start (env : Environment ω) (s : Session ω) : Traced env s s := ⟨.start, fun h => .inr (.memory h)⟩

/-- Nothing but the world, the events and the like has changed. -/
theorem congr (h : Traced env s₀ s) {s' : Session ω} (hpublished : s'.cache.published = s.cache.published)
    (hreached : env.Reaches s₀.world s'.world) : Traced env s₀ s' :=
  ⟨hreached, fun hfind => h.published (hpublished ▸ hfind)⟩

theorem publish (h : Traced env s₀ s) (hindex : index.identity.HasStamp ∨ Source env s₀ key index) :
    Traced env s₀ { s with cache := (s.cache.publish key index).2 } := by
  refine ⟨h.reached, fun {k loaded} hfind => ?_⟩
  change (s.cache.published.insert key _).find? k = some loaded at hfind
  rw [NameMap.find?_insert] at hfind
  by_cases hk : k = key
  · rw [if_pos hk] at hfind
    obtain rfl := Option.some.inj hfind
    exact hk ▸ hindex
  · rw [if_neg hk] at hfind
    exact h.published hfind

end Traced

theorem showable_of_accepts (hcurrent : current.path = l.logicalPath ∧ current.HasStamp)
    (haccepts : accepts settings index.identity current = true)
    (hindex : index.identity.HasStamp ∨ Source env s₀ l.cacheKey index) :
    Showable env settings s₀ l index := by
  rcases hindex with hstamp | hsource
  · exact .inl hstamp
  · unfold accepts at haccepts
    cases hvalid : settings.alwaysValid with
    | true =>
      rw [hvalid, if_pos rfl] at haccepts
      exact .inr ⟨hvalid, (beq_iff_eq.1 haccepts).trans hcurrent.1, hsource⟩
    | false =>
      rw [hvalid] at haccepts
      obtain hsame : index.identity = current := beq_iff_eq.1 haccepts
      exact .inl (hsame ▸ hcurrent.2)

/-- Whatever the containers' own digests are, they can be cut. -/
def DigestsCut (env : Environment ω) : Prop :=
  ∀ l w digest, env.ownDigest l w = some (.ok digest) → Identity.Cuttable digest

theorem digestsCut_onDisk (store : Store DiskWorld) : DigestsCut (DiskWorld.environment store) := by
  intro l w digest h
  cases l with
  | archive path =>
    have hdigest : ((w.disk.mapped path).mapError DiskError.message).map Sha256.hexHash = .ok digest :=
      Option.some.inj h
    cases hmapped : w.disk.mapped path with
    | error e => simp [hmapped, Except.mapError, Except.map] at hdigest
    | ok bytes =>
      rw [hmapped] at hdigest
      obtain rfl := Except.ok.inj hdigest
      exact Identity.cuttable_hex _
  | directory path => nomatch h
  | nested outer entry => nomatch h

theorem digestsCut_scripted : DigestsCut ScriptedWorld.environment := nofun

/-! ### The steps of a load -/

theorem settles_onCache {F : ScanError → Prop} {f : Cache → Cache} (h : ∀ c, (f c).published = c.published) :
    Settles (Traced env s₀) F (fun _ => True) (onCache f) :=
  .modify fun s hs => hs.congr (h s.cache) hs.reached

theorem settles_enumerate (l : Location) : Settles (Traced env s₀) (Fails l) (fun _ => True) (enumerate env l) := by
  refine .get_bind fun s hs => ?_
  have hreached := hs.reached.enumerate l
  generalize env.enumerate l s.world = enumerated at hreached ⊢
  obtain ⟨listing, w⟩ := enumerated
  refine .bind (.set (hs.congr rfl hreached)) fun _ _ => ?_
  cases listing with
  | delivered course => exact .pure trivial
  | interrupted => exact .throw (.inr rfl)

theorem settles_resolve (hdigests : DigestsCut env) (l : Location) : Settles (Traced env s₀) (Fails l)
    (fun current => current.path = l.logicalPath ∧ current.HasStamp) (resolve env settings l) := by
  have hdigest : Settles (Traced env s₀) (Fails l) Identity.Cuttable (digest env l) := by
    refine .get_bind fun s hs => ?_
    cases hown : env.ownDigest l s.world with
    | none =>
      refine .bind (settles_enumerate l) fun course _ => .bind (.modify fun s hs => ⟨hs.reached, hs.published⟩)
        fun _ _ => ?_
      cases course.failure with
      | none => exact .pure (ClassEntry.cuttable_digest _)
      | some reason => exact .throw (.inl ⟨reason, rfl⟩)
    | some own =>
      cases own with
      | ok d => exact .pure (hdigests l s.world d hown)
      | error reason => exact .throw (.inl ⟨reason, rfl⟩)
  refine .get_bind fun s hs => ?_
  cases env.stat l s.world with
  | error reason => exact .throw (.inl ⟨reason, rfl⟩)
  | ok stat =>
    dsimp only
    cases settings.identityPolicy with
    | timestampSize => exact .pure ⟨rfl, Identity.hasStamp_iff.2 nofun⟩
    | contentDigest =>
      refine .bind hdigest fun d hd => .pure ⟨rfl, Identity.hasStamp_iff.2 ?_⟩
      rintro _ ⟨⟩
      exact hd

theorem settles_rebuild (hcurrent : current.path = l.logicalPath ∧ current.HasStamp) :
    Settles (Traced env s₀) (Fails l) (fun index => index.identity.HasStamp) (rebuild env l current) := by
  have hcancelled : Fails l (.cancelled current.path) := .inr (congrArg _ hcurrent.1)
  refine .bind (settles_onCache fun _ => rfl) fun _ _ => .bind (settles_enumerate l) fun course _ => ?_
  refine .get_bind fun s hs => ?_
  dsimp only
  have hidentity := Scan.run_identity course.deliveries
    { index := { identity := current }, cancelled := s.cancelled }
  generalize Scan.run course.deliveries _ = scan at hidentity ⊢
  have hstamp : scan.index.identity.HasStamp := hidentity ▸ hcurrent.2
  refine .bind (.set (hs.congr rfl hs.reached)) fun _ _ => ?_
  cases scan.stopped with
  | true => exact .throw hcancelled
  | false =>
    cases course.failure with
    | some reason => exact .throw (.inl ⟨reason, rfl⟩)
    | none =>
      cases scan.cancelled with
      | true => exact .throw hcancelled
      | false =>
        cases scan.index.incomplete with
        | true => exact .bind (settles_onCache fun _ => rfl) fun _ _ => .pure hstamp
        | false => exact .pure hstamp

theorem settles_persist (key : String) (hindex : index.identity.HasStamp) :
    Settles (Traced env s₀) (Fails l) (fun _ => True) (persist env key index) := by
  refine fun s hs => wp_mono (wp_persist key index) ?_
  rintro r s' ⟨rfl, hsame, hworld, -⟩
  exact ⟨trivial, hs.congr hsame.published (hworld ▸ hs.reached.put key hindex)⟩

/-- The store may have anything. -/
theorem settles_fromStore (hcurrent : current.path = l.logicalPath ∧ current.HasStamp) (forced : Bool) :
    Settles (Traced env s₀) (Fails l) (fun stored => ∀ index, stored = .ok index → Showable env settings s₀ l index)
      (fromStore env settings l.cacheKey forced current) := by
  refine fun s hs => wp_mono (wp_fromStore l.cacheKey forced current) ?_
  rintro r s' ⟨⟨stored, rfl, hstored⟩, hsame, hworld, -⟩
  refine ⟨fun index hindex => ?_, hs.congr hsame.published (hworld ▸ hs.reached)⟩
  obtain ⟨-, -, haccepts, hread⟩ := hstored index hindex
  obtain ⟨bytes, hget, hdecode⟩ := readStored_eq_ok.1 hread
  exact showable_of_accepts hcurrent haccepts (.inr (.store hs.reached hget hdecode))

theorem settles_remembered (hcurrent : current.path = l.logicalPath ∧ current.HasStamp) (forced : Bool) :
    Settles (Traced env s₀) (Fails l)
      (fun hit => ∀ loaded, hit = some loaded → Showable env settings s₀ l loaded.index)
      (remembered settings l.cacheKey forced current : Loading ω (Option Loaded)) := by
  refine fun s hs => (wp_remembered ..).2 ⟨fun loaded hhit => ?_, hs⟩
  cases forced with
  | true => nomatch hhit
  | false =>
    obtain ⟨hfind, haccepts⟩ := Option.filter_eq_some_iff.1 hhit
    exact showable_of_accepts hcurrent haccepts (hs.published hfind)

theorem settles_load (hdigests : DigestsCut env) (l : Location) :
    Settles (Traced env s₀) (Fails l) (fun loaded => Showable env settings s₀ l loaded.index) (load env settings l) :=
  Steps.load {
    resolve := settles_resolve hdigests l
    report := fun _ => settles_onCache fun _ => rfl
    force := settles_onCache fun _ => rfl
    unforce := settles_onCache fun _ => rfl
    remembered := settles_remembered
    fromStore := settles_fromStore
    rebuild := settles_rebuild
    persist := fun _ hindex => settles_persist _ hindex
    made := .inl
    publish := fun hindex _ hs => ⟨hindex, hs.publish (hindex.imp id fun h => h.2.2)⟩ }

end Loading

/-! ### Views -/

namespace View

variable {v : View}

/-- What is shown of a view can be shown. -/
def Shows (v : View) : Prop :=
  v.table?.isSome = true ∧ ∀ decoded elapsed, (CommandLine.Report.scan? v decoded elapsed).isSome = true

theorem shows_of_stamps (h : ∀ c ∈ v.containers, c.index.identity.HasStamp) : v.Shows := by
  obtain ⟨rows, htable⟩ := exists_table h
  refine ⟨htable ▸ rfl, fun decoded elapsed => ?_⟩
  rw [CommandLine.Report.scan?, htable]
  rfl

/-- Every class is looked up at a container that is there. -/
theorem lt_of_find?_lookup {containers : List ViewContainer} {name : String} {position : Nat}
    (h : (ofContainers containers).lookup.find? name = some position) : position < containers.length := by
  rw [find?_lookup_ofContainers] at h
  exact (List.findIdx?_eq_some_iff_findIdx_eq.1 h).1

end View

/-! ### Modules -/

namespace Engine

variable {ω : Type} {env : Environment ω} {e : Engine}

theorem get_restricted (e : Engine) (key : String) (w : ω) :
    (e.restricted env).store.get key w = env.store.get key w := by
  unfold restricted Store.restrict
  cases e.options.readOnly <;> rfl

/-- A store that is read-only stays as it is, so that a world is come to with one that is not. -/
theorem reaches_of_restricted {w w' : ω} (h : (e.restricted env).Reaches w w') : env.Reaches w w' := by
  induction h with
  | start => exact .start
  | enumerate _ l ih => exact ih.enumerate l
  | @put w' index _ key hindex ih =>
    show env.Reaches w ((env.store.restrict e.options.readOnly).put key (Blob.encode index) w').2
    cases e.options.readOnly with
    | true => exact ih
    | false => exact ih.put key hindex

theorem source_of_restricted {s₀ : Session ω} {key : String} {index : Index}
    (h : Loading.Source (e.restricted env) s₀ key index) : Loading.Source env s₀ key index := by
  cases h with
  | memory h => exact .memory h
  | store hw hget hdecode =>
    exact .store (reaches_of_restricted hw) ((e.get_restricted _ _).symm.trans hget) hdecode

/-- Whatever bytes are stored, they are read without going beyond them, and opening a module fails as a container
does or gives a view. It can be shown, unless an index without a stamp was accepted for its path alone. Values that
nest deeper than the stack of a machine has room for are read here like any others (`Blob.Get.value`). -/
theorem openModule_completes (hdigests : Loading.DigestsCut env) (e : Engine) (specs : List ContainerSpec)
    (cancelled : Bool) (w : ω) :
    (∀ bytes, Blob.Framed bytes) ∧
    ((∃ spec ∈ specs, ∃ err, (e.openModule env specs cancelled w).1 = .error err ∧
        Loading.Fails spec.location err) ∨
      ∃ v, (e.openModule env specs cancelled w).1 = .ok v ∧
        (∀ name position, v.lookup.find? name = some position → position < v.containers.length) ∧
        (v.Shows ∨ ∃ c ∈ v.containers, c.index.identity.stamp? = none ∧ e.options.alwaysValid = true ∧
          c.index.identity.path = c.spec.location.logicalPath ∧
          Loading.Source env ⟨e.cache, w, cancelled⟩ c.spec.location.cacheKey c.index)) := by
  refine ⟨Blob.framed, ?_⟩
  let s₀ : Session ω := ⟨e.cache, w, cancelled⟩
  have hdigests' : Loading.DigestsCut (e.restricted env) := hdigests
  have hloads : ∀ spec ∈ specs, Settles (Loading.Traced (e.restricted env) s₀) (Loading.Fails spec.location)
      (fun loaded => Loading.Showable (e.restricted env) e.options.cacheSettings s₀ spec.location loaded.index)
      (Loading.load (e.restricted env) e.options.cacheSettings spec.location) :=
    fun spec _ => Loading.settles_load hdigests' spec.location
  have hsettled := settles_loadAll
    (F := fun spec => Loading.Fails spec.location)
    (R := fun spec => Loading.Showable (e.restricted env) e.options.cacheSettings s₀ spec.location)
    hloads (Loading.Traced.start _ s₀)
  have hopen : (e.openModule env specs cancelled w).1 =
      (allOk (loadAll (e.restricted env) e.options.cacheSettings specs s₀).1).map View.ofContainers := rfl
  cases hall : allOk (loadAll (e.restricted env) e.options.cacheSettings specs s₀).1 with
  | error err =>
    rw [hall] at hsettled hopen
    obtain ⟨spec, hspec, hfails⟩ := hsettled
    exact .inl ⟨spec, hspec, err, hopen, hfails⟩
  | ok containers =>
    rw [hall] at hsettled hopen
    refine .inr ⟨View.ofContainers containers, hopen, fun name position => View.lt_of_find?_lookup, ?_⟩
    by_cases hstamps : ∀ c ∈ containers, c.index.identity.HasStamp
    · exact .inl (View.shows_of_stamps hstamps)
    · obtain ⟨c, hc, hnone⟩ : ∃ c ∈ containers, ¬ c.index.identity.HasStamp := by
        simpa only [not_forall, exists_prop] using hstamps
      obtain ⟨hvalid, hpath, hsource⟩ := (hsettled c hc).2.resolve_left hnone
      exact .inr ⟨c, hc, Option.not_isSome_iff_eq_none.1 hnone, hvalid, hpath, source_of_restricted hsource⟩

/-! ### A digest that cannot be cut -/

/-- An index with a digest of which the twelfth byte is the first of two that spell a character. -/
def foreignIndex : Index := { identity := ⟨"/lib/app.jar", 7, 1, some "0123456789aé"⟩ }

/-- An archive without classes, and the foreign index in the store under its key. -/
def foreignWorld : ScriptedWorld where
  containers := NameMap.empty.insert "/lib/app.jar" { entries := [] }
  store := { entries := NameMap.empty.insert (Location.archive "/lib/app.jar").cacheKey (Blob.encode foreignIndex) }

/-- What opening the archive over the foreign index gives. -/
def openForeign (alwaysValid : Bool) : Except ScanError View :=
  ((⟨{ alwaysValid }, {}, ∅⟩ : Engine).openModule ScriptedWorld.environment
    [⟨.archive "/lib/app.jar", .seed⟩] false foreignWorld).1

theorem openForeign_table (alwaysValid : Bool) :
    (openForeign alwaysValid).toOption.map (fun v => v.table?.isSome) = some !alwaysValid := by
  cases alwaysValid <;> decide +kernel

theorem openModule_completes_of_foreign :
    Loading.DigestsCut ScriptedWorld.environment ∧ ∃ v, openForeign false = .ok v ∧ v.Shows := by
  refine ⟨Loading.digestsCut_scripted, ?_⟩
  obtain ⟨-, ⟨spec, -, err, herror, -⟩ | ⟨v, hopen, -, hshows⟩⟩ :=
    openModule_completes Loading.digestsCut_scripted ⟨{ alwaysValid := false }, {}, ∅⟩
      [⟨.archive "/lib/app.jar", .seed⟩] false foreignWorld
  · have htable := openForeign_table false
    change openForeign false = .error err at herror
    rw [herror] at htable
    nomatch htable
  · rcases hshows with hshows | ⟨c, -, -, hvalid, -⟩
    · exact ⟨v, hopen, hshows⟩
    · nomatch hvalid

/-- Accepted for its path alone, the foreign index makes a view that has no table. -/
theorem foreign_index_cannot_be_shown :
    Blob.decode (Blob.encode foreignIndex) = .ok foreignIndex ∧
      ∃ v, openForeign true = .ok v ∧ v.table? = none ∧
        ∀ decoded elapsed, CommandLine.Report.scan? v decoded elapsed = none := by
  refine ⟨Blob.decode_encode (by decide +kernel), ?_⟩
  obtain ⟨v, hv, hnone⟩ := Option.map_eq_some_iff.1 (openForeign_table true)
  have htable : v.table? = none := Option.isSome_eq_false_iff.1 hnone |> Option.isNone_iff_eq_none.1
  have hopen : openForeign true = .ok v := by
    cases hforeign : openForeign true with
    | ok other =>
      rw [hforeign] at hv
      exact congrArg Except.ok (Option.some.inj hv)
    | error err =>
      rw [hforeign] at hv
      nomatch hv
  refine ⟨v, hopen, htable, fun decoded elapsed => ?_⟩
  rw [CommandLine.Report.scan?, htable]
  rfl

end Engine

end ClassCatalog
