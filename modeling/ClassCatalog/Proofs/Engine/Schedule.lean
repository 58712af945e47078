import ClassCatalog.ClassFile.Blueprint
import ClassCatalog.Container.OnDisk
import ClassCatalog.Container.Scripted
import ClassCatalog.Engine.SideBySide
import ClassCatalog.Proofs.Cache.Faithful
import ClassCatalog.Proofs.Cache.LoadOrder

/-!
# Opening a module in any order

The containers of a module may be loaded in any order; what comes of each is put where the container
stands in the list (`Engine.openInOrder`). As loads do not get in each other's way (`Loading.step_comm`),
the order shows neither in the view nor in what is left in memory and in the store. Only the numbers of
the loadings differ, so views are compared without them (`View.withoutSerials`).
-/

namespace ClassCatalog

/-! ### Views without the numbers of loadings -/

/-- The container, whichever loading made its index. -/
def ViewContainer.withoutSerial (c : ViewContainer) : ViewContainer := { c with serial := 0 }

namespace View

def withoutSerials (v : View) : View := { v with containers := v.containers.map ViewContainer.withoutSerial }

theorem define_withoutSerial (containers : List ViewContainer) (position : Nat) :
    Merge.define (containers.map ViewContainer.withoutSerial) position = Merge.define containers position := by
  funext m name
  unfold Merge.define
  cases m.lookup.find? name with
  | none => rfl
  | some winner =>
    simp only [List.getElem?_map, Option.map_map]
    rfl

/-- The numbers of loadings do not count for what is merged. -/
theorem ofContainers_withoutSerial (containers : List ViewContainer) :
    ofContainers (containers.map ViewContainer.withoutSerial) = (ofContainers containers).withoutSerials := by
  have hmerge : ∀ (rest : List ViewContainer) (position : Nat) (m : Merge),
      Merge.containersFrom (containers.map ViewContainer.withoutSerial) position
        (rest.map ViewContainer.withoutSerial) m = Merge.containersFrom containers position rest m := by
    intro rest
    induction rest with
    | nil => exact fun _ _ => rfl
    | cons c rest ih =>
      intro position m
      rw [List.map_cons, Merge.containersFrom, Merge.containersFrom, define_withoutSerial, ih]
      rfl
  unfold ofContainers withoutSerials
  rw [hmerge]

end View

/-! ### Containers that nobody changes -/

def ScriptedWorld.cells : environment.store.Cells (Bool × Option Bytes) :=
  Store.Cells.memory.onPart ScriptedWorld.store (fun s (w : ScriptedWorld) => { w with store := s })
    fun _ _ => rfl

theorem ScriptedWorld.still {w : ScriptedWorld} {l : Location} (hinterruptions : w.interruptions = 0)
    (hcancels : (w.listing l).cancels = false) : environment.Still w l (w.listing l) := by
  have hkeeps : ∀ {w' : ScriptedWorld}, environment.Writes w w' →
      w'.containers = w.containers ∧ w'.interruptions = w.interruptions := by
    intro w' hw
    induction hw with
    | refl => exact ⟨rfl, rfl⟩
    | put _ _ _ ih => exact ih
  refine ⟨fun hw => ?_, fun _ => rfl, fun {w'} hw => ⟨?_, hcancels⟩⟩
  · simp only [environment, (hkeeps hw).1]
  · obtain ⟨hcontainers, hsame⟩ := hkeeps hw
    simp only [environment, enumerate, listing, hcontainers, hsame, hinterruptions, if_true]
    cases w.containers.find? l.logicalPath with
    | none => rfl
    | some c => rfl

theorem DiskWorld.still {w : DiskWorld} {l : Location} (hcancels : (w.disk.containerCourse l).cancels = false) :
    (environment inMemory).Still w l (w.disk.containerCourse l) := by
  have hkeeps : ∀ {w' : DiskWorld}, (environment inMemory).Writes w w' → w'.disk = w.disk := by
    intro w' hw
    induction hw with
    | refl => rfl
    | put _ _ _ ih => exact ih
  refine ⟨fun hw => ?_, fun hw => ?_, fun hw => ⟨?_, hcancels⟩⟩
  · simp only [environment, hkeeps hw]
  · simp only [environment, hkeeps hw]
  · simp only [environment, hkeeps hw]

/-! ### Opening in an order -/

namespace Engine

variable {ω κ : Type} (env : Environment ω)

/-- Loads numbered containers one after the other, each whatever came of the others. -/
def loadInOrder (env : Environment ω) (settings : CacheSettings) :
    List (ContainerSpec × Nat) → Session ω → List (Nat × Except ScanError Loaded) × Session ω
  | [], s => ([], s)
  | (spec, i) :: rest, s =>
    let (result, s) := (Loading.load env settings spec.location).run s
    let (others, s) := loadInOrder env settings rest s
    ((i, result) :: others, s)

/-- Opens a module whose containers are loaded in some order. -/
def openInOrder (e : Engine) (specs : List ContainerSpec) (order : List (ContainerSpec × Nat))
    (cancelled : Bool) (world : ω) : Except ScanError View × Engine × ω :=
  let (results, s) :=
    loadInOrder (e.restricted env) e.options.cacheSettings order ⟨e.cache, world, cancelled⟩
  (gathered (fun _ i => results.lookup i) specs, { e with cache := s.cache }, s.world)

/-- What a load of a container comes to when no other is loaded before it. -/
def loadAlone (e : Engine) (cancelled : Bool) (world : ω) (spec : ContainerSpec) :
    Except ScanError ViewContainer :=
  ((Loading.load (e.restricted env) e.options.cacheSettings spec.location).run
    ⟨e.cache, world, cancelled⟩).1.map fun l => ⟨spec, l.index, 0⟩

section

variable {env} {settings : CacheSettings}

/-- What `gathered` makes of the result under a number. -/
def gather (results : List (Nat × Except ScanError Loaded)) (spec : ContainerSpec) (i : Nat) :
    Except ScanError ViewContainer :=
  match results.lookup i with
  | some result => result.map fun l => ⟨spec, l.index, l.serial⟩
  | none => .error (.cancelled spec.location.logicalPath)

theorem gathered_eq (results : List (Nat × Except ScanError Loaded)) (specs : List ContainerSpec) :
    gathered (fun _ i => results.lookup i) specs =
      (allOk (specs.zipIdx.map fun p => gather results p.1 p.2)).map View.ofContainers := rfl

abbrev loadOne (env : Environment ω) (settings : CacheSettings) (spec : ContainerSpec) (s : Session ω) :
    Except ScanError Loaded × Session ω :=
  (Loading.load env settings spec.location).run s

theorem loadInOrder_cons (spec : ContainerSpec) (i : Nat) (rest : List (ContainerSpec × Nat)) (s : Session ω) :
    loadInOrder env settings ((spec, i) :: rest) s =
      ((i, (loadOne env settings spec s).1) :: (loadInOrder env settings rest (loadOne env settings spec s).2).1,
        (loadInOrder env settings rest (loadOne env settings spec s).2).2) := by
  rw [loadInOrder]
  cases hload : (Loading.load env settings spec.location).run s with
  | mk result t => simp only [loadOne, hload]

theorem loadAll_cons (spec : ContainerSpec) (rest : List ContainerSpec) (s : Session ω) :
    loadAll env settings (spec :: rest) s =
      ((loadOne env settings spec s).1.map (fun l => ⟨spec, l.index, l.serial⟩) ::
          (loadAll env settings rest (loadOne env settings spec s).2).1,
        (loadAll env settings rest (loadOne env settings spec s).2).2) := by
  rw [loadAll]
  cases hload : (Loading.load env settings spec.location).run s with
  | mk result t => simp only [loadOne, hload]

variable (env settings) in
theorem loadInOrder_zipIdx (specs : List ContainerSpec) (k : Nat) (s : Session ω) :
    (specs.zipIdx k).map (fun p => gather (loadInOrder env settings (specs.zipIdx k) s).1 p.1 p.2) =
        (loadAll env settings specs s).1 ∧
      (loadInOrder env settings (specs.zipIdx k) s).2 = (loadAll env settings specs s).2 := by
  induction specs generalizing k s with
  | nil => exact ⟨rfl, rfl⟩
  | cons spec specs ih =>
    obtain ⟨hresults, hsession⟩ := ih (k + 1) (loadOne env settings spec s).2
    rw [List.zipIdx_cons, loadInOrder_cons, loadAll_cons, ← hresults, ← hsession]
    refine ⟨List.cons_eq_cons.2 ⟨?_, List.map_congr_left fun p hp => ?_⟩, rfl⟩
    · simp only [gather, List.lookup_cons_self]
    · have hle := List.le_snd_of_mem_zipIdx hp
      have hbeq : (p.2 == k) = false := beq_false_of_ne (by omega)
      simp only [gather, List.lookup_cons, hbeq]

/-- A module is opened in the order of its list. -/
theorem openInOrder_zipIdx (e : Engine) (specs : List ContainerSpec) (cancelled : Bool) (world : ω) :
    e.openInOrder env specs specs.zipIdx cancelled world = e.openModule env specs cancelled world := by
  obtain ⟨hresults, hsession⟩ := loadInOrder_zipIdx (e.restricted env) e.options.cacheSettings specs 0
    ⟨e.cache, world, cancelled⟩
  unfold openInOrder openModule
  simp only [gathered_eq, hresults, hsession]

/-- What comes of a list of results whose indexes are known, but for the numbers of loadings. -/
theorem gather_withoutSerial {results : List (Nat × Except ScanError Loaded)} {spec : ContainerSpec} {i : Nat}
    {answer : Except ScanError Index}
    (h : (results.map fun p => (p.1, p.2.map Loaded.index)).lookup i = some answer) :
    (gather results spec i).map ViewContainer.withoutSerial = answer.map fun index => ⟨spec, index, 0⟩ := by
  have hlookup : (results.lookup i).map (Except.map Loaded.index) = some answer := by
    rw [← h]
    clear h
    induction results with
    | nil => rfl
    | cons p results ih =>
      rw [List.map_cons, List.lookup_cons, List.lookup_cons]
      cases i == p.1 with
      | true => rfl
      | false => exact ih
  obtain ⟨result, hresult, rfl⟩ := Option.map_eq_some_iff.1 hlookup
  unfold gather
  rw [hresult]
  cases result with
  | ok l => rfl
  | error e => rfl

theorem lookup_of_mem {β : Type} {order : List (ContainerSpec × Nat)} {p : ContainerSpec × Nat}
    (hmem : p ∈ order) (hunique : ∀ q ∈ order, q.2 = p.2 → q.1 = p.1) (f : ContainerSpec → β) :
    (order.map fun q => (q.2, f q.1)).lookup p.2 = some (f p.1) := by
  induction order with
  | nil => nomatch hmem
  | cons q order ih =>
    obtain ⟨hq, hunique⟩ := List.forall_mem_cons.1 hunique
    rw [List.map_cons, List.lookup_cons]
    cases hbeq : p.2 == q.2 with
    | true => exact congrArg (some ∘ f) (hq (eq_of_beq hbeq).symm)
    | false =>
      refine ih ((List.mem_cons.1 hmem).resolve_left ?_) hunique
      rintro rfl
      exact ne_of_beq_false hbeq rfl

theorem allOk_map (f : ViewContainer → ViewContainer) (results : List (Except ScanError ViewContainer)) :
    allOk (results.map (Except.map f)) = (allOk results).map (List.map f) := by
  induction results with
  | nil => rfl
  | cons result results ih =>
    cases result with
    | error e => rfl
    | ok c =>
      rw [List.map_cons, Except.map, allOk, ih, allOk]
      cases allOk results with
      | error e => rfl
      | ok containers => rfl

theorem gathered_withoutSerials (results : List (Nat × Except ScanError Loaded)) (specs : List ContainerSpec) :
    (gathered (fun _ i => results.lookup i) specs).map View.withoutSerials =
      (allOk (specs.zipIdx.map fun p => (gather results p.1 p.2).map ViewContainer.withoutSerial)).map
        View.ofContainers := by
  rw [gathered_eq]
  generalize hgathered : specs.zipIdx.map (fun p => gather results p.1 p.2) = found
  calc ((allOk found).map View.ofContainers).map View.withoutSerials
      = ((allOk found).map (List.map ViewContainer.withoutSerial)).map View.ofContainers := by
        cases allOk found with
        | error e => rfl
        | ok containers => exact congrArg Except.ok (View.ofContainers_withoutSerial containers).symm
    _ = (allOk (found.map (Except.map ViewContainer.withoutSerial))).map View.ofContainers := by
        rw [allOk_map]
    _ = _ := by
        rw [← hgathered, List.map_map]
        rfl

/-- The first that fails is the failure of all. -/
theorem allOk_first_error {before after : List (Except ScanError ViewContainer)} {e : ScanError}
    (h : ∀ result ∈ before, ∃ c, result = .ok c) : allOk (before ++ .error e :: after) = .error e := by
  induction before with
  | nil => rfl
  | cons result before ih =>
    obtain ⟨⟨c, rfl⟩, hbefore⟩ := List.forall_mem_cons.1 h
    rw [List.cons_append, allOk, ih hbefore]
    rfl

/-- What loads of a calm list return and leave, in whatever order they are done. -/
theorem loadInOrder_slots (cells : env.store.Cells κ) {w : ω} {listing : Location → Enumeration}
    {specs : List ContainerSpec} (h : env.Calm settings specs w listing) {order : List (ContainerSpec × Nat)}
    (horder : ∀ p ∈ order, p.1 ∈ specs) {s : Session ω} (hworld : env.Writes w s.world) :
    (loadInOrder env settings order s).1.map (fun p => (p.1, p.2.map Loaded.index)) =
        order.map (fun p =>
          (p.2, Loading.answer cells settings w s.cancelled listing (s.slot cells) p.1)) ∧
      (loadInOrder env settings order s).2.slot cells =
        (order.map Prod.fst).foldl (Loading.step cells settings w s.cancelled listing) (s.slot cells) := by
  induction order generalizing s with
  | nil => exact ⟨rfl, rfl⟩
  | cons p order ih =>
    obtain ⟨spec, i⟩ := p
    obtain ⟨hspec, horder⟩ := List.forall_mem_cons.1 horder
    obtain ⟨hresult, hslot, hwrites, hcancelled⟩ :
        (loadOne env settings spec s).1.map Loaded.index =
            Loading.answer cells settings w s.cancelled listing (s.slot cells) spec ∧
          (loadOne env settings spec s).2.slot cells =
            Loading.step cells settings w s.cancelled listing (s.slot cells) spec ∧
          env.Writes w (loadOne env settings spec s).2.world ∧
          (loadOne env settings spec s).2.cancelled = s.cancelled :=
      Loading.wp_load_effect cells h hspec hworld
    obtain ⟨hresults, hslots⟩ := ih horder hwrites
    -- The rest starts from the slots that the first load leaves, which its answers do not depend on.
    rw [hslot, hcancelled] at hresults hslots
    rw [loadInOrder_cons]
    refine ⟨?_, hslots⟩
    rw [List.map_cons, List.map_cons, hresults]
    refine List.cons_eq_cons.2 ⟨congrArg (Prod.mk i) hresult, List.map_congr_left fun q hq => ?_⟩
    rw [Loading.answer_step h (horder q hq) hspec]

variable (cells : env.store.Cells κ) {w : ω} {listing : Location → Enumeration} {specs : List ContainerSpec}
  {order : List (ContainerSpec × Nat)} {s : Session ω}

theorem mem_specs_of_perm (horder : order.Perm specs.zipIdx) : ∀ p ∈ order, p.1 ∈ specs :=
  fun _ hp => List.fst_mem_of_mem_zipIdx (horder.mem_iff.1 hp)

theorem gather_loadInOrder (h : env.Calm settings specs w listing) (horder : order.Perm specs.zipIdx)
    (hworld : env.Writes w s.world) :
    specs.zipIdx.map (fun p => (gather (loadInOrder env settings order s).1 p.1 p.2).map
        ViewContainer.withoutSerial) =
      specs.map fun spec => (Loading.answer cells settings w s.cancelled listing (s.slot cells) spec).map
        fun index => ⟨spec, index, 0⟩ := by
  obtain ⟨hresults, -⟩ := loadInOrder_slots cells h (mem_specs_of_perm horder) hworld
  have hspecs : ∀ f : ContainerSpec → Except ScanError ViewContainer,
      specs.zipIdx.map (fun p => f p.1) = specs.map f := fun f =>
    List.map_map.symm.trans (congrArg (List.map f) (List.zipIdx_map_fst 0 specs))
  rw [← hspecs]
  refine List.map_congr_left fun p hp => gather_withoutSerial ?_
  rw [hresults]
  -- A number stands for one place of the list, so it finds the result of the container that stands there.
  refine lookup_of_mem (horder.mem_iff.2 hp) (fun q hq hnumber => ?_) _
  have hp' : specs[p.2]? = some p.1 := List.mem_zipIdx_iff_getElem?.1 hp
  have hq' : specs[q.2]? = some q.1 := List.mem_zipIdx_iff_getElem?.1 (horder.mem_iff.1 hq)
  rw [hnumber, hp'] at hq'
  exact (Option.some.inj hq').symm

/-- In any order, what is left is what loading the list from its front leaves. -/
theorem slot_loadInOrder (h : env.Calm settings specs w listing) (horder : order.Perm specs.zipIdx)
    (hworld : env.Writes w s.world) :
    (loadInOrder env settings order s).2.slot cells =
      specs.foldl (Loading.step cells settings w s.cancelled listing) (s.slot cells) := by
  obtain ⟨-, hslot⟩ := loadInOrder_slots cells h (mem_specs_of_perm horder) hworld
  have hperm : (order.map Prod.fst).Perm specs := by
    simpa only [List.zipIdx_map_fst] using horder.map Prod.fst
  rw [hslot]
  exact hperm.foldl_eq' (fun spec hspec other hother slots => Loading.step_comm h
    (hperm.mem_iff.1 hspec) (hperm.mem_iff.1 hother) slots) _

end

def indexUnder (e : Engine) (key : String) : Option Index :=
  (e.cache.published.find? key).map Loaded.index

/-- Two openings come to the same view or fail in the same way, and leave the same: the same indexes in
memory, the same containers to be made anew, and the same in the store. -/
structure Alike {store : Store ω} (cells : store.Cells κ)
    (opened opened' : Except ScanError View × Engine × ω) : Prop where
  view : opened.1.map View.withoutSerials = opened'.1.map View.withoutSerials
  published (key : String) : opened.2.1.indexUnder key = opened'.2.1.indexUnder key
  forced (key : String) : opened.2.1.cache.forced.contains key = opened'.2.1.cache.forced.contains key
  stored (key : String) : cells.cell opened.2.2 key = cells.cell opened'.2.2 key

section

variable {env} {e : Engine} {w : ω} {cancelled : Bool} {listing : Location → Enumeration}
  {specs : List ContainerSpec} {order order' : List (ContainerSpec × Nat)}

abbrev session (e : Engine) (w : ω) (cancelled : Bool) : Session ω := ⟨e.cache, w, cancelled⟩

theorem loadAlone_eq (cells : (e.restricted env).store.Cells κ)
    (h : (e.restricted env).Calm e.options.cacheSettings specs w listing) {spec : ContainerSpec}
    (hspec : spec ∈ specs) :
    e.loadAlone env cancelled w spec =
      (Loading.answer cells e.options.cacheSettings w cancelled listing ((e.session w cancelled).slot cells)
        spec).map fun index => ⟨spec, index, 0⟩ := by
  obtain ⟨hresult, -⟩ : (loadOne (e.restricted env) e.options.cacheSettings spec
        (e.session w cancelled)).1.map Loaded.index = Loading.answer cells e.options.cacheSettings w cancelled
          listing ((e.session w cancelled).slot cells) spec ∧ _ :=
    Loading.wp_load_effect cells h hspec (.refl (w := w))
  rw [← hresult]
  unfold loadAlone
  cases (loadOne (e.restricted env) e.options.cacheSettings spec (e.session w cancelled)).1 with
  | error error => rfl
  | ok l => rfl

variable (cancelled) in
/-- In any order the view is what the containers, each loaded alone, are merged to. -/
theorem openInOrder_view (cells : (e.restricted env).store.Cells κ)
    (h : (e.restricted env).Calm e.options.cacheSettings specs w listing)
    (horder : order.Perm specs.zipIdx) :
    (e.openInOrder env specs order cancelled w).1.map View.withoutSerials =
      (allOk (specs.map (e.loadAlone env cancelled w))).map View.ofContainers := by
  have hgathered := gather_loadInOrder cells h horder (s := e.session w cancelled) .refl
  have halone : specs.map (e.loadAlone env cancelled w) = _ :=
    List.map_congr_left fun spec hspec => loadAlone_eq cells h hspec
  rw [halone, ← hgathered]
  exact gathered_withoutSerials _ specs

variable (cancelled) in
/-- In any order the same is left in memory and in the store. -/
theorem openInOrder_alike (cells : env.store.Cells κ)
    (h : (e.restricted env).Calm e.options.cacheSettings specs w listing)
    (horder : order.Perm specs.zipIdx) (horder' : order'.Perm specs.zipIdx) :
    Alike cells (e.openInOrder env specs order cancelled w) (e.openInOrder env specs order' cancelled w) := by
  let restricted : (e.restricted env).store.Cells κ := cells.restrict e.options.readOnly
  have hview := openInOrder_view cancelled restricted h horder
  have hview' := openInOrder_view cancelled restricted h horder'
  have hslot := slot_loadInOrder restricted h horder (s := e.session w cancelled) .refl
  have hslot' := slot_loadInOrder restricted h horder' (s := e.session w cancelled) .refl
  have hsame := hslot.trans hslot'.symm
  refine ⟨hview.trans hview'.symm, fun key => ?_, fun key => ?_, fun key => ?_⟩
  · exact congrArg Slot.index (congrFun hsame key)
  · exact congrArg Slot.forced (congrFun hsame key)
  · rw [← cells.cell_restrict e.options.readOnly]
    exact congrArg Slot.cell (congrFun hsame key)

variable (e cancelled) in
/-- Opening a module does not depend on the order of its loads, as long as nobody changes a container
meanwhile and those that share a key are one. -/
theorem opens_alike_in_any_order (cells : env.store.Cells κ)
    (h : (e.restricted env).Calm e.options.cacheSettings specs w listing)
    (horder : order.Perm specs.zipIdx) (horder' : order'.Perm specs.zipIdx) :
    e.openInOrder env specs specs.zipIdx cancelled w = e.openModule env specs cancelled w ∧
    Alike cells (e.openInOrder env specs order cancelled w) (e.openInOrder env specs order' cancelled w) ∧
    (e.openInOrder env specs order cancelled w).1.map View.withoutSerials =
      (allOk (specs.map (e.loadAlone env cancelled w))).map View.ofContainers ∧
    (∀ before spec after error, specs = before ++ spec :: after →
      (∀ earlier ∈ before, ∃ c, e.loadAlone env cancelled w earlier = .ok c) →
      e.loadAlone env cancelled w spec = .error error →
      (e.openInOrder env specs order cancelled w).1 = .error error) ∧
    (∀ spec ∈ specs, ∀ c, e.loadAlone env cancelled w spec = .ok c →
      (e.openInOrder env specs order cancelled w).2.1.indexUnder spec.location.cacheKey = some c.index) ∧
    (cancelled = false → ∀ spec ∈ specs, ∀ current,
      Loading.identityOf env e.options.cacheSettings spec.location w = .ok current →
      (listing spec.location).failure = none → ∃ c, e.loadAlone env cancelled w spec = .ok c) := by
  let restricted : (e.restricted env).store.Cells κ := cells.restrict e.options.readOnly
  have hview := openInOrder_view cancelled restricted h horder
  have halike := openInOrder_alike cancelled cells h horder horder'
  refine ⟨openInOrder_zipIdx e specs cancelled w, halike, hview, ?_, ?_, ?_⟩
  · rintro before spec after error rfl hbefore hspec
    have hfirst : allOk ((before ++ spec :: after).map (e.loadAlone env cancelled w)) = .error error := by
      rw [List.map_append, List.map_cons, hspec]
      exact allOk_first_error (List.forall_mem_map.2 hbefore)
    rw [hfirst] at hview
    generalize (e.openInOrder env _ order cancelled w).1 = opened at hview
    cases opened with
    | error found => exact congrArg Except.error (Except.error.inj hview)
    | ok view => nomatch hview
  · intro spec hspec c hc
    rw [loadAlone_eq restricted h hspec] at hc
    have hslot := congrFun (slot_loadInOrder restricted h horder (s := e.session w cancelled) .refl)
      spec.location.cacheKey
    -- What is under the key at the end is what the container's own load left there.
    refine (congrArg Slot.index hslot).trans (Loading.index_foldl h (fun _ => id) hspec ?_)
    generalize Loading.answer restricted _ w cancelled listing _ spec = answer at hc ⊢
    cases answer with
    | error error => nomatch hc
    | ok index =>
      cases hc
      rfl
  · rintro rfl spec hspec current hcurrent hlisting
    have hcurrent' : Loading.identityOf (e.restricted env) e.options.cacheSettings spec.location w =
      .ok current := hcurrent
    obtain ⟨index, hanswer⟩ := Loading.answer_of_readable hcurrent' hlisting
      ((e.session w false).slot restricted)
    exact ⟨⟨spec, index, 0⟩, (loadAlone_eq restricted h hspec).trans (congrArg (Except.map _) hanswer)⟩

end

/-! ### A list with a container that is missing -/

/-- Two archives of one class each. -/
def twoArchives : ScriptedWorld :=
  let archive (name : String) : ScriptedContainer :=
    { entries := [⟨"entry.class", ClassFile.Blueprint.assemble { name }⟩] }
  { containers := NameMap.ofList [("a.jar", archive "a.A"), ("b.jar", archive "b.B")] }

def thirdIsMissing : List ContainerSpec :=
  ["a.jar", "a.jar", "c.jar", "b.jar"].map fun name => ⟨.archive name, .seed⟩

theorem twoArchives_calm :
    ScriptedWorld.environment.Calm {} thirdIsMissing twoArchives twoArchives.listing := by
  have hcancels : ∀ spec ∈ thirdIsMissing, (twoArchives.listing spec.location).cancels = false := by
    decide +kernel
  refine .of_keys (fun spec hspec => ScriptedWorld.still rfl (hcancels spec hspec)) ?_
  decide +kernel

/-- In either order the opening fails for the archive that is missing, and the others are in memory. -/
theorem opens_alike_without_third :
    Alike ScriptedWorld.cells
      (({} : Engine).openModule ScriptedWorld.environment thirdIsMissing false twoArchives)
      (({} : Engine).openInOrder ScriptedWorld.environment thirdIsMissing thirdIsMissing.zipIdx.reverse
        false twoArchives) ∧
    (({} : Engine).openModule ScriptedWorld.environment thirdIsMissing false twoArchives).1 =
      .error (.containerUnreadable "c.jar" "missing") ∧
    ∀ name ∈ ["a.jar", "b.jar"], ∃ index,
      (({} : Engine).openModule ScriptedWorld.environment thirdIsMissing false
        twoArchives).2.1.indexUnder (Location.archive name).cacheKey = some index := by
  obtain ⟨hmodule, halike, -, hfirst, hpublished, hreadable⟩ :=
    opens_alike_in_any_order {} false ScriptedWorld.cells twoArchives_calm .rfl
      (List.reverse_perm thirdIsMissing.zipIdx)
  rw [hmodule] at halike hfirst hpublished
  have hthird : ({} : Engine).loadAlone ScriptedWorld.environment false twoArchives
      ⟨.archive "c.jar", .seed⟩ = .error (.containerUnreadable "c.jar" "missing") := rfl
  obtain ⟨a, ha⟩ := hreadable rfl ⟨.archive "a.jar", .seed⟩ (by decide) _ rfl rfl
  obtain ⟨b, hb⟩ := hreadable rfl ⟨.archive "b.jar", .seed⟩ (by decide) _ rfl rfl
  refine ⟨halike, ?_, ?_⟩
  · exact hfirst [⟨.archive "a.jar", .seed⟩, ⟨.archive "a.jar", .seed⟩] ⟨.archive "c.jar", .seed⟩ _ _ rfl
      (List.forall_mem_cons.2 ⟨⟨a, ha⟩, List.forall_mem_singleton.2 ⟨a, ha⟩⟩) hthird
  · exact List.forall_mem_cons.2 ⟨⟨_, hpublished ⟨.archive "a.jar", .seed⟩ (by decide) a ha⟩,
      List.forall_mem_singleton.2 ⟨_, hpublished ⟨.archive "b.jar", .seed⟩ (by decide) b hb⟩⟩

/-! ### Where the order shows -/

def emptyArchive : Bytes := [0x50, 0x4B, 0x05, 0x06] ++ List.replicate 18 0

/-- An archive with the empty archive as its only entry `e`. -/
def outerArchive : Bytes :=
  let sizes : Bytes := [0x16, 0x00, 0x00, 0x00, 0x16, 0x00, 0x00, 0x00, 0x01, 0x00, 0x00, 0x00]
  let times : Bytes := [0x00, 0x00, 0x00, 0x00, 0x00, 0x00, 0x21, 0x00]
  let checksum : Bytes := [0x0E, 0xC5, 0xCB, 0xD7]
  [0x50, 0x4B, 0x03, 0x04, 0x14, 0x00] ++ times ++ checksum ++ sizes ++ [0x65] ++ emptyArchive ++
    [0x50, 0x4B, 0x01, 0x02, 0x14, 0x03, 0x14, 0x00] ++ times ++ checksum ++ sizes ++
    [0x00, 0x00, 0x00, 0x00, 0x00, 0x00, 0x00, 0x00, 0x80, 0x01, 0x00, 0x00, 0x00, 0x00, 0x65] ++
    [0x50, 0x4B, 0x05, 0x06, 0x00, 0x00, 0x00, 0x00, 0x01, 0x00, 0x01, 0x00, 0x2F, 0x00, 0x00, 0x00,
      0x35, 0x00, 0x00, 0x00, 0x00, 0x00]

/-- The empty archive in the archive `d`, beside a directory with the path `d!/e`. -/
def sharedPath : DiskWorld :=
  { disk :=
      { nodes := NameMap.ofList [("./", .directory 1), ("./d", .file outerArchive 1),
          ("./d!", .directory 1), ("./d!/e", .directory 1)]
        clock := 2 } }

def sharedKey : List ContainerSpec := [⟨.directory "d!/e", .seed⟩, ⟨.nested "d" "e", .seed⟩]

/-- An archive whose caller asks to cancel while it is read, beside one that can be read. -/
def cancelling : ScriptedWorld :=
  let archive (cancelAfter : Option Nat) : ScriptedContainer :=
    { entries := [⟨"entry.class", []⟩], cancelAfter }
  { containers := NameMap.ofList [("a.jar", archive (some 0)), ("b.jar", archive none)] }

/-- Of two containers with one key the last is in memory; and who asks to cancel, before or meanwhile,
does not get every container. -/
theorem order_shows :
    (¬ ∀ (e : Engine) (specs : List ContainerSpec) (w : DiskWorld) (order order' : List (ContainerSpec × Nat)),
      (∀ spec ∈ specs, (e.restricted (DiskWorld.environment DiskWorld.inMemory)).Still w spec.location
        (w.disk.containerCourse spec.location)) →
      order.Perm specs.zipIdx → order'.Perm specs.zipIdx → ∀ key,
      (e.openInOrder (DiskWorld.environment DiskWorld.inMemory) specs order false w).2.1.indexUnder key =
        (e.openInOrder (DiskWorld.environment DiskWorld.inMemory) specs order' false w).2.1.indexUnder key) ∧
    (¬ ∀ (e : Engine) (specs : List ContainerSpec) (w : ScriptedWorld) (spec : ContainerSpec)
        (current : Identity), spec ∈ specs →
      (∀ spec ∈ specs, (e.restricted ScriptedWorld.environment).Still w spec.location
        (w.listing spec.location)) →
      Loading.identityOf ScriptedWorld.environment e.options.cacheSettings spec.location w = .ok current →
      (w.listing spec.location).failure = none →
      ((e.openModule ScriptedWorld.environment specs true w).2.1.indexUnder spec.location.cacheKey).isSome) ∧
    (¬ ∀ (e : Engine) (specs : List ContainerSpec) (w : ScriptedWorld)
        (order order' : List (ContainerSpec × Nat)), w.interruptions = 0 →
      order.Perm specs.zipIdx → order'.Perm specs.zipIdx → ∀ key,
      (e.openInOrder ScriptedWorld.environment specs order false w).2.1.indexUnder key =
        (e.openInOrder ScriptedWorld.environment specs order' false w).2.1.indexUnder key) := by
  refine ⟨fun hsame => ?_, fun hpublished => ?_, fun hsame => ?_⟩
  · have hcancels : ∀ spec ∈ sharedKey, (sharedPath.disk.containerCourse spec.location).cancels = false := by
      decide +kernel
    have hindex := hsame {} sharedKey sharedPath sharedKey.zipIdx sharedKey.zipIdx.reverse
      (fun spec hspec => DiskWorld.still (hcancels spec hspec)) .rfl (List.reverse_perm _)
      (Location.nested "d" "e").cacheKey
    have hsize := congrArg (Option.map fun index => index.identity.size) hindex
    revert hsize
    decide +kernel
  · let b : ContainerSpec := ⟨.archive "b.jar", .seed⟩
    have hcancels : ∀ spec ∈ [b], (cancelling.listing spec.location).cancels = false := by
      decide +kernel
    have hsome := hpublished {} [b] cancelling b _ (.head _)
      (fun spec hspec => ScriptedWorld.still rfl (hcancels spec hspec)) rfl rfl
    revert hsome
    decide +kernel
  · let specs : List ContainerSpec := [⟨.archive "a.jar", .seed⟩, ⟨.archive "b.jar", .seed⟩]
    have hindex := hsame {} specs cancelling specs.zipIdx specs.zipIdx.reverse rfl .rfl
      (List.reverse_perm _) (Location.archive "b.jar").cacheKey
    have hsome := congrArg Option.isSome hindex
    revert hsome
    decide +kernel

end Engine

end ClassCatalog
