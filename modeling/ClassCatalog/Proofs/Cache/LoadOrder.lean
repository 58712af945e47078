import ClassCatalog.Engine.Basic
import ClassCatalog.Proofs.Cache.Slot

/-!
# Loads in any order

A load is a function of one slot of the cache (`Loading.effect`), so loads of containers with different
keys do not meet, and a container that is loaded again finds what the first load left. Hence the order
in which a list of containers is loaded shows neither in what is returned (`Loading.answer_foldl`) nor
in what is left (`Loading.step_comm`), as long as those with one key are one container
(`Environment.Calm`).
-/

namespace ClassCatalog

/-- Nobody changes the containers of a list, and those that share a key and can be told by an identity are
one container. -/
structure Environment.Calm {ω : Type} (env : Environment ω) (settings : CacheSettings)
    (specs : List ContainerSpec) (w : ω) (listing : Location → Enumeration) : Prop where
  still {spec : ContainerSpec} (h : spec ∈ specs) : env.Still w spec.location (listing spec.location)
  one {spec other : ContainerSpec} (h : spec ∈ specs) (h' : other ∈ specs)
    (hkey : spec.location.cacheKey = other.location.cacheKey) {current current' : Identity}
    (hcurrent : Loading.identityOf env settings spec.location w = .ok current)
    (hcurrent' : Loading.identityOf env settings other.location w = .ok current') :
    current = current' ∧ listing spec.location = listing other.location

/-- If different containers of a list have different keys, it is enough that nobody changes them. -/
theorem Environment.Calm.of_keys {ω : Type} {env : Environment ω} {settings : CacheSettings}
    {specs : List ContainerSpec} {w : ω} {listing : Location → Enumeration}
    (hstill : ∀ spec ∈ specs, env.Still w spec.location (listing spec.location))
    (hkeys : ∀ spec ∈ specs, ∀ other ∈ specs, spec.location.cacheKey = other.location.cacheKey →
      spec.location = other.location) : env.Calm settings specs w listing where
  still h := hstill _ h
  one h h' hkey _ _ hcurrent hcurrent' := by
    rw [hkeys _ h _ h' hkey] at hcurrent ⊢
    exact ⟨Except.ok.inj (hcurrent.symm.trans hcurrent'), rfl⟩

namespace Loading

variable {ω κ : Type} {env : Environment ω} (cells : env.store.Cells κ) (settings : CacheSettings) (w : ω)
  (cancelled : Bool) (listing : Location → Enumeration)

/-- What a load returns and leaves while the containers are what they are in `w`. -/
def effect (l : Location) (slot : Slot κ) : Except ScanError Index × Slot κ :=
  match identityOf env settings l w with
  | .ok current =>
    slot.load settings cells l.cacheKey current (Scan.outcomeFor cancelled l current (listing l))
  | .error e => (.error e, slot)

/-- The slots that a load leaves. -/
def step (slots : String → Slot κ) (spec : ContainerSpec) (key : String) : Slot κ :=
  if key = spec.location.cacheKey then
    (effect cells settings w cancelled listing spec.location (slots key)).2
  else slots key

/-- What a load of a container returns over given slots. -/
def answer (slots : String → Slot κ) (spec : ContainerSpec) : Except ScanError Index :=
  (effect cells settings w cancelled listing spec.location (slots spec.location.cacheKey)).1

variable {cells settings w cancelled listing} {specs : List ContainerSpec} {spec other : ContainerSpec}
  {slots : String → Slot κ}

theorem effect_effect (l : Location) (slot : Slot κ) :
    effect cells settings w cancelled listing l (effect cells settings w cancelled listing l slot).2 =
      effect cells settings w cancelled listing l slot := by
  unfold effect
  cases identityOf env settings l w with
  | error e => rfl
  | ok current => exact Slot.load_load (fun _ => Scan.identity_of_outcomeFor) slot

variable (cells cancelled listing) in
/-- A load of a container with an identity leaves in memory what it returns, or fails as reading the
container does. -/
theorem effect_of_identityOf {l : Location} {current : Identity}
    (hcurrent : identityOf env settings l w = .ok current) (slot : Slot κ) :
    (∃ index left, effect cells settings w cancelled listing l slot = (.ok index, left) ∧
      left.index = some index) ∨
    (∃ e, Scan.outcomeFor cancelled l current (listing l) = .error e ∧
      effect cells settings w cancelled listing l slot = (.error e, slot)) := by
  unfold effect
  rw [hcurrent]
  obtain ⟨index, left, hload, hindex, -⟩ | hfailed :=
    Slot.load_cases settings cells l.cacheKey (fun _ => Scan.identity_of_outcomeFor) slot
  · exact .inl ⟨index, left, hload, hindex⟩
  · exact .inr hfailed

theorem index_of_effect {l : Location} {slot left : Slot κ} {index : Index}
    (h : effect cells settings w cancelled listing l slot = (.ok index, left)) : left.index = some index := by
  cases hcurrent : identityOf env settings l w with
  | error e =>
    rw [effect, hcurrent] at h
    nomatch h
  | ok current =>
    obtain ⟨made, after, hload, hindex⟩ | ⟨e, -, hload⟩ :=
      effect_of_identityOf cells cancelled listing hcurrent slot
    · rw [hload] at h
      cases h
      exact hindex
    · rw [hload] at h
      nomatch h

theorem path_of_identityOf {l : Location} {course : Enumeration} {current : Identity}
    (h : Undisturbed env l w course) (hcurrent : identityOf env settings l w = .ok current) :
    current.path = l.logicalPath := by
  rw [identityOf_eq h] at hcurrent
  unfold identityFrom at hcurrent
  split at hcurrent
  · nomatch hcurrent
  · split at hcurrent
    all_goals cases hcurrent
    all_goals rfl

/-- Reading one of two containers with one key comes to the same as reading the other, if both can be told by an
identity. -/
theorem outcomeFor_of_calm (h : env.Calm settings specs w listing) (hspec : spec ∈ specs)
    (hother : other ∈ specs) (hkey : spec.location.cacheKey = other.location.cacheKey)
    {current current' : Identity} (hcurrent : identityOf env settings spec.location w = .ok current)
    (hcurrent' : identityOf env settings other.location w = .ok current') (cancelled : Bool) :
    current = current' ∧ Scan.outcomeFor cancelled spec.location current (listing spec.location) =
      Scan.outcomeFor cancelled other.location current' (listing other.location) := by
  obtain ⟨rfl, hlisting⟩ := h.one hspec hother hkey hcurrent hcurrent'
  have hpath : spec.location.logicalPath = other.location.logicalPath :=
    (path_of_identityOf ((h.still hspec).undisturbed .refl) hcurrent).symm.trans
      (path_of_identityOf ((h.still hother).undisturbed .refl) hcurrent')
  refine ⟨rfl, ?_⟩
  unfold Scan.outcomeFor Scan.outcome
  rw [hlisting, hpath]

/-- Of two containers with one key, one cannot be told by an identity, or loading the one is loading the
other. -/
theorem effect_cases (h : env.Calm settings specs w listing) (hspec : spec ∈ specs) (hother : other ∈ specs)
    (hkey : spec.location.cacheKey = other.location.cacheKey) :
    (∃ e, ∀ slot, effect cells settings w cancelled listing spec.location slot = (.error e, slot)) ∨
    (∃ e, ∀ slot, effect cells settings w cancelled listing other.location slot = (.error e, slot)) ∨
    effect cells settings w cancelled listing spec.location =
      effect cells settings w cancelled listing other.location := by
  cases hcurrent : identityOf env settings spec.location w with
  | error e =>
    refine .inl ⟨e, fun slot => ?_⟩
    unfold effect
    rw [hcurrent]
  | ok current =>
    cases hcurrent' : identityOf env settings other.location w with
    | error e =>
      refine .inr (.inl ⟨e, fun slot => ?_⟩)
      unfold effect
      rw [hcurrent']
    | ok current' =>
      obtain ⟨rfl, hmade⟩ := outcomeFor_of_calm h hspec hother hkey hcurrent hcurrent' cancelled
      refine .inr (.inr (funext fun slot => ?_))
      unfold effect
      rw [hcurrent, hcurrent', hkey]
      simp only [hmade]

/-- What a load returns does not depend on a load before it. -/
theorem answer_step (h : env.Calm settings specs w listing) (hspec : spec ∈ specs) (hother : other ∈ specs) :
    answer cells settings w cancelled listing (step cells settings w cancelled listing slots other) spec =
      answer cells settings w cancelled listing slots spec := by
  unfold answer step
  split
  next hkey =>
    obtain ⟨e, he⟩ | ⟨e, he⟩ | heq := effect_cases h hspec hother hkey
    · rw [he, he]
    · rw [he]
    · rw [← heq, effect_effect]
  next => rfl

theorem answer_foldl (h : env.Calm settings specs w listing) (hspec : spec ∈ specs)
    {order : List ContainerSpec} (horder : ∀ other ∈ order, other ∈ specs) (slots : String → Slot κ) :
    answer cells settings w cancelled listing
        (order.foldl (step cells settings w cancelled listing) slots) spec =
      answer cells settings w cancelled listing slots spec := by
  induction order generalizing slots with
  | nil => rfl
  | cons other order ih =>
    obtain ⟨hother, horder⟩ := List.forall_mem_cons.1 horder
    rw [List.foldl_cons, ih horder, answer_step h hspec hother]

theorem step_comm (h : env.Calm settings specs w listing) (hspec : spec ∈ specs) (hother : other ∈ specs)
    (slots : String → Slot κ) :
    step cells settings w cancelled listing (step cells settings w cancelled listing slots spec) other =
      step cells settings w cancelled listing (step cells settings w cancelled listing slots other) spec := by
  funext key
  simp only [step]
  by_cases hkey : key = spec.location.cacheKey
  · by_cases hkey' : key = other.location.cacheKey
    · simp only [if_pos hkey, if_pos hkey']
      obtain ⟨e, he⟩ | ⟨e, he⟩ | heq := effect_cases h hspec hother (hkey.symm.trans hkey')
      · rw [he, he]
      · rw [he, he]
      · rw [heq]
    · simp only [if_pos hkey, if_neg hkey']
  · by_cases hkey' : key = other.location.cacheKey
    · simp only [if_neg hkey, if_pos hkey']
    · simp only [if_neg hkey, if_neg hkey']

theorem step_step (slots : String → Slot κ) (spec : ContainerSpec) :
    step cells settings w cancelled listing (step cells settings w cancelled listing slots spec) spec =
      step cells settings w cancelled listing slots spec := by
  funext key
  simp only [step]
  split
  · rw [effect_effect]
  · rfl

/-- What a container was loaded into, loading it again does not change, whatever is loaded in between. -/
theorem step_foldl (h : env.Calm settings specs w listing) {order : List ContainerSpec}
    (horder : ∀ other ∈ order, other ∈ specs) (hspec : spec ∈ order) (slots : String → Slot κ) :
    step cells settings w cancelled listing
        (order.foldl (step cells settings w cancelled listing) slots) spec =
      order.foldl (step cells settings w cancelled listing) slots := by
  have hpast : ∀ (rest : List ContainerSpec) (slots : String → Slot κ), (∀ other ∈ rest, other ∈ specs) →
      step cells settings w cancelled listing
          (rest.foldl (step cells settings w cancelled listing) slots) spec =
        rest.foldl (step cells settings w cancelled listing)
          (step cells settings w cancelled listing slots spec) := by
    intro rest
    induction rest with
    | nil => exact fun _ _ => rfl
    | cons other rest ih =>
      intro slots hrest
      obtain ⟨hother, hrest⟩ := List.forall_mem_cons.1 hrest
      rw [List.foldl_cons, List.foldl_cons, ih _ hrest, step_comm h hother (horder spec hspec)]
  rw [hpast order slots horder]
  obtain ⟨before, after, rfl⟩ := List.append_of_mem hspec
  have hbefore : ∀ other ∈ before, other ∈ specs := fun other hmem =>
    horder other (List.mem_append_left _ hmem)
  rw [List.foldl_append, List.foldl_append, ← hpast before slots hbefore, List.foldl_cons, List.foldl_cons,
    step_step]

/-- A container that could be loaded is published once it has been loaded, whatever is loaded besides. -/
theorem index_foldl (h : env.Calm settings specs w listing) {order : List ContainerSpec}
    (horder : ∀ other ∈ order, other ∈ specs) (hspec : spec ∈ order) {slots : String → Slot κ} {index : Index}
    (hanswer : answer cells settings w cancelled listing slots spec = .ok index) :
    (order.foldl (step cells settings w cancelled listing) slots spec.location.cacheKey).index =
      some index := by
  rw [← answer_foldl h (horder spec hspec) horder] at hanswer
  have hfixed : step cells settings w cancelled listing
      (order.foldl (step cells settings w cancelled listing) slots) spec spec.location.cacheKey =
        order.foldl (step cells settings w cancelled listing) slots spec.location.cacheKey :=
    congrFun (step_foldl h horder hspec slots) _
  generalize order.foldl (step cells settings w cancelled listing) slots = left at hanswer hfixed ⊢
  rw [step, if_pos rfl] at hfixed
  exact index_of_effect (Prod.ext hanswer hfixed)

/-- A container that can be told by an identity and read to its end can be loaded, unless the caller has
asked to cancel. -/
theorem answer_of_readable {current : Identity}
    (hcurrent : identityOf env settings spec.location w = .ok current)
    (hlisting : (listing spec.location).failure = none) (slots : String → Slot κ) :
    ∃ index, answer cells settings w false listing slots spec = .ok index := by
  unfold answer
  obtain ⟨index, left, hload, -⟩ | ⟨e, hmade, -⟩ := effect_of_identityOf cells false listing hcurrent
    (slots spec.location.cacheKey)
  · exact ⟨index, congrArg Prod.fst hload⟩
  · rw [Scan.outcomeFor, Scan.outcome, hlisting] at hmade
    cases hmade

variable (cells) in
/-- What is returned and what is left when a container of a calm list is loaded. -/
theorem wp_load_effect (h : env.Calm settings specs w listing) (hspec : spec ∈ specs) {s : Session ω}
    (hworld : env.Writes w s.world) :
    wp (load env settings spec.location) (fun r s' =>
      r.map Loaded.index = answer cells settings w s.cancelled listing (s.slot cells) spec ∧
      s'.slot cells = step cells settings w s.cancelled listing (s.slot cells) spec ∧
      env.Writes w s'.world ∧ s'.cancelled = s.cancelled) s := by
  have hstill := h.still hspec
  refine wp_mono (wp_load_slot cells (hstill.undisturbed hworld)) ?_
  rintro r s' ⟨hresult, hslot, hothers, hwrites, hcancelled⟩
  rw [hstill.identityOf hworld] at hresult hslot
  refine ⟨hresult, funext fun key => ?_, hworld.trans hwrites, hcancelled⟩
  unfold step
  split
  next hkey =>
    subst hkey
    exact hslot
  next hne => exact hothers hne

end Loading

end ClassCatalog
