import Mathlib.Logic.Relation
import ClassCatalog.Proofs.Callers.Transitions

/-!
# Cells are filled one at a time

`Crowd.Orderly`: a cell that somebody holds and that is not filled is the one set up under the key of
its container, and a cell that is set up is held by somebody. So there is one open cell for a key, it
has one filler, and it is taken down by one of its holders.
-/

namespace ClassCatalog

namespace Caller

def location : Caller → Location
  | load l _ => l
  | evict l _ => l
  | invalidate l _ => l

/-- The key of the container a call is about. -/
def key (c : Caller) : String := c.location.cacheKey

/-- The cell that a caller has taken and not yet left. -/
def cell? : Caller → Option Nat
  | load _ (.holding _ c) => some c
  | load _ (.filling _ c _) => some c
  | load _ (.leaving _ c _) => some c
  | _ => none

/-- The cell that a caller fills. -/
def fills? : Caller → Option Nat
  | load _ (.filling _ c _) => some c
  | _ => none

/-- The result with which a caller leaves its cell. -/
def leaves? : Caller → Option (Except ScanError Loaded)
  | load _ (.leaving _ _ r) => some r
  | _ => none

/-- The result that a load has found, unless it fills a cell. -/
def result? : Caller → Option (Except ScanError Loaded)
  | load _ (.leaving _ _ r) => some r
  | load _ (.deciding _ r) => some r
  | load _ (.returned _ r) => some r
  | _ => none

/-- What a load has returned, with the container and its identity as the load has learned it. -/
def loaded? : Caller → Option (Location × Identity × Loaded)
  | load l (.returned current (.ok loaded)) => some (l, current, loaded)
  | _ => none

theorem eq_of_loaded? {c : Caller} {l : Location} {current : Identity} {loaded : Loaded}
    (h : c.loaded? = some (l, current, loaded)) : c = load l (.returned current (.ok loaded)) := by
  unfold loaded? at h
  split at h
  · cases h
    rfl
  · cases h

theorem cell?_of_fills? {c : Caller} {n : Nat} (h : c.fills? = some n) : c.cell? = some n := by
  unfold fills? at h
  split at h
  · exact h
  · cases h

end Caller

namespace Cell

/-- The index that a cell is filled with. -/
def made? : Cell → Option Loaded
  | filled (.ok made) => some made
  | _ => none

theorem eq_of_made? {x : Cell} {made : Loaded} (h : x.made? = some made) : x = filled (.ok made) := by
  unfold made? at h
  split at h
  · cases h
    rfl
  · cases h

end Cell

namespace Crowd

variable {ι ω α : Type} [DecidableEq ι] {env : Environment ω} {settings : CacheSettings}
  {s s' : Crowd ι ω} {i j : ι}

/-- Nobody has begun, and no cell is set up. -/
structure Fresh (s : Crowd ι ω) : Prop where
  cells : s.cells = ∅
  contents : ∀ c, s.contents c = .empty
  callers : ∀ i, (∃ l, s.callers i = .load l .ready) ∨ (∃ l, s.callers i = .evict l none) ∨
    ∃ l, s.callers i = .invalidate l .ready

/-- What can happen: a caller takes its next step, somebody asks to cancel, or containers and store
change. -/
inductive Step (env : Environment ω) (settings : CacheSettings) : Crowd ι ω → Crowd ι ω → Prop
  | move {s s' : Crowd ι ω} (i : ι) (h : s.step env settings i = some s') : Step env settings s s'
  | cancel (s : Crowd ι ω) (k : Nat) :
    Step env settings s { s with cancelled := fun t => t = k || s.cancelled t }
  | change (s : Crowd ι ω) (w : ω) : Step env settings s { s with world := w }

/-- Any number of such steps. -/
abbrev Steps (env : Environment ω) (settings : CacheSettings) : Crowd ι ω → Crowd ι ω → Prop :=
  Relation.ReflTransGen (Step env settings)

/-! ### What a step does to the cells -/

/-- What a step does to the cells that takes a call from `c` to `c'`. -/
inductive Turn (c c' : Caller) (s s' : Crowd ι ω) : Prop where
  | idle (hcells : s'.cells = s.cells) (hcontents : ∀ m, s'.contents m = s.contents m)
      (hnext : s'.nextCell = s.nextCell) (hcell : c'.cell? = c.cell?) (hfills : c'.fills? = c.fills?)
      (hleaves : ∀ r, c'.leaves? = some r → ∃ n, c.cell? = some n ∧ s.contents n = .filled r)
  | join {n : Nat} (hset : s.cells.find? c.key = some n) (hcells : s'.cells = s.cells)
      (hcontents : ∀ m, s'.contents m = s.contents m) (hnext : s'.nextCell = s.nextCell)
      (hnone : c.cell? = none) (hcell : c'.cell? = some n) (hfills : c'.fills? = none)
      (hleaves : c'.leaves? = none)
  | setUp (hunset : s.cells.find? c.key = none) (hcells : s'.cells = s.cells.insert c.key s.nextCell)
      (hcontents : ∀ m, s'.contents m = s.contents m) (hnext : s'.nextCell = s.nextCell + 1)
      (hnone : c.cell? = none) (hcell : c'.cell? = some s.nextCell) (hfills : c'.fills? = none)
      (hleaves : c'.leaves? = none)
  | begin {n : Nat} (hempty : s.contents n = .empty) (hcells : s'.cells = s.cells)
      (hcontents : ∀ m, s'.contents m = if m = n then .taken else s.contents m)
      (hnext : s'.nextCell = s.nextCell) (hheld : c.cell? = some n) (hcell : c'.cell? = some n)
      (hfills : c'.fills? = some n) (hleaves : c'.leaves? = none)
  | finish {n : Nat} {r : Except ScanError Loaded} (hfilled : c.fills? = some n)
      (hcells : s'.cells = s.cells)
      (hcontents : ∀ m, s'.contents m = if m = n then .filled r else s.contents m)
      (hnext : s'.nextCell = s.nextCell) (hcell : c'.cell? = some n) (hfills : c'.fills? = none)
      (hleaves : c'.leaves? = some r)
  | leave {n : Nat} {r : Except ScanError Loaded} (hheld : c.cell? = some n) (hleft : c.leaves? = some r)
      (hcells : s'.cells = if s.cells.find? c.key = some n then s.cells.erase c.key else s.cells)
      (hcontents : ∀ m, s'.contents m = s.contents m) (hnext : s'.nextCell = s.nextCell)
      (hnone : c'.cell? = none)

omit [DecidableEq ι] in
theorem Move.location {c c' : Caller} {t : Crowd ι ω} (h : Move env settings i s c c' t) :
    c'.location = c.location := by
  cases h <;> rfl

omit [DecidableEq ι] in
/-- The move itself changes neither who is where nor who looks at what. -/
theorem Move.shared {c c' : Caller} {t : Crowd ι ω} (h : Move env settings i s c c' t) :
    t.callers = s.callers ∧ t.token = s.token := by
  cases h <;> exact ⟨rfl, rfl⟩

theorem Move.turn {c c' : Caller} {t : Crowd ι ω} (h : Move env settings i s c c' t) :
    Turn c c' s (t.moved i c') := by
  cases h with
  | join hset => exact .join hset rfl (fun _ => rfl) rfl rfl rfl rfl rfl
  | setUp hunset => exact .setUp hunset rfl (fun _ => rfl) rfl rfl rfl rfl rfl
  | begin hempty => exact .begin hempty rfl (fun _ => rfl) rfl rfl rfl rfl rfl
  | collect hfilled =>
    refine .idle rfl (fun _ => rfl) rfl rfl rfl fun r hr => ⟨_, rfl, ?_⟩
    exact Option.some.inj hr ▸ hfilled
  | finish => exact .finish rfl rfl (fun _ => rfl) rfl rfl rfl rfl
  | leave => exact .leave rfl rfl rfl (fun _ => rfl) rfl rfl
  | _ => exact .idle rfl (fun _ => rfl) rfl rfl rfl nofun

/-- A step of a caller concerns the others only through the cells. -/
structure Moves (i : ι) (s s' : Crowd ι ω) : Prop where
  others : ∀ {j}, j ≠ i → s'.callers j = s.callers j
  token : s'.token = s.token
  location : (s'.callers i).location = (s.callers i).location
  turn : Turn (s.callers i) (s'.callers i) s s'

@[simp] theorem moved_callers_self (s : Crowd ι ω) (i : ι) (c : Caller) :
    (s.moved i c).callers i = c := if_pos rfl

theorem moved_callers_of_ne (s : Crowd ι ω) {i j : ι} (h : j ≠ i) (c : Caller) :
    (s.moved i c).callers j = s.callers j := if_neg h

theorem moves_of_step (h : s.step env settings i = some s') : Moves i s s' := by
  obtain ⟨c, t, hmove, rfl⟩ := step_moves h
  obtain ⟨hcallers, htoken⟩ := hmove.shared
  refine ⟨fun hj => (moved_callers_of_ne t hj c).trans (congrFun hcallers _), htoken, ?_, ?_⟩
  · rw [moved_callers_self]
    exact hmove.location
  · rw [moved_callers_self]
    exact hmove.turn

/-! ### Where what a caller has comes from -/

section

variable {c c' : Caller} {t : Crowd ι ω} {n : Nat} {r : Except ScanError Loaded}

omit [DecidableEq ι] in
theorem Move.contents (h : Move env settings i s c c' t) (hr : t.contents n = .filled r) :
    s.contents n = .filled r ∨ ∃ l current, c = .load l (.filling current n (.ended r)) := by
  cases h with
  | @begin l current m hempty =>
    have hr : (if n = m then .taken else s.contents n) = .filled r := hr
    split at hr
    · nomatch hr
    · exact .inl hr
  | @finish l current m result =>
    have hr : (if n = m then .filled result else s.contents n) = .filled r := hr
    split at hr
    next hm =>
      cases hr
      exact .inr ⟨l, current, hm ▸ rfl⟩
    next => exact .inl hr
  | _ => exact .inl hr

omit [DecidableEq ι] in
theorem Move.cell (h : Move env settings i s c c' t) (hn : c'.cell? = some n) :
    c.cell? = some n ∨ s.cells.find? c.key = some n ∨ n = s.nextCell := by
  cases h with
  | join hset =>
    cases hn
    exact .inr (.inl hset)
  | setUp =>
    cases hn
    exact .inr (.inr rfl)
  | leave => nomatch hn
  | _ => exact .inl hn

omit [DecidableEq ι] in
theorem Move.result (h : Move env settings i s c c' t) (hr : c'.result? = some r) :
    c.result? = some r ∨ (∃ n, c.cell? = some n ∧ s.contents n = .filled r) ∨
      (∃ l current n, c = .load l (.filling current n (.ended r))) ∨
      ∃ l current loaded, c = .load l (.recalling current) ∧
        s.cache.published.find? l.cacheKey = some loaded ∧
        Loading.accepts settings loaded.index.identity current = true ∧ r = .ok loaded := by
  cases h with
  | recollect hfound haccepts =>
    cases hr
    exact .inr (.inr (.inr ⟨_, _, _, rfl, hfound, haccepts, rfl⟩))
  | collect hfilled =>
    cases hr
    exact .inr (.inl ⟨_, rfl, hfilled⟩)
  | finish =>
    cases hr
    exact .inr (.inr (.inl ⟨_, _, _, rfl⟩))
  | leave => exact .inl hr
  | accept => exact .inl hr
  | _ => nomatch hr

omit [DecidableEq ι] in
theorem Move.filling {l : Location} {current : Identity} {f' : Filling}
    (h : Move env settings i s c (.load l (.filling current n f')) t) :
    (f' = .begun ∧ s.contents n = .empty ∧ c = .load l (.holding current n)) ∨
      ∃ f σ, f.Advance env settings l.cacheKey l current (s.session i) f' σ ∧ t = s.after i σ ∧
        c = .load l (.filling current n f) := by
  cases h with
  | begin hempty => exact .inl ⟨rfl, hempty, rfl⟩
  | fill hadvance => exact .inr ⟨_, _, hadvance, rfl, rfl⟩

end

/-! ### Order among the cells -/

structure Orderly (s : Crowd ι ω) : Prop where
  held_lt : ∀ {i n}, (s.callers i).cell? = some n → n < s.nextCell
  unused : ∀ {n}, s.nextCell ≤ n → s.contents n = .empty
  /-- Whoever holds a cell is at work on one container. -/
  named : ∀ {i j n}, (s.callers i).cell? = some n → (s.callers j).cell? = some n →
    (s.callers i).key = (s.callers j).key
  taken : ∀ {i n}, (s.callers i).fills? = some n → s.contents n = .taken
  filler : ∀ {n}, s.contents n = .taken → ∃ i, (s.callers i).fills? = some n
  alone : ∀ {i j n}, (s.callers i).fills? = some n → (s.callers j).fills? = some n → i = j
  /-- A cell that is held and not filled is set up. -/
  isSet : ∀ {i n}, (s.callers i).cell? = some n → (∀ r, s.contents n ≠ .filled r) →
    s.cells.find? (s.callers i).key = some n
  /-- A cell that is set up is held. -/
  attended : ∀ {key n}, s.cells.find? key = some n →
    ∃ i, (s.callers i).cell? = some n ∧ (s.callers i).key = key
  left : ∀ {i n r}, (s.callers i).leaves? = some r → (s.callers i).cell? = some n →
    s.contents n = .filled r

namespace Moves

theorem key (h : Moves i s s') (j : ι) : (s'.callers j).key = (s.callers j).key := by
  by_cases hj : j = i
  · rw [hj]
    exact congrArg Location.cacheKey h.location
  · rw [h.others hj]

theorem eq_or (h : Moves i s s') (j : ι) : j = i ∨ s'.callers j = s.callers j := by
  by_cases hj : j = i
  · exact .inl hj
  · exact .inr (h.others hj)

omit [DecidableEq ι] in
/-- A cell is taken down by a caller that has taken it. -/
theorem takes_down {key : String} {n : Nat} (h : Moves i s s') (hset : s.cells.find? key = some n)
    (hgone : s'.cells.find? key ≠ some n) : (s.callers i).key = key ∧ (s.callers i).cell? = some n := by
  have hsame : s'.cells ≠ s.cells := fun hcells => hgone (hcells ▸ hset)
  cases h.turn with
  | idle hcells => exact absurd hcells hsame
  | join _ hcells => exact absurd hcells hsame
  | setUp hunset hcells =>
    rw [hcells, NameMap.find?_insert] at hgone
    split at hgone
    next hkey => nomatch (hkey ▸ hunset).symm.trans hset
    next => exact absurd hset hgone
  | begin _ hcells => exact absurd hcells hsame
  | finish _ hcells => exact absurd hcells hsame
  | leave hheld _ hcells =>
    rw [hcells] at hgone hsame
    split at hgone
    next hown =>
      rw [NameMap.find?_erase] at hgone
      split at hgone
      next hkey =>
        rw [hkey, hown] at hset
        exact ⟨hkey.symm, Option.some.inj hset ▸ hheld⟩
      next => exact absurd hset hgone
    next => exact absurd hset hgone

end Moves

namespace Orderly

variable {n : Nat}

omit [DecidableEq ι] in
theorem isSet_of_fills (ho : s.Orderly) (hi : (s.callers i).fills? = some n) :
    s.cells.find? (s.callers i).key = some n := by
  refine ho.isSet (Caller.cell?_of_fills? hi) fun r hr => ?_
  rw [ho.taken hi] at hr
  nomatch hr

omit [DecidableEq ι] in
/-- There is one filler for a key. -/
theorem filler_unique (ho : s.Orderly) {m : Nat} (hi : (s.callers i).fills? = some n)
    (hj : (s.callers j).fills? = some m) (hkey : (s.callers i).key = (s.callers j).key) : i = j := by
  have hset := ho.isSet_of_fills hi
  rw [hkey, ho.isSet_of_fills hj] at hset
  exact ho.alone hi (Option.some.inj hset ▸ hj)

omit [DecidableEq ι] in
/-- While somebody fills a cell, nobody holds an empty one for the same container. -/
theorem ne_empty_of_fills (ho : s.Orderly) {m : Nat} (hj : (s.callers j).fills? = some m)
    (hi : (s.callers i).cell? = some n) (hkey : (s.callers i).key = (s.callers j).key) :
    s.contents n ≠ .empty := by
  intro hempty
  have hset := ho.isSet hi fun r hr => nomatch hempty.symm.trans hr
  rw [hkey, ho.isSet_of_fills hj] at hset
  cases hset
  nomatch (ho.taken hj).symm.trans hempty

theorem moves (ho : s.Orderly) (h : Moves i s s') : s'.Orderly := by
  have hkey := h.key
  have hfiller : ∀ {n}, s.contents n = .taken →
      ∃ j, (s.callers j).fills? = some n ∧ (j = i ∨ s'.callers j = s.callers j) := fun hn => by
    obtain ⟨j, hj⟩ := ho.filler hn
    exact ⟨j, hj, h.eq_or j⟩
  have hattended : ∀ {key n}, s.cells.find? key = some n → ∃ j, (s.callers j).cell? = some n ∧
      (s.callers j).key = key ∧ (j = i ∨ s'.callers j = s.callers j) := fun hn => by
    obtain ⟨j, hj, hjkey⟩ := ho.attended hn
    exact ⟨j, hj, hjkey, h.eq_or j⟩
  have hcell : ∀ {c : Caller} {n}, c.fills? = some n → c.cell? = some n := Caller.cell?_of_fills?
  have hother := h.eq_or
  cases h.turn with
  | idle hcells hcontents hnext hheld hfills hleaves =>
    obtain ⟨hlt, hunused, hnamed, htaken, -, halone, hset, -, hleft⟩ := ho
    constructor <;> grind
  | join hjoined hcells hcontents hnext hnone hheld hfills hleaves =>
    obtain ⟨hlt, hunused, hnamed, htaken, -, halone, hset, -, hleft⟩ := ho
    -- Somebody is already there, who says whose container it is.
    obtain ⟨k, hk, hkkey, -⟩ := hattended hjoined
    constructor <;> grind
  | setUp hunset hcells hcontents hnext hnone hheld hfills hleaves =>
    obtain ⟨hlt, hunused, hnamed, htaken, -, halone, hset, -, hleft⟩ := ho
    constructor <;> grind [NameMap.find?_insert]
  | begin hempty hcells hcontents hnext hbefore hheld hfills hleaves =>
    obtain ⟨hlt, hunused, hnamed, htaken, -, halone, hset, -, hleft⟩ := ho
    constructor <;> grind
  | finish hfilled hcells hcontents hnext hheld hfills hleaves =>
    obtain ⟨hlt, hunused, hnamed, htaken, -, halone, hset, -, hleft⟩ := ho
    constructor <;> grind
  | leave hheld hleft hcells hcontents hnext hnone =>
    -- What is taken down is filled, so nobody who waits or fills misses it.
    have hfilled := ho.left hleft hheld
    obtain ⟨hlt, hunused, hnamed, htaken, -, halone, hset, -, hleft⟩ := ho
    constructor <;> grind [NameMap.find?_erase]

/-- A filled cell that somebody holds was filled before, when some caller of the same container held it,
or a filling for that container has just ended. -/
theorem filled_of_step (ho : s.Orderly) (hstep : s.step env settings i = some s')
    {r : Except ScanError Loaded} (hj : (s'.callers j).cell? = some n) (hr : s'.contents n = .filled r) :
    (∃ k, (s.callers k).cell? = some n ∧ (s.callers k).key = (s.callers j).key ∧
        s.contents n = .filled r) ∨
      ∃ l current, s.callers i = .load l (.filling current n (.ended r)) ∧
        l.cacheKey = (s.callers j).key := by
  have hothers : j ≠ i → s'.callers j = s.callers j := (moves_of_step hstep).others
  obtain ⟨c, t, hmove, rfl⟩ := step_moves hstep
  obtain hbefore | ⟨l, current, hfilling⟩ := hmove.contents hr
  · by_cases hji : j = i
    · subst hji
      rw [moved_callers_self] at hj
      obtain hheld | hset | hnew := hmove.cell hj
      · exact .inl ⟨j, hheld, rfl, hbefore⟩
      · obtain ⟨k, hk, hkkey⟩ := ho.attended hset
        exact .inl ⟨k, hk, hkkey, hbefore⟩
      · nomatch (ho.unused (Nat.le_of_eq hnew.symm)).symm.trans hbefore
    · exact .inl ⟨j, hothers hji ▸ hj, rfl, hbefore⟩
  · refine .inr ⟨l, current, hfilling, ?_⟩
    by_cases hji : j = i
    · rw [hji, hfilling]
      rfl
    · have hfills : (s.callers i).cell? = some n := by rw [hfilling]; rfl
      have hkey := ho.named hfills (hothers hji ▸ hj)
      rw [hfilling] at hkey
      exact hkey

theorem step (ho : s.Orderly) (h : Step env settings s s') : s'.Orderly := by
  cases h with
  | move i h => exact ho.moves (moves_of_step h)
  | cancel k => exact ⟨ho.held_lt, ho.unused, ho.named, ho.taken, ho.filler, ho.alone, ho.isSet,
      ho.attended, ho.left⟩
  | change w => exact ⟨ho.held_lt, ho.unused, ho.named, ho.taken, ho.filler, ho.alone, ho.isSet,
      ho.attended, ho.left⟩

theorem steps (ho : s.Orderly) (h : Steps env settings s s') : s'.Orderly := by
  induction h with
  | refl => exact ho
  | tail _ h ih => exact ih.step h

end Orderly

omit [DecidableEq ι] in
theorem Fresh.orderly (h : s.Fresh) : s.Orderly := by
  have hcell : ∀ i, (s.callers i).cell? = none := fun i => by
    obtain ⟨l, hl⟩ | ⟨l, hl⟩ | ⟨l, hl⟩ := h.callers i <;> rw [hl] <;> rfl
  have hcell' : ∀ {i n}, (s.callers i).cell? ≠ some n := fun {i n} hn => nomatch (hcell i).symm.trans hn
  have hfills : ∀ {i n}, (s.callers i).fills? ≠ some n := fun hn => hcell' (Caller.cell?_of_fills? hn)
  refine ⟨(absurd · hcell'), fun _ => h.contents _, fun hi => absurd hi hcell', (absurd · hfills),
    fun {n} hn => ?_, fun hi => absurd hi hfills, fun hi => absurd hi hcell', fun {key n} hset => ?_,
    fun _ hi => absurd hi hcell'⟩
  · rw [h.contents] at hn
    nomatch hn
  · rw [h.cells] at hset
    nomatch hset

end Crowd

end ClassCatalog
