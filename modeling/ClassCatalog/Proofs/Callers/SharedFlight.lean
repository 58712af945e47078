import ClassCatalog.Proofs.Callers.Cells

/-!
# Loads of one container share one reading

Callers load a container that was never seen before and that does not change (`Crowd.Unseen`). Until
somebody begins to read it, it is nowhere; while somebody reads it, nobody else fills a cell; and once
it is in memory, whoever fills a cell finds it there (`Crowd.Flight`, with one phase for each). Every
step brings a load nearer to its end (`LoadStage.distance`).
-/

namespace ClassCatalog

/-- A container that is loaded: its identity, what reading it comes to, how many containers were read
before, and the number of the loading that reads it. -/
structure Target where
  location : Location
  identity : Identity
  course : Enumeration
  passes : Nat
  serial : Nat

namespace Target

variable {ω : Type} {env : Environment ω} {settings : CacheSettings} {x : Target}

def key (x : Target) : String := x.location.cacheKey

def index (x : Target) : Index := .ofEntries x.identity x.course.entries

def loaded (x : Target) : Loaded := ⟨x.index, x.serial⟩

theorem index_identity (x : Target) : x.index.identity = x.identity :=
  Index.ofEntries_identity x.identity x.course.entries

/-- The container can be read to the end, and its identity can be learned. -/
structure Offered (env : Environment ω) (settings : CacheSettings) (x : Target) (w : ω) : Prop
    extends Loading.Undisturbed env x.location w x.course where
  resolved : Loading.identityOf env settings x.location w = .ok x.identity
  complete : x.course.failure = none

theorem Offered.run_resolve {s : Session ω} (h : x.Offered env settings s.world) :
    (Loading.resolve env settings x.location).run.run s = (.ok x.identity, s) := by
  have hresolve : wp (Loading.resolve env settings x.location)
      (fun r s' => r = .ok x.identity ∧ s' = s) s := by
    rw [Loading.wp_resolve h.toUndisturbed]
    exact ⟨h.resolved, rfl⟩
  exact Prod.ext hresolve.1 hresolve.2

theorem accepts_index (settings : CacheSettings) (x : Target) :
    Loading.accepts settings x.index.identity x.identity = true := by
  rw [index_identity]
  unfold Loading.accepts
  split <;> exact beq_self_eq_true _

/-- What is left of an enumeration comes to the index of the container, and nobody cancels. -/
structure Rest (x : Target) (rest : List Delivery) (index : Index) : Prop where
  cancels : rest.contains .cancel = false
  comesTo : (Enumeration.mk rest none).entries.foldl (fun index e => (index.take e).1) index = x.index

theorem Offered.rest {w : ω} (h : x.Offered env settings w) :
    x.Rest x.course.deliveries { identity := x.identity } := ⟨h.cancels, rfl⟩

theorem Rest.nil {index : Index} (h : x.Rest [] index) : index = x.index := h.comesTo

/-- Nobody has asked to cancel, so the next delivery is an entry and is taken. -/
theorem Rest.cons {d : Delivery} {rest : List Delivery} {index : Index} (h : x.Rest (d :: rest) index) :
    x.Rest rest (Scan.run [d] { index }).index ∧ (Scan.run [d] { index }).cancelled = false ∧
      (Scan.run [d] { index }).stopped = false := by
  cases d with
  | cancel => nomatch h.cancels
  | entry e => exact ⟨⟨by simpa using h.cancels, h.comesTo⟩, rfl, rfl⟩

end Target

namespace LoadStage

/-- How many steps a load can still take, if its container delivers so much. -/
def distance (deliveries : Nat) : LoadStage → Nat
  | ready => deliveries + 15
  | resolved _ => deliveries + 14
  | recalling _ => deliveries + 13
  | seeking _ => deliveries + 12
  | holding _ _ => deliveries + 11
  | filling _ _ .begun => deliveries + 10
  | filling _ _ (.flagged _) => deliveries + 9
  | filling _ _ (.missed _) => deliveries + 8
  | filling _ _ (.opening _) => deliveries + 7
  | filling _ _ (.reading _ rest _ _) => rest.length + 6
  | filling _ _ (.built _) => 5
  | filling _ _ (.kept _) => 4
  | filling _ _ (.failed _ _) => 4
  | filling _ _ (.ended _) => 3
  | leaving _ _ _ => 2
  | deciding _ _ => 1
  | returned _ _ => 0
  | refused _ => 0

end LoadStage

def Caller.distance (deliveries : Nat) : Caller → Nat
  | load _ stage => stage.distance deliveries
  | _ => 0

namespace Crowd

variable {ι ω : Type} [DecidableEq ι] {env : Environment ω} {settings : CacheSettings} {x : Target}
  {s s' t : Crowd ι ω} {i j : ι}

/-- A run in which callers take turns and nothing else happens; the last turn comes first. -/
inductive Path (env : Environment ω) (settings : CacheSettings) (s : Crowd ι ω) :
    List ι → Crowd ι ω → Prop
  | start : Path env settings s [] s
  | turn {turns : List ι} {s' s'' : Crowd ι ω} {i : ι} (h : Path env settings s turns s')
      (hstep : s'.step env settings i = some s'') : Path env settings s (i :: turns) s''

theorem Path.steps {turns : List ι} (h : Path env settings s turns s') : Steps env settings s s' := by
  induction h with
  | start => exact .refl
  | turn _ hstep ih => exact ih.tail (.move _ hstep)

/-- Turns that are played are a run, less the turns of those who were passed over. -/
theorem exists_path_play (env : Environment ω) (settings : CacheSettings) (s : Crowd ι ω)
    (turns : List ι) : ∃ taken, Path env settings s taken (s.play env settings turns) := by
  have hrun : ∀ turns before (s' : Crowd ι ω), Path env settings s before s' →
      ∃ taken, Path env settings s taken (s'.play env settings turns) := by
    intro turns
    induction turns with
    | nil => exact fun before s' h => ⟨before, h⟩
    | cons i turns ih =>
      intro before s' h
      show ∃ taken, Path env settings s taken (((s'.step env settings i).getD s').play env settings turns)
      cases hstep : s'.step env settings i with
      | none => exact ih before s' h
      | some s'' => exact ih (i :: before) s'' (h.turn hstep)
  exact hrun turns [] s .start

theorem steps_play (env : Environment ω) (settings : CacheSettings) (s : Crowd ι ω) (turns : List ι) :
    Steps env settings s (s.play env settings turns) := by
  obtain ⟨taken, hpath⟩ := s.exists_path_play env settings turns
  exact hpath.steps

theorem step_eq_play (h : (s.step env settings i).isSome = true) :
    s.step env settings i = some (s.play env settings [i]) := by
  show _ = some ((s.step env settings i).getD s)
  obtain ⟨s', hs'⟩ := Option.isSome_iff_exists.1 h
  rw [hs']
  rfl

/-- Everybody is about to load one container of which there is no index anywhere. -/
structure Unseen (env : Environment ω) (settings : CacheSettings) (x : Target) (s : Crowd ι ω) :
    Prop where
  callers : ∀ i, s.callers i = .load x.location .ready
  cells : s.cells = ∅
  contents : ∀ n, s.contents n = .empty
  running : ∀ k, s.cancelled k = false
  forced : s.cache.forced.contains x.key = false
  published : s.cache.published.find? x.key = none
  stored : ∀ index, Loading.readStored env x.key s.world = .ok (some index) →
    Loading.accepts settings index.identity x.identity = false
  passes : s.cache.decodePasses = x.passes
  serial : s.cache.nextSerial = x.serial
  offered : x.Offered env settings s.world
  /-- Storing its index does not change the container. -/
  keeps : ∀ w, x.Offered env settings w →
    x.Offered env settings (env.store.put x.key (Blob.encode x.index) w).2

/-! ### The phases -/

/-- Whether the container is yet to be read, is being read, or has been read. -/
inductive Phase where
  | before
  | during
  | after

namespace Phase

def published (x : Target) : Phase → Option Loaded
  | after => some x.loaded
  | _ => none

def passes (x : Target) : Phase → Nat
  | before => x.passes
  | _ => x.passes + 1

theorem passes_le (x : Target) (p : Phase) : p.passes x ≤ x.passes + 1 := by
  cases p with
  | before => exact Nat.le_succ _
  | _ => exact Nat.le_refl _

theorem eq_of_published {p : Phase} {loaded : Loaded} (h : p.published x = some loaded) :
    p = after ∧ loaded = x.loaded := by
  cases p with
  | after => exact ⟨rfl, (Option.some.inj h).symm⟩
  | _ => nomatch h

end Phase

/-- Where a load can be in a phase. -/
inductive Fits (x : Target) : Phase → LoadStage → Prop
  | ready {p : Phase} : Fits x p .ready
  | resolved {p : Phase} : Fits x p (.resolved x.identity)
  | recalling {p : Phase} : Fits x p (.recalling x.identity)
  | seeking {p : Phase} : Fits x p (.seeking x.identity)
  | holding {p : Phase} {n : Nat} : Fits x p (.holding x.identity n)
  | begun {p : Phase} {n : Nat} (hp : p ≠ .during) : Fits x p (.filling x.identity n .begun)
  | flagged {p : Phase} {n : Nat} (hp : p ≠ .during) : Fits x p (.filling x.identity n (.flagged false))
  | missed {n : Nat} : Fits x .before (.filling x.identity n (.missed false))
  | opening {n : Nat} : Fits x .before (.filling x.identity n (.opening false))
  | reading {n : Nat} {rest : List Delivery} {index : Index} (hrest : x.Rest rest index) :
      Fits x .during (.filling x.identity n (.reading false rest none index))
  | built {n : Nat} : Fits x .during (.filling x.identity n (.built x.index))
  | kept {n : Nat} : Fits x .during (.filling x.identity n (.kept x.index))
  | ended {n : Nat} : Fits x .after (.filling x.identity n (.ended (.ok x.loaded)))
  | leaving {n : Nat} : Fits x .after (.leaving x.identity n (.ok x.loaded))
  | deciding : Fits x .after (.deciding x.identity (.ok x.loaded))
  | returned : Fits x .after (.returned x.identity (.ok x.loaded))

/-- A load that fills no cell is as far as before when the phase changes. -/
theorem Fits.of_phase {p q : Phase} {stage : LoadStage} (h : Fits x p stage) (hp : p ≠ .after)
    (hfills : ∀ current n f, stage ≠ .filling current n f) : Fits x q stage := by
  cases h with
  | ready => exact .ready
  | resolved => exact .resolved
  | recalling => exact .recalling
  | seeking => exact .seeking
  | holding => exact .holding
  | leaving => exact absurd rfl hp
  | deciding => exact absurd rfl hp
  | returned => exact absurd rfl hp
  | _ => exact absurd rfl (hfills _ _ _)

/-- What all share in a phase. -/
structure Shared (env : Environment ω) (settings : CacheSettings) (x : Target) (p : Phase)
    (s : Crowd ι ω) : Prop where
  running : ∀ k, s.cancelled k = false
  forced : s.cache.forced.contains x.key = false
  offered : x.Offered env settings s.world
  serial : p ≠ .after → s.cache.nextSerial = x.serial
  published : s.cache.published.find? x.key = p.published x
  passes : s.cache.decodePasses = p.passes x
  stored : p = .before → ∀ index, Loading.readStored env x.key s.world = .ok (some index) →
    Loading.accepts settings index.identity x.identity = false
  filled : ∀ {n r}, s.contents n = .filled r → p = .after ∧ r = .ok x.loaded

omit [DecidableEq ι] in
/-- A caller leaves a session behind. -/
theorem Shared.after {p q : Phase} {σ : Session ω} (h : Shared env settings x p s)
    (hq : p = .after → q = .after) (hrunning : σ.cancelled = false)
    (hforced : σ.cache.forced.contains x.key = false) (hoffered : x.Offered env settings σ.world)
    (hserial : q ≠ .after → σ.cache.nextSerial = x.serial)
    (hpublished : σ.cache.published.find? x.key = q.published x)
    (hpasses : σ.cache.decodePasses = q.passes x)
    (hstored : q = .before → ∀ index, Loading.readStored env x.key σ.world = .ok (some index) →
      Loading.accepts settings index.identity x.identity = false) :
    Shared env settings x q (s.after i σ) := by
  refine ⟨fun k => ?_, hforced, hoffered, hserial, hpublished, hpasses, hstored, fun hr => ?_⟩
  · show (if k = s.token i then σ.cancelled else s.cancelled k) = false
    rw [hrunning, h.running k, ite_self]
  · obtain ⟨hp, hr⟩ := h.filled hr
    exact ⟨hq hp, hr⟩

omit [DecidableEq ι] in
theorem Shared.withContents {p : Phase} (h : Shared env settings x p s) (n : Nat) {content : Cell}
    (hcontent : ∀ r, content = .filled r → p = .after ∧ r = .ok x.loaded) :
    Shared env settings x p (s.withContents n content) := by
  refine ⟨h.running, h.forced, h.offered, h.serial, h.published, h.passes, h.stored, fun {m r} hr => ?_⟩
  have hr : (if m = n then content else s.contents m) = .filled r := hr
  split at hr
  · exact hcontent r hr
  · exact h.filled hr

structure Flight (env : Environment ω) (settings : CacheSettings) (x : Target) (p : Phase)
    (s : Crowd ι ω) : Prop extends Shared env settings x p s where
  fits : ∀ i, ∃ stage, s.callers i = .load x.location stage ∧ Fits x p stage
  reader : p = .during → ∃ i n, (s.callers i).fills? = some n

namespace Flight

variable {p q : Phase} {stage stage' : LoadStage}

omit [DecidableEq ι] in
theorem fits_of (h : Flight env settings x p s) (hi : s.callers i = .load x.location stage) :
    Fits x p stage := by
  obtain ⟨stage', hi', hfits⟩ := h.fits i
  rw [hi] at hi'
  cases hi'
  exact hfits

/-- A step within a phase. -/
theorem moved (h : Flight env settings x p s) (ht : Shared env settings x p t)
    (hcallers : t.callers = s.callers) (hi : s.callers i = .load x.location stage)
    (hfits : Fits x p stage')
    (hreader : p = .during → (Caller.load x.location stage).fills? ≠ none →
      (Caller.load x.location stage').fills? ≠ none) :
    Flight env settings x p (t.moved i (.load x.location stage')) := by
  refine ⟨⟨ht.running, ht.forced, ht.offered, ht.serial, ht.published, ht.passes, ht.stored,
    ht.filled⟩, fun j => ?_, fun hp => ?_⟩
  · by_cases hj : j = i
    · exact ⟨stage', by rw [hj, moved_callers_self], hfits⟩
    · rw [moved_callers_of_ne t hj, hcallers]
      exact h.fits j
  · obtain ⟨j, n, hfills⟩ := h.reader hp
    refine ⟨j, Option.ne_none_iff_exists'.1 ?_⟩
    by_cases hj : j = i
    · rw [hj, moved_callers_self]
      rw [hj, hi] at hfills
      exact hreader hp (Option.ne_none_iff_exists'.2 ⟨n, hfills⟩)
    · rw [moved_callers_of_ne t hj, hcallers, hfills]
      exact Option.some_ne_none n

/-- A step into another phase, which only the one who fills a cell can take. -/
theorem turned {current : Identity} {n : Nat} {f f' : Filling} (h : Flight env settings x p s)
    (ho : s.Orderly) (hp : p ≠ .after) (ht : Shared env settings x q t)
    (hcallers : t.callers = s.callers) (hi : s.callers i = .load x.location (.filling current n f))
    (hfits : Fits x q (.filling current n f')) :
    Flight env settings x q (t.moved i (.load x.location (.filling current n f'))) := by
  refine ⟨⟨ht.running, ht.forced, ht.offered, ht.serial, ht.published, ht.passes, ht.stored,
    ht.filled⟩, fun j => ?_, fun _ => ⟨i, n, ?_⟩⟩
  · by_cases hj : j = i
    · exact ⟨_, by rw [hj, moved_callers_self], hfits⟩
    · rw [moved_callers_of_ne t hj, hcallers]
      obtain ⟨stage, hstage, hbefore⟩ := h.fits j
      refine ⟨stage, hstage, hbefore.of_phase hp fun current' m f'' hfilling => hj ?_⟩
      rw [hfilling] at hstage
      refine ho.filler_unique (n := m) (m := n) ?_ ?_ ?_
      all_goals simp only [hstage, hi]
      all_goals rfl
  · rw [moved_callers_self]
    rfl

theorem filling_moved {current : Identity} {n : Nat} {f f' : Filling} {σ : Session ω}
    (h : Flight env settings x p s) (hi : s.callers i = .load x.location (.filling current n f))
    (ht : Shared env settings x p (s.after i σ)) (hfits : Fits x p (.filling current n f')) :
    Flight env settings x p ((s.after i σ).moved i (.load x.location (.filling current n f'))) :=
  h.moved ht rfl hi hfits fun _ _ => Option.some_ne_none n

/-- A step of the one who fills a cell. -/
theorem advance {current : Identity} {n : Nat} {f f' : Filling} {σ : Session ω}
    (h : Flight env settings x p s) (ho : s.Orderly)
    (hkeeps : ∀ w, x.Offered env settings w →
      x.Offered env settings (env.store.put x.key (Blob.encode x.index) w).2)
    (hi : s.callers i = .load x.location (.filling current n f))
    (hadvance : f.Advance env settings x.key x.location current (s.session i) f' σ) :
    (∃ q, Flight env settings x q
      ((s.after i σ).moved i (.load x.location (.filling current n f')))) ∧
      (LoadStage.filling current n f').distance x.course.deliveries.length <
        (LoadStage.filling current n f).distance x.course.deliveries.length := by
  have hrunning : (s.session i).cancelled = false := h.running _
  have hfits := h.fits_of hi
  cases hadvance with
  | takeForce =>
    cases hfits with
    | begun hp =>
      have hnone : (s.cache.forced.erase x.key).contains x.key = false := by
        simp [NameMap.contains, NameMap.find?_erase]
      rw [show (s.session i).cache.forced.contains x.key = false from h.forced]
      refine ⟨⟨p, h.filling_moved hi ?_ (.flagged hp)⟩, by simp only [LoadStage.distance]; omega⟩
      exact h.toShared.after id hrunning hnone h.offered h.serial h.published h.passes h.stored
  | hit hfound haccepts =>
    cases hfits with
    | flagged hp =>
      obtain ⟨rfl, rfl⟩ := Phase.eq_of_published (h.published.symm.trans hfound)
      refine ⟨⟨.after, h.filling_moved hi ?_ .ended⟩, by simp only [LoadStage.distance]; omega⟩
      exact h.toShared.after id hrunning h.forced h.offered h.serial h.published h.passes h.stored
  | miss hnone =>
    cases hfits with
    | flagged hp =>
      cases p with
      | before =>
        refine ⟨⟨.before, h.filling_moved hi ?_ .missed⟩, by simp only [LoadStage.distance]; omega⟩
        rw [after_session]
        exact h.toShared
      | during => exact absurd rfl hp
      | after => nomatch (hnone rfl _ h.published).symm.trans (x.accepts_index settings)
  | find henabled hread haccepts =>
    cases hfits with
    | missed => nomatch (h.stored rfl _ hread).symm.trans haccepts
  | want hnone =>
    cases hfits with
    | missed =>
      refine ⟨⟨.before, h.filling_moved hi ?_ .opening⟩, by simp only [LoadStage.distance]; omega⟩
      exact h.toShared.after id hrunning h.forced h.offered h.serial h.published h.passes h.stored
  | openIt henumerate =>
    cases hfits with
    | opening =>
      cases h.offered.enumerate.symm.trans henumerate
      rw [h.offered.complete]
      refine ⟨⟨.during, h.turned ho nofun ?_ rfl hi (.reading h.offered.rest)⟩,
        by simp only [LoadStage.distance]; omega⟩
      exact h.toShared.after nofun hrunning h.forced h.offered (fun _ => h.serial nofun) h.published
        (congrArg (· + 1) h.passes) nofun
  | interrupted henumerate => nomatch h.offered.enumerate.symm.trans henumerate
  | take hscan hgoes =>
    cases hfits with
    | reading hrest =>
      rw [hrunning] at hscan
      obtain ⟨hrest, hcancelled, -⟩ := hrest.cons
      rw [← hscan] at hrest hcancelled
      refine ⟨⟨.during, h.filling_moved hi ?_ (.reading hrest)⟩,
        by simp only [LoadStage.distance, List.length_cons]; omega⟩
      exact h.toShared.after id hcancelled h.forced h.offered h.serial h.published h.passes h.stored
  | refuse hscan hstops =>
    cases hfits with
    | reading hrest =>
      rw [hrunning] at hscan
      rw [hscan, hrest.cons.2.2] at hstops
      nomatch hstops
  | close _ =>
    cases hfits with
    | reading hrest =>
      rw [hrest.nil]
      refine ⟨⟨.during, h.filling_moved hi ?_ .built⟩, by simp only [LoadStage.distance]; omega⟩
      exact h.toShared.after id hrunning h.forced h.offered h.serial h.published h.passes h.stored
  | closeCancelled hcancelled => nomatch hrunning.symm.trans hcancelled
  | breakOff => cases hfits
  | giveUp => cases hfits
  | keep hdisabled =>
    cases hfits with
    | built =>
      refine ⟨⟨.during, h.filling_moved hi ?_ .kept⟩, by simp only [LoadStage.distance]; omega⟩
      rw [after_session]
      exact h.toShared
  | store henabled =>
    cases hfits with
    | built =>
      refine ⟨⟨.during, h.filling_moved hi ?_ .kept⟩, by simp only [LoadStage.distance]; omega⟩
      exact h.toShared.after id hrunning h.forced (hkeeps _ h.offered) h.serial h.published h.passes nofun
  | publish =>
    cases hfits with
    | kept =>
      have hloaded : ((s.session i).cache.publish x.key x.index).1 = x.loaded :=
        congrArg (Loaded.mk x.index) (h.serial nofun)
      rw [hloaded]
      refine ⟨⟨.after, h.turned ho nofun ?_ rfl hi .ended⟩, by simp only [LoadStage.distance]; omega⟩
      refine h.toShared.after (fun _ => rfl) hrunning h.forced h.offered (absurd rfl) ?_ h.passes nofun
      exact (NameMap.find?_insert_self _ _ _).trans (congrArg some hloaded)

/-- A step of a caller: the flight goes on, and the caller has fewer steps to go. -/
theorem step (h : Flight env settings x p s) (ho : s.Orderly)
    (hkeeps : ∀ w, x.Offered env settings w →
      x.Offered env settings (env.store.put x.key (Blob.encode x.index) w).2)
    (hstep : s.step env settings i = some s') :
    (∃ q, Flight env settings x q s') ∧
      (s'.callers i).distance x.course.deliveries.length <
        (s.callers i).distance x.course.deliveries.length := by
  obtain ⟨c, t, hmove, rfl⟩ := step_moves hstep
  obtain ⟨stage, hi, hfits⟩ := h.fits i
  rw [moved_callers_self, hi]
  rw [hi] at hmove
  have hresolve : (Loading.resolve env settings x.location).run.run (s.session i) =
    (.ok x.identity, s.session i) := Target.Offered.run_resolve (s := s.session i) h.offered
  cases hmove with
  | refuse hrun => nomatch hresolve.symm.trans hrun
  | resolve hrun =>
    cases hresolve.symm.trans hrun
    refine ⟨⟨p, h.moved ?_ rfl hi .resolved fun _ hne => absurd rfl hne⟩, Nat.lt_succ_self _⟩
    rw [after_session]
    exact h.toShared
  | pass hforced => nomatch h.forced.symm.trans hforced
  | look hforced =>
    cases hfits with
    | resolved =>
      exact ⟨⟨p, h.moved h.toShared rfl hi .recalling fun _ hne => absurd rfl hne⟩, Nat.lt_succ_self _⟩
  | recollect hfound haccepts =>
    cases hfits with
    | recalling =>
      obtain ⟨rfl, rfl⟩ := Phase.eq_of_published (h.published.symm.trans hfound)
      refine ⟨⟨.after, h.moved ?_ rfl hi .returned nofun⟩, Nat.succ_pos _⟩
      exact ⟨h.running, h.forced, h.offered, h.serial, h.published, h.passes, h.stored, h.filled⟩
  | forget hnone =>
    cases hfits with
    | recalling =>
      exact ⟨⟨p, h.moved h.toShared rfl hi .seeking fun _ hne => absurd rfl hne⟩, Nat.lt_succ_self _⟩
  | join hset =>
    cases hfits with
    | seeking =>
      exact ⟨⟨p, h.moved h.toShared rfl hi .holding fun _ hne => absurd rfl hne⟩, Nat.lt_succ_self _⟩
  | setUp hunset =>
    cases hfits with
    | seeking =>
      refine ⟨⟨p, h.moved ?_ rfl hi .holding fun _ hne => absurd rfl hne⟩, Nat.lt_succ_self _⟩
      exact ⟨h.running, h.forced, h.offered, h.serial, h.published, h.passes, h.stored, h.filled⟩
  | @begin l current n hempty =>
    cases hfits with
    | holding =>
      have hp : p ≠ .during := by
        rintro rfl
        obtain ⟨j, m, hj⟩ := h.reader rfl
        refine ho.ne_empty_of_fills hj (i := i) (n := n) ?_ ?_ hempty
        · rw [hi]
          rfl
        · obtain ⟨stage, hstage, -⟩ := h.fits j
          rw [hi, hstage]
          rfl
      refine ⟨⟨p, h.moved (h.toShared.withContents n nofun) rfl hi (.begun hp)
        fun _ hne => absurd rfl hne⟩, Nat.lt_succ_self _⟩
  | collect hfilled =>
    cases hfits with
    | holding =>
      obtain ⟨rfl, rfl⟩ := h.filled hfilled
      refine ⟨⟨.after, h.moved h.toShared rfl hi .leaving nofun⟩, ?_⟩
      simp only [Caller.distance, LoadStage.distance]
      omega
  | fill hadvance => exact h.advance ho hkeeps hi hadvance
  | finish =>
    cases hfits with
    | ended =>
      refine ⟨⟨.after, h.moved (h.toShared.withContents _ fun r hr => ⟨rfl, ?_⟩) rfl hi .leaving nofun⟩,
        Nat.lt_succ_self _⟩
      exact (Cell.filled.inj hr).symm
  | leave =>
    cases hfits with
    | leaving =>
      refine ⟨⟨.after, h.moved ?_ rfl hi .deciding nofun⟩, Nat.lt_succ_self _⟩
      exact ⟨h.running, h.forced, h.offered, h.serial, h.published, h.passes, h.stored, h.filled⟩
  | retry hforeign =>
    cases hfits with
    | deciding => nomatch hforeign
  | accept hown =>
    cases hfits with
    | deciding => exact ⟨⟨.after, h.moved h.toShared rfl hi .returned nofun⟩, Nat.lt_succ_self _⟩

theorem stepLoad_filling_ne_none {l : Location} {current : Identity} {n : Nat} {f : Filling} :
    s.stepLoad env settings i l (.filling current n f) ≠ none := by
  cases f with
  | reading forced rest failure index => cases rest <;> exact Option.some_ne_none _
  | _ => exact Option.some_ne_none _

/-- Whoever waits, waits for somebody who can take a step; so when nobody can, all are done. -/
theorem ended (h : Flight env settings x p s) (ho : s.Orderly)
    (hstuck : ∀ i, s.step env settings i = none) (i : ι) :
    p = .after ∧ s.callers i = .load x.location (.returned x.identity (.ok x.loaded)) := by
  obtain ⟨stage, hi, hfits⟩ := h.fits i
  have hnone := (step_load hi).symm.trans (hstuck i)
  cases hfits with
  | holding =>
    simp only [stepLoad] at hnone
    split at hnone
    next => exact absurd hnone (Option.some_ne_none _)
    next htaken =>
      obtain ⟨j, hj⟩ := ho.filler htaken
      obtain ⟨stage, hstage, -⟩ := h.fits j
      have hstuck := (step_load hstage).symm.trans (hstuck j)
      rw [hstage] at hj
      cases stage with
      | filling current m f => exact absurd hstuck stepLoad_filling_ne_none
      | _ => exact absurd hj.symm (Option.some_ne_none _)
    next => exact absurd hnone (Option.some_ne_none _)
  | returned => exact ⟨rfl, hi⟩
  | ready => exact absurd hnone (Option.some_ne_none _)
  | resolved => exact absurd hnone (Option.some_ne_none _)
  | recalling => exact absurd hnone (Option.some_ne_none _)
  | seeking => exact absurd hnone (Option.some_ne_none _)
  | leaving => exact absurd hnone (Option.some_ne_none _)
  | deciding => exact absurd hnone (Option.some_ne_none _)
  | _ => exact absurd hnone stepLoad_filling_ne_none

end Flight

namespace Unseen

variable {turns : List ι}

omit [DecidableEq ι] in
theorem flight (h : Unseen env settings x s) : Flight env settings x .before s where
  running := h.running
  forced := h.forced
  offered := h.offered
  serial := fun _ => h.serial
  published := h.published
  passes := h.passes
  stored := fun _ => h.stored
  filled := fun hr => nomatch (h.contents _).symm.trans hr
  fits := fun i => ⟨_, h.callers i, .ready⟩
  reader := nofun

omit [DecidableEq ι] in
theorem fresh (h : Unseen env settings x s) : s.Fresh :=
  ⟨h.cells, h.contents, fun i => .inl ⟨x.location, h.callers i⟩⟩

/-- A flight goes on whoever's turn it is, and nobody has more turns than there are steps to go. -/
theorem path (h : Unseen env settings x s) (hpath : Path env settings s turns s') :
    (∃ p, Flight env settings x p s') ∧
      ∀ i, turns.count i + (s'.callers i).distance x.course.deliveries.length ≤
        x.course.deliveries.length + 15 := by
  induction hpath with
  | start =>
    refine ⟨⟨.before, h.flight⟩, fun i => ?_⟩
    rw [h.callers i]
    exact Nat.le_of_eq (Nat.zero_add _)
  | @turn turns s' s'' k hpath hstep ih =>
    obtain ⟨⟨p, hflight⟩, hcount⟩ := ih
    have ho : s'.Orderly := h.fresh.orderly.steps hpath.steps
    obtain ⟨hnext, hless⟩ := hflight.step ho h.keeps hstep
    refine ⟨hnext, fun i => ?_⟩
    have hi := hcount i
    by_cases hk : i = k
    · subst hk
      rw [List.count_cons_self]
      omega
    · rw [List.count_cons_of_ne (Ne.symm hk), (moves_of_step hstep).others hk]
      exact hi

end Unseen

end Crowd

end ClassCatalog
