import ClassCatalog.Proofs.Cache.Reading
import ClassCatalog.Proofs.Cache.Steps

/-!
# Why a load fails

A load that is not to write fails because its container cannot be read, or because someone asks to cancel:
the caller from the start, or whoever does so while a container is read. Either shows in the world in which
the module is opened, or after some of its containers have been read (`Opening.Refuses`). The store gives no
reason to fail: what it has is taken or left, and that it takes nothing up does not matter.
-/

namespace ClassCatalog

variable {ω α β : Type} {env : Environment ω} {l : Location}

/-- The opening of a module: its containers, the world, and whether it is cancelled from the start. -/
structure Opening (ω : Type) where
  containers : List Location
  world : ω
  cancelled : Bool

namespace Opening

/-- A world that comes of reading containers of the module. -/
inductive Reaches (o : Opening ω) (env : Environment ω) : ω → Prop
  | start : Reaches o env o.world
  | read {w : ω} {l : Location} (hw : Reaches o env w) (hl : l ∈ o.containers) :
      Reaches o env (env.enumerate l w).2

/-- Someone asks to cancel, now or while a container of the module is read. -/
inductive Cancels (o : Opening ω) (env : Environment ω) : Prop
  | now (h : o.cancelled = true)
  | reading {w : ω} {l : Location} {course : Enumeration} (hw : o.Reaches env w) (hl : l ∈ o.containers)
      (h : (env.enumerate l w).1 = .delivered course) (hcancels : course.cancels = true)
  | interruption {w : ω} {l : Location} (hw : o.Reaches env w) (hl : l ∈ o.containers)
      (h : (env.enumerate l w).1 = .interrupted)

/-- A failure of which a container is the reason, or someone who asks to cancel. -/
inductive Refuses (o : Opening ω) (env : Environment ω) (l : Location) : ScanError → Prop
  | stat {w : ω} {reason : String} (hw : o.Reaches env w) (h : env.stat l w = .error reason) :
      Refuses o env l (.containerUnreadable l.logicalPath reason)
  | digest {w : ω} {reason : String} (hw : o.Reaches env w)
      (h : env.ownDigest l w = some (.error reason)) :
      Refuses o env l (.containerUnreadable l.logicalPath reason)
  | enumeration {w : ω} {course : Enumeration} {reason : String} (hw : o.Reaches env w)
      (h : (env.enumerate l w).1 = .delivered course) (hfailure : course.failure = some reason) :
      Refuses o env l (.containerUnreadable l.logicalPath reason)
  | cancelled (h : o.Cancels env) : Refuses o env l (.cancelled l.logicalPath)

/-- The session may be one of the opening's. -/
structure Covers (o : Opening ω) (env : Environment ω) (s : Session ω) : Prop where
  reached : o.Reaches env s.world
  asked (h : s.cancelled = true) : o.Cancels env

end Opening

namespace Loading

variable {settings : CacheSettings} {current : Identity} {key : String} {o : Opening ω} {R : α → Prop}
  {S : β → Prop}

/-- Wherever it starts in an opening, a computation comes to such a result, or to a failure with a reason. -/
abbrev Comes (env : Environment ω) (o : Opening ω) (l : Location) (R : α → Prop) (p : Loading ω α) : Prop :=
  Settles (o.Covers env) (o.Refuses env l) R p

/-- A store that is not used for writing, or is none the other for it. -/
def Quiet (env : Environment ω) (settings : CacheSettings) : Prop :=
  settings.disabled = true ∨ ∀ key bytes w, (env.store.put key bytes w).2 = w

theorem comes_onCache (f : Cache → Cache) : Comes env o l (fun _ => True) (onCache f) :=
  fun _ hs => ⟨trivial, hs.reached, hs.asked⟩

/-- The store may refuse an index. -/
theorem comes_persist (hput : ∀ key bytes w, (env.store.put key bytes w).2 = w) (key : String) (index : Index) :
    Comes env o l (fun _ => True) (persist env key index) := by
  refine fun s hs => wp_mono (wp_persist key index) ?_
  rintro r s' ⟨rfl, -, hworld, hcancelled⟩
  rw [hput] at hworld
  exact ⟨trivial, hworld ▸ hs.reached, fun h => hs.asked (hcancelled ▸ h)⟩

/-- And it may have nothing, or nothing that can be read. -/
theorem comes_fromStore (key : String) (forced : Bool) (current : Identity) :
    Comes env o l (fun stored => ∀ index, stored = .ok index → True)
      (fromStore env settings key forced current) := by
  refine fun s hs => wp_mono (wp_fromStore key forced current) ?_
  rintro r s' ⟨⟨stored, rfl, -⟩, -, hworld, hcancelled⟩
  exact ⟨fun _ _ => trivial, hworld ▸ hs.reached, fun h => hs.asked (hcancelled ▸ h)⟩

section

variable (hl : l ∈ o.containers)
include hl

theorem comes_enumerate : Comes env o l
    (fun course => ∃ w, o.Reaches env w ∧ (env.enumerate l w).1 = .delivered course) (enumerate env l) := by
  refine .get_bind fun s hs => ?_
  have hreached : o.Reaches env (env.enumerate l s.world).2 := .read hs.reached hl
  cases henumerate : env.enumerate l s.world with
  | mk listing w =>
    have hlisting : (env.enumerate l s.world).1 = listing := congrArg Prod.fst henumerate
    rw [henumerate] at hreached
    refine .bind (.set ⟨hreached, hs.asked⟩) fun _ _ => ?_
    cases listing with
    | delivered course => exact .pure ⟨s.world, hs.reached, hlisting⟩
    | interrupted => exact .throw (.cancelled (.interruption hs.reached hl hlisting))

theorem comes_entriesDigest : Comes env o l (fun _ => True) (entriesDigest env l) := by
  refine .bind (comes_enumerate hl) fun course ⟨w, hw, hcourse⟩ => ?_
  refine .bind (R := fun _ => True) (fun s hs => ⟨trivial, hs.reached, fun h => ?_⟩) fun _ _ => ?_
  · rcases Bool.or_eq_true_iff.mp h with hbefore | hcancels
    · exact hs.asked hbefore
    · exact .reading hw hl hcourse hcancels
  · cases hfailure : course.failure with
    | none => exact .pure trivial
    | some reason => exact .throw (.enumeration hw hcourse hfailure)

/-- An identity is learned of the path of the container. -/
theorem comes_resolve :
    Comes env o l (fun current => current.path = l.logicalPath) (resolve env settings l) := by
  have hdigest : Comes env o l (fun _ => True) (digest env l) := by
    refine .get_bind fun s hs => ?_
    cases hown : env.ownDigest l s.world with
    | none => exact comes_entriesDigest hl
    | some own =>
      cases own with
      | ok d => exact .pure trivial
      | error reason => exact .throw (.digest hs.reached hown)
  refine .get_bind fun s hs => ?_
  cases hstat : env.stat l s.world with
  | error reason => exact .throw (.stat hs.reached hstat)
  | ok stat =>
    dsimp only
    cases settings.identityPolicy with
    | timestampSize => exact .pure rfl
    | contentDigest => exact .bind hdigest fun _ _ => .pure rfl

theorem comes_rebuild (hpath : current.path = l.logicalPath) :
    Comes env o l (fun _ => True) (rebuild env l current) := by
  refine .bind (comes_onCache _) fun _ _ => .bind (comes_enumerate hl) fun course ⟨w, hw, hcourse⟩ => ?_
  refine .get_bind fun s hs => ?_
  dsimp only
  generalize hscan : Scan.run course.deliveries _ = scan
  have hasked : scan.cancelled = true → o.Cancels env := by
    intro hcancelled
    cases hcancels : course.cancels with
    | true => exact .reading hw hl hcourse hcancels
    | false =>
      refine hs.asked (Bool.of_not_eq_false fun hrunning => ?_)
      have hundisturbed := (Scan.run_of_undisturbed hcancels
        (s := { index := { identity := current }, cancelled := s.cancelled }) hrunning).2.1
      rw [hscan, hcancelled] at hundisturbed
      exact Bool.noConfusion hundisturbed
  have hthrow : scan.cancelled = true →
      Comes env o l (fun _ => True) (throw (.cancelled current.path) : Loading ω Index) :=
    fun h => .throw (hpath ▸ .cancelled (hasked h))
  refine .bind (.set ⟨hs.reached, hasked⟩) fun _ _ => ?_
  cases hstopped : scan.stopped with
  | true => exact hthrow (hscan ▸ Scan.cancelled_of_stopped (hscan ▸ hstopped) rfl)
  | false =>
    cases hfailure : course.failure with
    | some reason => exact .throw (.enumeration hw hcourse hfailure)
    | none =>
      cases hcancelled : scan.cancelled with
      | true => exact hthrow hcancelled
      | false =>
        cases scan.index.incomplete with
        | true => exact .bind (comes_onCache _) fun _ _ => .pure trivial
        | false => exact .pure trivial

/-- A load that is not to write fails only if its container refuses. -/
theorem comes_load (hquiet : Quiet env settings) : Comes env o l (fun _ => True) (load env settings l) :=
  Steps.load {
    resolve := comes_resolve hl
    report := fun _ => comes_onCache _
    force := comes_onCache _
    unforce := comes_onCache _
    remembered := fun _ _ _ hs => ⟨fun _ _ => trivial, hs⟩
    fromStore := fun _ forced => comes_fromStore _ forced _
    rebuild := fun hpath => comes_rebuild hl hpath
    persist := fun hdisabled _ =>
      comes_persist (hquiet.resolve_left (hdisabled ▸ Bool.false_ne_true)) _ _
    made := id
    publish := fun _ _ hs => ⟨trivial, hs.reached, hs.asked⟩ }

end

end Loading

end ClassCatalog
