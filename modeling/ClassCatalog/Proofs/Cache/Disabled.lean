import ClassCatalog.Proofs.Wp
import ClassCatalog.Cache.Load

/-!
# Loads that leave the store alone

`Environment.Twins`: two environments with the same containers, in worlds that may differ in what they
store, and with any two stores. If the store is neither to be read nor to be written, a load goes on in the
one as in the other (`lockstep_load`), step for step.
-/

namespace ClassCatalog

variable {ω α β : Type} {same : ω → ω → Prop} {env env' : Environment ω}

/-- The containers of two environments cannot be told apart in worlds that are the same for them. -/
structure Environment.Twins (env env' : Environment ω) (same : ω → ω → Prop) : Prop where
  stat {w w' : ω} (h : same w w') (l : Location) : env'.stat l w' = env.stat l w
  ownDigest {w w' : ω} (h : same w w') (l : Location) : env'.ownDigest l w' = env.ownDigest l w
  pending {w w' : ω} (h : same w w') : env'.pending w' = env.pending w
  enumerate {w w' : ω} (h : same w w') (l : Location) :
    (env'.enumerate l w').1 = (env.enumerate l w).1
  enumerated {w w' : ω} (h : same w w') (l : Location) :
    same (env.enumerate l w).2 (env'.enumerate l w').2

/-- Which store it is makes no difference to the containers. -/
theorem Environment.Twins.with_store (h : env.Twins env same) (store : Store ω) :
    env.Twins { env with store } same :=
  ⟨h.stat, h.ownDigest, h.pending, h.enumerate, h.enumerated⟩

theorem Environment.twins_eq (env : Environment ω) : env.Twins env Eq := by
  constructor
  all_goals
    rintro w _ rfl
    intros
    rfl

/-- Sessions that are the same but for their worlds, and these are the same for the containers. -/
structure Session.Twins (same : ω → ω → Prop) (s s' : Session ω) : Prop where
  cache : s'.cache = s.cache
  world : same s.world s'.world
  cancelled : s'.cancelled = s.cancelled

namespace Loading

variable {settings : CacheSettings} {l : Location} {current : Identity} {key : String}

/-- From sessions that are the same, two computations come to one result and to such sessions. -/
def Lockstep (same : ω → ω → Prop) (p p' : Loading ω α) : Prop :=
  ∀ s s', s.Twins same s' →
    (p'.run.run s').1 = (p.run.run s).1 ∧ (p.run.run s).2.Twins same (p'.run.run s').2

namespace Lockstep

theorem pure (a : α) : Lockstep same (pure a : Loading ω α) (pure a) := fun _ _ h => ⟨rfl, h⟩

theorem throw (e : ScanError) : Lockstep same (throw e : Loading ω α) (throw e) := fun _ _ h => ⟨rfl, h⟩

theorem set {s s' : Session ω} (h : s.Twins same s') :
    Lockstep same (set s : Loading ω PUnit) (set s') := fun _ _ _ => ⟨rfl, h⟩

theorem bind {p p' : Loading ω α} {f f' : α → Loading ω β} (hp : Lockstep same p p')
    (hf : ∀ a, Lockstep same (f a) (f' a)) : Lockstep same (p >>= f) (p' >>= f') := by
  intro s s' h
  obtain ⟨hresult, hsession⟩ := hp s s' h
  rw [run_bind, run_bind]
  generalize p.run.run s = ran at *
  generalize p'.run.run s' = ran' at *
  obtain ⟨r, t⟩ := ran
  obtain ⟨r', t'⟩ := ran'
  dsimp only at hresult hsession
  subst hresult
  cases r' with
  | ok a => exact hf a t t' hsession
  | error e => exact ⟨rfl, hsession⟩

/-- A look at the session. -/
theorem get_bind {f f' : Session ω → Loading ω α}
    (hf : ∀ s s', s.Twins same s' → Lockstep same (f s) (f' s')) :
    Lockstep same (get >>= f) (get >>= f') := by
  intro s s' h
  rw [run_bind, run_bind]
  exact hf s s' h s s' h

theorem tryCatch {p p' : Loading ω α} {handler handler' : ScanError → Loading ω α}
    (hp : Lockstep same p p') (hhandler : ∀ e, Lockstep same (handler e) (handler' e)) :
    Lockstep same (tryCatch p handler) (tryCatch p' handler') := by
  intro s s' h
  obtain ⟨hresult, hsession⟩ := hp s s' h
  rw [run_tryCatch, run_tryCatch]
  generalize p.run.run s = ran at *
  generalize p'.run.run s' = ran' at *
  obtain ⟨r, t⟩ := ran
  obtain ⟨r', t'⟩ := ran'
  dsimp only at hresult hsession
  subst hresult
  cases r' with
  | ok a => exact ⟨rfl, hsession⟩
  | error e => exact hhandler e t t' hsession

theorem onCache (f : Cache → Cache) : Lockstep same (onCache f : Loading ω Unit) (onCache f) :=
  fun _ _ h => ⟨rfl, congrArg f h.cache, h.world, h.cancelled⟩

theorem report (e : Event) : Lockstep same (report e : Loading ω Unit) (report e) := .onCache _

theorem isCancelled : Lockstep same (isCancelled : Loading ω Bool) isCancelled :=
  fun _ _ h => ⟨congrArg Except.ok h.cancelled, h⟩

theorem publish (key : String) (index : Index) :
    Lockstep same (publish key index : Loading ω Loaded) (publish key index) := by
  refine .get_bind fun s s' h => ?_
  rw [h.cache]
  exact .bind (.set ⟨rfl, h.world, h.cancelled⟩) fun _ => .pure _

theorem remembered (key : String) (forced : Bool) (current : Identity) :
    Lockstep same (remembered settings key forced current : Loading ω (Option Loaded))
      (remembered settings key forced current) := by
  refine .get_bind fun s s' h => ?_
  rw [h.cache]
  exact .pure _

end Lockstep

section

variable (htwins : env.Twins env' same)
include htwins

theorem lockstep_enumerate (l : Location) : Lockstep same (enumerate env l) (enumerate env' l) := by
  refine .get_bind fun s s' h => ?_
  have hlisting := htwins.enumerate h.world l
  have hworld := htwins.enumerated h.world l
  generalize env.enumerate l s.world = listed at *
  generalize env'.enumerate l s'.world = listed' at *
  obtain ⟨listing, w⟩ := listed
  obtain ⟨listing', w'⟩ := listed'
  dsimp only at hlisting hworld
  subst hlisting
  refine .bind (.set ⟨h.cache, hworld, h.cancelled⟩) fun _ => ?_
  cases listing' with
  | delivered course => exact .pure _
  | interrupted => exact .throw _

theorem lockstep_entriesDigest (l : Location) :
    Lockstep same (entriesDigest env l) (entriesDigest env' l) := by
  refine .bind (lockstep_enumerate htwins l) fun course => .bind (fun s s' h => ?_) fun _ => ?_
  · exact ⟨rfl, h.cache, h.world, congrArg (· || course.cancels) h.cancelled⟩
  · cases course.failure with
    | none => exact .pure _
    | some reason => exact .throw _

theorem lockstep_digest (l : Location) : Lockstep same (digest env l) (digest env' l) := by
  refine .get_bind fun s s' h => ?_
  rw [htwins.ownDigest h.world]
  cases env.ownDigest l s.world with
  | none => exact lockstep_entriesDigest htwins l
  | some own =>
    cases own with
    | ok d => exact .pure _
    | error reason => exact .throw _

theorem lockstep_resolve (l : Location) :
    Lockstep same (resolve env settings l) (resolve env' settings l) := by
  refine .get_bind fun s s' h => ?_
  rw [htwins.stat h.world]
  cases env.stat l s.world with
  | error reason => exact .throw _
  | ok stat =>
    dsimp only
    cases settings.identityPolicy with
    | timestampSize => exact .pure _
    | contentDigest => exact .bind (lockstep_digest htwins l) fun _ => .pure _

theorem lockstep_rebuild (l : Location) (current : Identity) :
    Lockstep same (rebuild env l current) (rebuild env' l current) := by
  refine .bind (.onCache _) fun _ => .bind (lockstep_enumerate htwins l) fun course => ?_
  refine .get_bind fun s s' h => ?_
  dsimp only
  rw [h.cancelled, h.cache]
  generalize Scan.run course.deliveries _ = scan
  refine .bind (.set ⟨rfl, h.world, rfl⟩) fun _ => ?_
  cases scan.stopped with
  | true => exact .throw _
  | false =>
    cases course.failure with
    | some reason => exact .throw _
    | none =>
      cases scan.cancelled with
      | true => exact .throw _
      | false =>
        cases scan.index.incomplete with
        | true => exact .bind (.report _) fun _ => .pure _
        | false => exact .pure _

variable (hdisabled : settings.disabled = true)
include hdisabled

theorem lockstep_renew (forced : Bool) : Lockstep same (renew env settings key l current forced)
    (renew env' settings key l current forced) := by
  unfold renew
  rw [hdisabled]
  refine .bind (.tryCatch (lockstep_rebuild htwins l current) fun e => ?_) fun index => .publish key index
  cases forced with
  | true => exact .bind (.onCache _) fun _ => .throw e
  | false => exact .throw e

omit htwins in
theorem fromStore_of_disabled (env : Environment ω) (forced : Bool) :
    fromStore env settings key forced current = pure (.error .disabled) := by
  unfold fromStore
  rw [if_pos hdisabled]

theorem lockstep_fetch (forced : Bool) : Lockstep same (fetch env settings key l current forced)
    (fetch env' settings key l current forced) := by
  unfold fetch
  rw [fromStore_of_disabled hdisabled env, fromStore_of_disabled hdisabled env']
  refine .bind (.pure _) fun stored => ?_
  cases stored with
  | ok index => exact .bind (.report _) fun _ => .publish key index
  | error reason => exact .bind (.report _) fun _ => lockstep_renew htwins hdisabled forced

theorem lockstep_attempt : Lockstep same (attempt env settings key l current)
    (attempt env' settings key l current) := by
  unfold attempt
  refine .get_bind fun s s' h => ?_
  rw [h.cache]
  refine .bind (.onCache _) fun _ => .bind (.remembered key _ current) fun hit => ?_
  cases hit with
  | some loaded => exact .bind (.report _) fun _ => .pure loaded
  | none => exact lockstep_fetch htwins hdisabled _

theorem lockstep_attempts (n : Nat) : Lockstep same (attempts env settings key l current n)
    (attempts env' settings key l current n) := by
  induction n with
  | zero => exact lockstep_attempt htwins hdisabled
  | succ n ih =>
    refine .tryCatch (lockstep_attempt htwins hdisabled) fun e => .bind .isCancelled fun mine => ?_
    split
    · exact ih
    · exact .throw e

/-- A load with the store turned off. -/
theorem lockstep_load (l : Location) :
    Lockstep same (load env settings l) (load env' settings l) := by
  unfold load
  refine .bind (lockstep_resolve htwins l) fun current => .get_bind fun s s' h => ?_
  rw [h.cache]
  refine .bind (.remembered _ _ current) fun hit => ?_
  cases hit with
  | some loaded => exact .bind (.report _) fun _ => .pure loaded
  | none =>
    refine .get_bind fun t t' h' => ?_
    rw [htwins.pending h'.world]
    exact lockstep_attempts htwins hdisabled _

end

end Loading

end ClassCatalog
