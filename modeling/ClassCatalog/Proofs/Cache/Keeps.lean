import ClassCatalog.Proofs.Cache.Loading

/-!
# What a load leaves alone

`Keeps R p`: from whatever session it starts, `p` ends in one that is related to it by `R`. For a
reflexive and transitive relation this carries over from the parts of a load to the whole. Learning an
identity and reading a container do nothing but work (`ToleratesWork`), and a load changes things under
the key of its own container only (`ToleratesOthers`).
-/

namespace ClassCatalog

/-- Neither of the answers that a load gives. -/
def Event.IsQuiet (e : Event) : Prop := e.isHit = false ∧ e.isMiss = false

theorem Event.isQuiet_of_isClassFailure {e : Event} (h : e.isClassFailure = true) : e.IsQuiet := by
  cases e with
  | classFailed path entry reason => exact ⟨rfl, rfl⟩
  | _ => exact absurd h Bool.false_ne_true

theorem Index.take_isClassFailure (index : Index) (e : ClassEntry) :
    ∀ event ∈ (index.take e).2, event.isClassFailure = true := by
  unfold take
  split
  · nofun
  · split
    · exact List.forall_mem_singleton.2 rfl
    · exact List.forall_mem_singleton.2 rfl

theorem Scan.run_isClassFailure {ds : List Delivery} {s : Scan} (h : ∀ event ∈ s.events, event.isClassFailure = true) :
    ∀ event ∈ (run ds s).events, event.isClassFailure = true := by
  induction ds generalizing s with
  | nil => exact h
  | cons d ds ih =>
    cases d with
    | cancel => exact ih h
    | entry e =>
      unfold run
      split
      · exact h
      · refine ih fun event hevent => ?_
        obtain hbefore | htaken := List.mem_append.1 hevent
        · exact h event hbefore
        · exact s.index.take_isClassFailure e event htaken

namespace Loading

variable {ω α β : Type} {env : Environment ω} {settings : CacheSettings} {l : Location}
  {R : Session ω → Session ω → Prop}

def Keeps (R : Session ω → Session ω → Prop) (p : Loading ω α) : Prop :=
  ∀ s, wp p (fun _ s' => R s s') s

/-- Sessions are related to themselves and to what enumerating a container makes of them. -/
structure Tolerates (env : Environment ω) (R : Session ω → Session ω → Prop) : Prop where
  refl (s : Session ω) : R s s
  trans {a b c : Session ω} : R a b → R b c → R a c
  enumerate (l : Location) (s : Session ω) : R s { s with world := (env.enumerate l s.world).2 }
  cancel (s : Session ω) (cancelled : Bool) : R s { s with cancelled }

/-- And to what reading it makes of them. -/
structure ToleratesWork (env : Environment ω) (R : Session ω → Session ω → Prop) : Prop
    extends Tolerates env R where
  work (s : Session ω) (calls passes : Nat) (events : List Event) (h : ∀ e ∈ events, e.IsQuiet) :
    R s { s with cache := { s.cache with
      decodeCalls := calls, decodePasses := passes, events := s.cache.events ++ events } }

namespace Tolerates

theorem pure (hR : Tolerates env R) (a : α) : Keeps R (pure a : Loading ω α) := hR.refl

theorem throw (hR : Tolerates env R) (e : ScanError) : Keeps R (throw e : Loading ω α) := hR.refl

theorem bind (hR : Tolerates env R) {p : Loading ω α} {f : α → Loading ω β} (hp : Keeps R p)
    (hf : ∀ a, Keeps R (f a)) : Keeps R (p >>= f) := by
  refine fun s => (wp_bind ..).2 (wp_mono (hp s) fun r s' hs => ?_)
  cases r with
  | error e => exact hs
  | ok a => exact wp_mono (hf a s') fun _ _ hs' => hR.trans hs hs'

theorem tryCatch (hR : Tolerates env R) {p : Loading ω α} {handler : ScanError → Loading ω α}
    (hp : Keeps R p) (hhandler : ∀ e, Keeps R (handler e)) : Keeps R (tryCatch p handler) := by
  refine fun s => (wp_tryCatch ..).2 (wp_mono (hp s) fun r s' hs => ?_)
  cases r with
  | ok a => exact hs
  | error e => exact wp_mono (hhandler e s') fun _ _ hs' => hR.trans hs hs'

/-- A look at the session. -/
theorem get_bind {f : Session ω → Loading ω α} (hf : ∀ s, wp (f s) (fun _ s' => R s s') s) :
    Keeps R (get >>= f) := by
  intro s
  rw [wp_bind, wp_get, andThen_ok]
  exact hf s

theorem keeps_enumerate (hR : Tolerates env R) (l : Location) : Keeps R (Loading.enumerate env l) := by
  unfold Loading.enumerate
  refine get_bind fun s => ?_
  have hR := hR.enumerate l s
  obtain ⟨⟨listing, w⟩, henumerate⟩ : ∃ r, env.enumerate l s.world = r := ⟨_, rfl⟩
  rw [henumerate] at hR
  simp only [henumerate, wp_bind, wp_set, andThen_ok]
  cases listing <;> exact hR

theorem keeps_resolve (hR : Tolerates env R) (l : Location) : Keeps R (resolve env settings l) := by
  have hdigest : Keeps R (digest env l) := by
    refine get_bind fun s => ?_
    cases env.ownDigest l s.world with
    | some d => cases d <;> exact hR.refl s
    | none =>
      refine hR.bind (hR.keeps_enumerate l) (fun course => ?_) s
      refine hR.bind (fun s => hR.cancel s _) fun _ => ?_
      cases course.failure <;> exact hR.refl
  refine get_bind fun s => ?_
  cases env.stat l s.world with
  | error reason => exact hR.refl s
  | ok stat =>
    dsimp only
    cases settings.identityPolicy with
    | timestampSize => exact hR.refl s
    | contentDigest => exact hR.bind hdigest (fun d => hR.pure _) s

end Tolerates

namespace ToleratesWork

theorem keeps_report (hR : ToleratesWork env R) {e : Event} (he : e.IsQuiet) : Keeps R (report e) :=
  fun s => hR.work s s.cache.decodeCalls s.cache.decodePasses [e] (by simpa using he)

theorem keeps_fromStore (hR : ToleratesWork env R) (key : String) (forced : Bool) (current : Identity) :
    Keeps R (fromStore env settings key forced current) := by
  unfold fromStore
  split
  · exact hR.pure _
  · split
    · exact hR.pure _
    · refine Tolerates.get_bind fun s => ?_
      split
      · exact hR.refl s
      · exact hR.refl s
      · exact hR.bind (hR.keeps_report ⟨rfl, rfl⟩) (fun _ => hR.pure _) s

theorem keeps_rebuild (hR : ToleratesWork env R) (l : Location) (current : Identity) :
    Keeps R (rebuild env l current) := by
  unfold rebuild
  refine hR.bind (fun s => ?_) fun _ => hR.bind (hR.keeps_enumerate l) fun course => ?_
  · have hwork := hR.work s s.cache.decodeCalls (s.cache.decodePasses + 1) [] nofun
    rw [List.append_nil] at hwork
    exact hwork
  · refine Tolerates.get_bind fun s => ?_
    have hquiet : ∀ e ∈ (Scan.run course.deliveries
        { index := { identity := current }, cancelled := s.cancelled }).events, e.IsQuiet :=
      fun e he => Event.isQuiet_of_isClassFailure (Scan.run_isClassFailure (List.forall_mem_nil _) e he)
    generalize Scan.run course.deliveries _ = scan at hquiet
    dsimp only
    rw [wp_bind, wp_set, andThen_ok]
    have hscan := hR.trans (hR.cancel s scan.cancelled) (hR.work _ (s.cache.decodeCalls + scan.decoded)
      s.cache.decodePasses scan.events hquiet)
    refine wp_mono (?_ : wp _ (fun _ s' => R _ s') _) fun _ _ hs' => hR.trans hscan hs'
    cases scan.stopped with
    | true => exact hR.refl _
    | false =>
      cases course.failure with
      | some reason => exact hR.refl _
      | none =>
        cases scan.cancelled with
        | true => exact hR.refl _
        | false =>
          cases scan.index.incomplete with
          | true => exact hR.bind (hR.keeps_report ⟨rfl, rfl⟩) (fun _ => hR.pure _) _
          | false => exact hR.refl _

end ToleratesWork

/-- And to what loads of containers with other keys than `key` make of them. -/
structure ToleratesOthers (env : Environment ω) (key : String) (R : Session ω → Session ω → Prop) : Prop
    extends ToleratesWork env R where
  report (s : Session ω) (e : Event) : R s { s with cache := s.cache.report e }
  publish {other : String} (s : Session ω) (index : Index) (hne : key ≠ other) :
    R s { s with cache := (s.cache.publish other index).2 }
  force {other : String} (s : Session ω) (hne : key ≠ other) :
    R s { s with cache := s.cache.force other }
  unforce {other : String} (s : Session ω) (hne : key ≠ other) :
    R s { s with cache := s.cache.unforce other }
  put {other : String} (s : Session ω) (bytes : Bytes) (hne : key ≠ other) :
    R s { s with world := (env.store.put other bytes s.world).2 }

/-- What `persist` does to a session, whatever the store says. -/
theorem wp_persist_quiet {s : Session ω} (key : String) (index : Index) :
    wp (persist env key index) (fun r s' => r = .ok () ∧ ∃ events, (∀ e ∈ events, e.IsQuiet) ∧
      s' = { s with
        cache := { s.cache with events := s.cache.events ++ events }
        world := (env.store.put key (Blob.encode index) s.world).2 }) s := by
  unfold persist
  simp only [wp_bind, wp_get, andThen_ok, wp_set]
  split
  · exact ⟨rfl, [_], by simp [Event.IsQuiet, Event.isHit, Event.isMiss], rfl⟩
  · refine ⟨rfl, [], List.forall_mem_nil _, ?_⟩
    rw [List.append_nil]
    rfl
  · exact ⟨rfl, [_], by simp [Event.IsQuiet, Event.isHit, Event.isMiss], rfl⟩

namespace ToleratesOthers

variable {key other : String} {current : Identity}

theorem keeps_persist (hR : ToleratesOthers env key R) (hne : key ≠ other) (index : Index) :
    Keeps R (persist env other index) := by
  refine fun s => wp_mono (wp_persist_quiet other index) ?_
  rintro r s' ⟨-, events, hquiet, rfl⟩
  exact hR.trans (hR.put s _ hne) (hR.work _ s.cache.decodeCalls s.cache.decodePasses events hquiet)

theorem keeps_renew (hR : ToleratesOthers env key R) (hne : key ≠ other) (forced : Bool) :
    Keeps R (renew env settings other l current forced) := by
  have hpublish : ∀ index, Keeps R (Loading.publish other index) := fun index s => hR.publish s index hne
  unfold renew
  refine hR.bind (hR.tryCatch (hR.keeps_rebuild l current) fun e => ?_) fun index => ?_
  · cases forced with
    | true => exact hR.bind (fun s => hR.force s hne) fun _ => hR.throw e
    | false => exact hR.throw e
  · cases settings.disabled with
    | true => exact hpublish index
    | false => exact hR.bind (hR.keeps_persist hne index) fun _ => hpublish index

theorem keeps_fetch (hR : ToleratesOthers env key R) (hne : key ≠ other) (forced : Bool) :
    Keeps R (fetch env settings other l current forced) := by
  have hreport : ∀ e, Keeps R (Loading.report e) := fun e s => hR.report s e
  unfold fetch
  refine hR.bind (hR.keeps_fromStore other forced current) fun stored => ?_
  cases stored with
  | ok index => exact hR.bind (hreport _) fun _ s => hR.publish s index hne
  | error reason => exact hR.bind (hreport _) fun _ => hR.keeps_renew hne forced

theorem keeps_attempt (hR : ToleratesOthers env key R) (hne : key ≠ other) :
    Keeps R (attempt env settings other l current) := by
  have hunforce : Keeps R (onCache fun c => c.unforce other) := fun s => hR.unforce s hne
  have hremembered : ∀ forced, Keeps R (remembered settings other forced current) := fun _ s => hR.refl s
  unfold attempt
  refine Tolerates.get_bind fun s => hR.bind hunforce
    (fun _ => hR.bind (hremembered _) fun hit => ?_) s
  cases hit with
  | some loaded => exact hR.bind (fun s => hR.report s _) fun _ => hR.pure loaded
  | none => exact hR.keeps_fetch hne _

theorem keeps_attempts (hR : ToleratesOthers env key R) (hne : key ≠ other) (n : Nat) :
    Keeps R (attempts env settings other l current n) := by
  induction n with
  | zero => exact hR.keeps_attempt hne
  | succ n ih =>
    refine hR.tryCatch (hR.keeps_attempt hne) fun e => hR.bind (fun s => hR.refl s) fun mine => ?_
    split
    · exact ih
    · exact hR.throw e

/-- A load of another container. -/
theorem keeps_load (hR : ToleratesOthers env key R) (hne : key ≠ l.cacheKey) :
    Keeps R (load env settings l) := by
  have hremembered : ∀ forced current, Keeps R (remembered settings l.cacheKey forced current) :=
    fun _ _ s => hR.refl s
  unfold load
  refine hR.bind (hR.keeps_resolve l) fun current => Tolerates.get_bind fun s =>
    hR.bind (hremembered _ _) (fun hit => ?_) s
  cases hit with
  | some loaded => exact hR.bind (fun s => hR.report s _) fun _ => hR.pure loaded
  | none => exact Tolerates.get_bind fun s' => hR.keeps_attempts hne (env.pending s'.world) s'

end ToleratesOthers

end Loading

end ClassCatalog
