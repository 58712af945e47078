import ClassCatalog.Cache.Load
import ClassCatalog.Proofs.Wp

/-!
# What the steps of a load do

A rule for every step a load is made of. A load that nobody disturbs reads its container without
requests to cancel (`Course.Undisturbed`); then the identity of the container depends on the world
alone and leaves the session as it is (`run_resolve`), and reading the container comes to
`Scan.outcome`. `Cache.SameIndexes` is what the steps in between keep: only counts and events change.
-/

namespace ClassCatalog

/-- The indexes in memory and the containers to be made anew are the same. -/
structure Cache.SameIndexes (a b : Cache) : Prop where
  published : b.published = a.published
  forced : b.forced = a.forced

namespace Cache.SameIndexes
variable {a b c : Cache}

theorem refl (a : Cache) : SameIndexes a a := ⟨rfl, rfl⟩

theorem trans (h : SameIndexes a b) (h' : SameIndexes b c) : SameIndexes a c :=
  ⟨h'.published.trans h.published, h'.forced.trans h.forced⟩

theorem report (a : Cache) (e : Event) : SameIndexes a (a.report e) := ⟨rfl, rfl⟩

end Cache.SameIndexes

namespace Cache

variable {ω : Type} (store : Store ω) (settings : CacheSettings) (c : Cache) (l : Location) (w : ω)

theorem invalidate_cache : (c.invalidate store settings l w).2.1 =
    ((c.force l.cacheKey).evict l).2.report (.invalidated l.logicalPath) := by
  unfold invalidate
  dsimp only
  split
  · rfl
  · split <;> rfl

theorem invalidate_world : (c.invalidate store settings l w).2.2 =
    if settings.disabled then w else (store.delete l.cacheKey w).2 := by
  unfold invalidate
  dsimp only
  split
  · rfl
  · split
    next h => rw [h]
    next h => rw [h]
    next h => rw [h]

variable {c} {key k : String}

/-- A container that was noted to be made anew is. -/
theorem contains_force_self : (c.force key).forced.contains key = true :=
  congrArg Option.isSome (NameMap.find?_insert_self ..)

theorem contains_force_of_ne (hne : k ≠ key) :
    (c.force key).forced.contains k = c.forced.contains k :=
  congrArg Option.isSome (NameMap.find?_insert_of_ne _ hne _)

theorem contains_force (h : c.forced.contains k = true) (key : String) :
    (c.force key).forced.contains k = true := by
  by_cases hk : k = key
  · exact hk ▸ contains_force_self
  · exact (contains_force_of_ne hk).trans h

theorem contains_unforce_of_ne (hne : k ≠ key) :
    (c.unforce key).forced.contains k = c.forced.contains k :=
  congrArg Option.isSome ((NameMap.find?_erase ..).trans (if_neg hne))

end Cache

namespace Index

theorem insert_identity (index : Index) (entry : String) (record : ClassRecord) :
    (index.insert entry record).identity = index.identity := by
  unfold insert
  split <;> rfl

theorem take_identity (index : Index) (e : ClassEntry) : (index.take e).1.identity = index.identity := by
  unfold take
  split
  · exact insert_identity ..
  · split
    · exact insert_identity ..
    · rfl

theorem ofEntries_identity (current : Identity) (entries : List ClassEntry) :
    (ofEntries current entries).identity = current := by
  have hfold : ∀ index : Index,
      (entries.foldl (fun index e => (index.take e).1) index).identity = index.identity := by
    induction entries with
    | nil => exact fun _ => rfl
    | cons e entries ih => exact fun index => (ih _).trans (take_identity index e)
  exact hfold _

end Index

namespace Scan

/-- An index keeps the identity it is made for. -/
theorem run_identity (ds : List Delivery) (s : Scan) : (run ds s).index.identity = s.index.identity := by
  induction ds generalizing s with
  | nil => rfl
  | cons d ds ih =>
    cases d with
    | cancel => exact ih _
    | entry e =>
      unfold run
      split
      · rfl
      · exact (ih _).trans (Index.take_identity ..)

/-- Without requests to cancel every entry is taken into the index. -/
theorem run_of_undisturbed {ds : List Delivery} (h : ds.contains .cancel = false) {s : Scan}
    (hs : s.cancelled = false) :
    (run ds s).index = ((Enumeration.mk ds none).entries).foldl (fun index e => (index.take e).1) s.index ∧
      (run ds s).cancelled = false ∧ (run ds s).stopped = s.stopped := by
  induction ds generalizing s with
  | nil => exact ⟨rfl, hs, rfl⟩
  | cons d ds ih =>
    cases d with
    | cancel => simp at h
    | entry e =>
      have hrest : ds.contains .cancel = false := by simpa using h
      rw [run, if_neg (by simp [hs])]
      exact ih hrest hs

/-- What reading a container comes to when nobody asks to cancel. -/
def outcome (l : Location) (current : Identity) (course : Enumeration) : Except ScanError Index :=
  match course.failure with
  | some reason => .error (.containerUnreadable l.logicalPath reason)
  | none => .ok (.ofEntries current course.entries)

theorem outcome_eq_ok {l : Location} {current : Identity} {course : Enumeration} {index : Index} :
    outcome l current course = .ok index ↔
      course.failure = none ∧ index = .ofEntries current course.entries := by
  unfold outcome
  cases course.failure with
  | none => simp [eq_comm]
  | some reason => simp

theorem outcome_eq_error {l : Location} {current : Identity} {course : Enumeration} {e : ScanError}
    (h : outcome l current course = .error e) :
    ∃ reason, e = .containerUnreadable l.logicalPath reason := by
  unfold outcome at h
  cases hf : course.failure with
  | none => simp [hf] at h
  | some reason =>
    rw [hf] at h
    exact ⟨reason, (Except.error.inj h).symm⟩

end Scan

namespace Loading

variable {ω α β : Type} {env : Environment ω} {settings : CacheSettings} {s : Session ω}

@[simp] theorem wp_onCache {Q : Except ScanError Unit → Session ω → Prop} (f : Cache → Cache) :
    wp (onCache f) Q s ↔ Q (.ok ()) { s with cache := f s.cache } := Iff.rfl

@[simp] theorem wp_report {Q : Except ScanError Unit → Session ω → Prop} (e : Event) :
    wp (report e) Q s ↔ Q (.ok ()) { s with cache := s.cache.report e } := Iff.rfl

@[simp] theorem wp_isCancelled {Q : Except ScanError Bool → Session ω → Prop} :
    wp isCancelled Q s ↔ Q (.ok s.cancelled) s := Iff.rfl

@[simp] theorem wp_remembered {Q : Except ScanError (Option Loaded) → Session ω → Prop} (key : String)
    (forced : Bool) (current : Identity) :
    wp (remembered settings key forced current) Q s ↔
      Q (.ok (if forced then none else (s.cache.published.find? key).filter fun loaded =>
        accepts settings loaded.index.identity current)) s := Iff.rfl

@[simp] theorem wp_publish {Q : Except ScanError Loaded → Session ω → Prop} (key : String)
    (index : Index) :
    wp (publish key index) Q s ↔
      Q (.ok (s.cache.publish key index).1) { s with cache := (s.cache.publish key index).2 } := Iff.rfl

/-- Nobody else is at work while a container is read, and nobody asks to cancel: reading it comes to
`course` and changes nothing. -/
structure Undisturbed (env : Environment ω) (l : Location) (w : ω) (course : Enumeration) : Prop where
  enumerate : env.enumerate l w = (.delivered course, w)
  cancels : course.cancels = false

theorem wp_enumerate_delivered {l : Location} {course : Enumeration} {w : ω}
    {Q : Except ScanError Enumeration → Session ω → Prop} (h : (env.enumerate l w).1 = .delivered course)
    (hs : s.world = w) :
    wp (enumerate env l) Q s ↔ Q (.ok course) { s with world := (env.enumerate l w).2 } := by
  subst hs
  unfold enumerate
  simp only [wp_bind, wp_get, andThen_ok, h, wp_set, wp_pure]

theorem wp_enumerate {l : Location} {course : Enumeration} {w : ω}
    {Q : Except ScanError Enumeration → Session ω → Prop} (h : Undisturbed env l w course)
    (hs : s.world = w) : wp (enumerate env l) Q s ↔ Q (.ok course) s := by
  subst hs
  rw [wp_enumerate_delivered (congrArg Prod.fst h.enumerate) rfl, h.enumerate]

/-- A step whose outcome depends on the world alone, that changes nothing, and that fails only if the
container cannot be read. -/
def Steady (l : Location) (p : Loading ω α) (w : ω) : Prop :=
  ∃ r, (∀ e, r = .error e → ∃ reason, e = .containerUnreadable l.logicalPath reason) ∧
    ∀ s : Session ω, s.world = w → wp p (fun r' s' => r' = r ∧ s' = s) s

namespace Steady
variable {l : Location} {w : ω}

theorem pure (a : α) : Steady l (pure a : Loading ω α) w := ⟨.ok a, nofun, fun _ _ => ⟨rfl, rfl⟩⟩

theorem unreadable (reason : String) :
    Steady l (throw (.containerUnreadable l.logicalPath reason) : Loading ω α) w :=
  ⟨_, fun _ h => ⟨reason, (Except.error.inj h).symm⟩, fun _ _ => ⟨rfl, rfl⟩⟩

theorem bind {p : Loading ω α} {f : α → Loading ω β} (hp : Steady l p w)
    (hf : ∀ a, Steady l (f a) w) : Steady l (p >>= f) w := by
  obtain ⟨r, he, hr⟩ := hp
  cases r with
  | error e =>
    refine ⟨.error e, fun e' h => he e' (Except.error.inj h ▸ rfl), fun s hs => ?_⟩
    refine (wp_bind ..).2 (wp_mono (hr s hs) ?_)
    rintro _ _ ⟨rfl, rfl⟩
    exact ⟨rfl, rfl⟩
  | ok a =>
    obtain ⟨r, he', hr'⟩ := hf a
    refine ⟨r, he', fun s hs => (wp_bind ..).2 (wp_mono (hr s hs) ?_)⟩
    rintro _ _ ⟨rfl, rfl⟩
    exact hr' _ hs

/-- A step that looks at the world only. -/
theorem get_bind {f : Session ω → Loading ω α} {p : Loading ω α} (hf : ∀ s, s.world = w → f s = p)
    (hp : Steady l p w) : Steady l (get >>= f) w := by
  obtain ⟨r, he, hr⟩ := hp
  refine ⟨r, he, fun s hs => ?_⟩
  rw [wp_bind, wp_get, andThen_ok, hf s hs]
  exact hr s hs

end Steady

theorem steady_entriesDigest {l : Location} {w : ω} {course : Enumeration}
    (h : Undisturbed env l w course) : Steady l (entriesDigest env l) w := by
  unfold entriesDigest
  cases hf : course.failure with
  | none =>
    refine ⟨.ok (ClassEntry.digest course.entries), nofun, ?_⟩
    rintro s rfl
    simp only [wp_bind, wp_enumerate h, andThen_ok, wp_modify, h.cancels, Bool.or_false, hf, wp_pure,
      and_self]
  | some reason =>
    refine ⟨.error (.containerUnreadable l.logicalPath reason),
      fun _ he => ⟨reason, (Except.error.inj he).symm⟩, ?_⟩
    rintro s rfl
    simp only [wp_bind, wp_enumerate h, andThen_ok, wp_modify, h.cancels, Bool.or_false, hf, wp_throw,
      and_self]

theorem steady_digest {l : Location} {w : ω} {course : Enumeration} (h : Undisturbed env l w course) :
    Steady l (digest env l) w := by
  unfold digest
  cases hd : env.ownDigest l w with
  | none => exact .get_bind (fun s hs => by rw [hs, hd]) (steady_entriesDigest h)
  | some d =>
    cases d with
    | ok d => exact .get_bind (fun s hs => by rw [hs, hd]) (.pure d)
    | error reason => exact .get_bind (fun s hs => by rw [hs, hd]) (.unreadable reason)

theorem steady_resolve {l : Location} {w : ω} {course : Enumeration} (h : Undisturbed env l w course) :
    Steady l (resolve env settings l) w := by
  unfold resolve
  cases hstat : env.stat l w with
  | error reason => exact .get_bind (fun s hs => by rw [hs, hstat]) (.unreadable reason)
  | ok stat =>
    refine .get_bind (fun s hs => by rw [hs, hstat]) ?_
    cases settings.identityPolicy with
    | timestampSize => exact .bind (.pure none) fun _ => .pure _
    | contentDigest => exact .bind (steady_digest h) fun _ => .bind (.pure _) fun _ => .pure _

/-- The identity that a container has, or why it cannot be learned. -/
def identityOf (env : Environment ω) (settings : CacheSettings) (l : Location) (w : ω) :
    Except ScanError Identity := ((resolve env settings l).run.run ⟨{}, w, false⟩).1

theorem wp_resolve {l : Location} {course : Enumeration} {Q : Except ScanError Identity → Session ω → Prop}
    (h : Undisturbed env l s.world course) :
    wp (resolve env settings l) Q s ↔ Q (identityOf env settings l s.world) s := by
  have hsteady : Steady l (resolve env settings l) s.world := steady_resolve h
  obtain ⟨r, -, hr⟩ := hsteady
  have hid : identityOf env settings l s.world = r := (hr ⟨{}, s.world, false⟩ rfl).1
  obtain ⟨hr, hs⟩ := hr s rfl
  unfold wp
  rw [hr, hs, hid]

theorem identityOf_eq_error {l : Location} {w : ω} {course : Enumeration} {e : ScanError}
    (h : Undisturbed env l w course) (he : identityOf env settings l w = .error e) :
    ∃ reason, e = .containerUnreadable l.logicalPath reason := by
  have hsteady : Steady l (resolve env settings l) w := steady_resolve h
  obtain ⟨r, hunreadable, hr⟩ := hsteady
  have hid : identityOf env settings l w = r := (hr ⟨{}, w, false⟩ rfl).1
  exact hunreadable e (hid ▸ he)

/-- The identity that size and time, a digest of its own and the entries of a container make. -/
def identityFrom (settings : CacheSettings) (l : Location) (stat : Except String ContainerStat)
    (own : Option (Except String String)) (course : Enumeration) : Except ScanError Identity :=
  match stat with
  | .error reason => .error (.containerUnreadable l.logicalPath reason)
  | .ok stat =>
    match settings.identityPolicy, own, course.failure with
    | .timestampSize, _, _ => .ok ⟨l.logicalPath, stat.size, stat.lastModified, none⟩
    | .contentDigest, some (.ok digest), _ => .ok ⟨l.logicalPath, stat.size, stat.lastModified, some digest⟩
    | .contentDigest, some (.error reason), _ => .error (.containerUnreadable l.logicalPath reason)
    | .contentDigest, none, some reason => .error (.containerUnreadable l.logicalPath reason)
    | .contentDigest, none, none =>
      .ok ⟨l.logicalPath, stat.size, stat.lastModified, some (ClassEntry.digest course.entries)⟩

theorem identityOf_eq {l : Location} {w : ω} {course : Enumeration} (h : Undisturbed env l w course) :
    identityOf env settings l w = identityFrom settings l (env.stat l w) (env.ownDigest l w) course := by
  show wp (resolve env settings l) (fun r _ => r = _) ⟨{}, w, false⟩
  unfold resolve digest entriesDigest
  rw [wp_bind, wp_get, andThen_ok]
  dsimp only
  cases env.stat l w with
  | error reason => rfl
  | ok stat =>
    cases hpolicy : settings.identityPolicy with
    | timestampSize => simp only [identityFrom, wp_bind, wp_pure, andThen_ok, hpolicy]
    | contentDigest =>
      simp only [identityFrom, wp_bind, wp_get, andThen_ok, hpolicy]
      cases env.ownDigest l w with
      | some own => cases own <;> rfl
      | none =>
        simp only [wp_bind, wp_enumerate h, andThen_ok, wp_modify]
        cases course.failure <;> rfl

/-- Where nobody asks to cancel, reading a container comes to an index of what it delivers, or to the reason why it
broke off. -/
theorem wp_rebuild_delivered {l : Location} (current : Identity) {course : Enumeration}
    (h : (env.enumerate l s.world).1 = .delivered course) (hcancels : course.cancels = false)
    (hs : s.cancelled = false) :
    wp (rebuild env l current) (fun r s' => r = Scan.outcome l current course ∧
      s.cache.SameIndexes s'.cache ∧ s'.world = (env.enumerate l s.world).2 ∧ s'.cancelled = false) s := by
  obtain ⟨hindex, hcancelled, hstopped⟩ := Scan.run_of_undisturbed hcancels
    (s := { index := { identity := current }, cancelled := s.cancelled }) hs
  unfold rebuild
  simp only [wp_bind, wp_onCache, andThen_ok, wp_enumerate_delivered h, wp_get, wp_set]
  generalize Scan.run course.deliveries _ = scan at hindex hcancelled hstopped ⊢
  simp only [hstopped, hcancelled, Bool.false_eq_true, if_false, Scan.outcome]
  cases course.failure with
  | some reason => exact ⟨rfl, ⟨rfl, rfl⟩, rfl, rfl⟩
  | none =>
    have hok : (.ok scan.index : Except ScanError Index) = .ok (.ofEntries current course.entries) := by
      rw [hindex]
      rfl
    cases scan.index.incomplete with
    | true => exact ⟨hok, ⟨rfl, rfl⟩, rfl, rfl⟩
    | false => exact ⟨hok, ⟨rfl, rfl⟩, rfl, rfl⟩

/-- Reading a container changes counts and events only. -/
theorem wp_rebuild {l : Location} {current : Identity} {course : Enumeration}
    (h : Undisturbed env l s.world course) (hs : s.cancelled = false) :
    wp (rebuild env l current) (fun r s' => r = Scan.outcome l current course ∧
      s.cache.SameIndexes s'.cache ∧ s'.world = s.world ∧ s'.cancelled = false) s := by
  have hdelivered := wp_rebuild_delivered current (congrArg Prod.fst h.enumerate) h.cancels hs
  rwa [h.enumerate] at hdelivered

/-- Whatever comes of storing an index, the load goes on. -/
theorem wp_persist (key : String) (index : Index) :
    wp (persist env key index) (fun r s' => r = .ok () ∧ s.cache.SameIndexes s'.cache ∧
      s'.world = (env.store.put key (Blob.encode index) s.world).2 ∧ s'.cancelled = s.cancelled) s := by
  unfold persist
  simp only [wp_bind, wp_get, andThen_ok, wp_set]
  split
  · exact ⟨rfl, .report .., rfl, rfl⟩
  · exact ⟨rfl, .refl _, rfl, rfl⟩
  · exact ⟨rfl, .report .., rfl, rfl⟩

theorem readStored_eq_ok {key : String} {w : ω} {index : Index} :
    readStored env key w = .ok (some index) ↔
      ∃ bytes, env.store.get key w = .ok (some bytes) ∧ Blob.decode bytes = .ok index := by
  unfold readStored
  cases env.store.get key w with
  | error e => simp
  | ok stored =>
    cases stored with
    | none => simp
    | some bytes => cases h : Blob.decode bytes <;> simp [h]

theorem forall_index_of_error (P : Index → Prop) (why : MissReason) :
    ∀ index, (.error why : Except MissReason Index) = .ok index → P index := nofun

/-- Nothing goes wrong when the store is asked: either it has an acceptable index, or the index is to
be made anew. -/
theorem wp_fromStore (key : String) (forced : Bool) (current : Identity) :
    wp (fromStore env settings key forced current) (fun r s' =>
      (∃ stored, r = .ok stored ∧ ∀ index, stored = .ok index →
        forced = false ∧ settings.disabled = false ∧ accepts settings index.identity current = true ∧
        readStored env key s.world = .ok (some index)) ∧
      s.cache.SameIndexes s'.cache ∧ s'.world = s.world ∧ s'.cancelled = s.cancelled) s := by
  unfold fromStore
  split
  next => exact ⟨⟨.error .disabled, rfl, forall_index_of_error _ _⟩, .refl _, rfl, rfl⟩
  next hdisabled =>
    split
    next => exact ⟨⟨.error .forced, rfl, forall_index_of_error _ _⟩, .refl _, rfl, rfl⟩
    next hforced =>
      simp only [wp_bind, wp_get, andThen_ok]
      split
      next => exact ⟨⟨.error .absent, rfl, forall_index_of_error _ _⟩, .refl _, rfl, rfl⟩
      next index hread =>
        refine ⟨⟨_, rfl, fun i hi => ?_⟩, .refl _, rfl, rfl⟩
        split at hi
        next haccepts =>
          obtain rfl := Except.ok.inj hi
          exact ⟨by simpa using hforced, by simpa using hdisabled, haccepts, hread⟩
        next => cases hi
      next e hread => exact ⟨⟨.error .corrupt, rfl, forall_index_of_error _ _⟩, .report .., rfl, rfl⟩

end Loading

end ClassCatalog
