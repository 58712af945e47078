import ClassCatalog.Proofs.Cache.Reloading

/-!
# The counts add up

What a load reports and does is counted (`Cache.account`), the writes that the store refuses with it. A load whose
container has an identity answers once (`Loading.Answers`): with a hit, or with a miss and one reading of the
container, and an index that is made is offered to the store once. So the counts of a whole run add up
(`Cache.accounts_balance`).

Nobody else is at work during a load here. Where another caller's request to cancel ends a reading, the load begins
anew and reports that too.
-/

namespace ClassCatalog

variable {ω : Type}

/-! ### Refused writes -/

/-- A count of the writes that the store has refused for being read-only. -/
structure Environment.CountsRefusals (env : Environment ω) (refused : ω → Nat) : Prop where
  put (key : String) (bytes : Bytes) (w : ω) : refused (env.store.put key bytes w).2 =
    match (env.store.put key bytes w).1 with
    | .error .readOnly => refused w + 1
    | _ => refused w
  delete (key : String) (w : ω) : refused (env.store.delete key w).2 = refused w
  enumerate (l : Location) (w : ω) : refused (env.enumerate l w).2 = refused w

/-- The same environment with a store that counts the writes it refuses. -/
def Environment.counting (env : Environment ω) : Environment (ω × Nat) where
  stat l w := env.stat l w.1
  enumerate l w := ((env.enumerate l w.1).1, ((env.enumerate l w.1).2, w.2))
  ownDigest l w := env.ownDigest l w.1
  store :=
    { env.store.onPart Prod.fst fun w' w => (w', w.2) with
      put := fun key bytes w =>
        let result := env.store.put key bytes w.1
        (result.1, (result.2, match result.1 with
          | .error .readOnly => w.2 + 1
          | _ => w.2)) }
  pending w := env.pending w.1

/-- Every store can be made to count. -/
theorem Environment.countsRefusals_counting (env : Environment ω) : env.counting.CountsRefusals Prod.snd where
  put _ _ _ := rfl
  delete _ _ := rfl
  enumerate _ _ := rfl

variable {env : Environment ω} {settings : CacheSettings} {refused : ω → Nat}

theorem Environment.CountsRefusals.of_reads (h : env.CountsRefusals refused) {w w' : ω} (hreads : env.Reads w w') :
    refused w' = refused w := by
  induction hreads with
  | refl => rfl
  | enumerate _ l ih => exact (h.enumerate l _).trans ih

/-! ### Accounts -/

/-- What is counted of the work of a cache. -/
@[ext]
structure Account where
  hits : Nat := 0
  storeHits : Nat := 0
  misses : Nat := 0
  corrupt : Nat := 0
  /-- How many containers were read. -/
  passes : Nat := 0
  /-- How many indexes the store was offered: those it took, those it failed to take and those it refused. -/
  offers : Nat := 0

namespace Account

instance : Add Account where
  add a b := ⟨a.hits + b.hits, a.storeHits + b.storeHits, a.misses + b.misses, a.corrupt + b.corrupt,
    a.passes + b.passes, a.offers + b.offers⟩

variable (a b c : Account)

@[simp] theorem hits_add : (a + b).hits = a.hits + b.hits := rfl

@[simp] theorem storeHits_add : (a + b).storeHits = a.storeHits + b.storeHits := rfl

@[simp] theorem misses_add : (a + b).misses = a.misses + b.misses := rfl

@[simp] theorem corrupt_add : (a + b).corrupt = a.corrupt + b.corrupt := rfl

@[simp] theorem passes_add : (a + b).passes = a.passes + b.passes := rfl

@[simp] theorem offers_add : (a + b).offers = a.offers + b.offers := rfl

theorem add_assoc : a + b + c = a + (b + c) := by
  ext <;> exact Nat.add_assoc ..

theorem add_zero : a + {} = a := rfl

theorem zero_add : {} + a = a := by
  ext <;> exact Nat.zero_add _

/-- What is counted of events. -/
def ofEvents (events : List Event) : Account where
  hits := events.countP Event.isHit
  storeHits := events.countP Event.isStoreHit
  misses := events.countP Event.isMiss
  corrupt := events.countP Event.isCorrupt
  offers := events.countP Event.isWrite + events.countP Event.isWriteFailure

theorem ofEvents_append (events more : List Event) : ofEvents (events ++ more) = ofEvents events + ofEvents more := by
  ext <;> simp [ofEvents, List.countP_append]
  omega

/-- That a class could not be decoded is not among the counts. -/
theorem ofEvents_of_isClassFailure {events : List Event} (h : ∀ e ∈ events, e.isClassFailure = true) :
    ofEvents events = {} := by
  have hnone : ∀ p : Event → Bool, (∀ path entry reason, p (.classFailed path entry reason) = false) →
      events.countP p = 0 := by
    refine fun p hp => List.countP_eq_zero.2 fun e he => ?_
    cases e with
    | classFailed path entry reason => simp [hp]
    | _ => exact absurd (h _ he) Bool.false_ne_true
  unfold ofEvents
  rw [hnone _ fun _ _ _ => rfl, hnone _ fun _ _ _ => rfl, hnone _ fun _ _ _ => rfl, hnone _ fun _ _ _ => rfl,
    hnone _ fun _ _ _ => rfl, hnone _ fun _ _ _ => rfl]

end Account

/-- What is counted of the work of a cache whose store has refused so many writes. -/
def Cache.account (c : Cache) (refused : Nat) : Account :=
  .ofEvents c.events + { passes := c.decodePasses, offers := refused }

/-- From the one session to the other, so much was counted. -/
def Session.Counts (refused : ω → Nat) (s : Session ω) (a : Account) (s' : Session ω) : Prop :=
  s'.cache.account (refused s'.world) = s.cache.account (refused s.world) + a

theorem Cache.passes_account (c : Cache) (refused : Nat) : (c.account refused).passes = c.decodePasses :=
  Nat.zero_add _

theorem Cache.account_report (c : Cache) (e : Event) (refused : Nat) :
    (c.report e).account refused = c.account refused + .ofEvents [e] := by
  unfold account report
  rw [Account.ofEvents_append]
  ext <;> simp <;> omega

namespace Session.Counts

variable {s s' s'' : Session ω} {a b : Account}

theorem refl (s : Session ω) : s.Counts refused {} s := rfl

theorem trans (h : s.Counts refused a s') (h' : s'.Counts refused b s'') : s.Counts refused (a + b) s'' := by
  unfold Counts at h h' ⊢
  rw [h', h, Account.add_assoc]

theorem report (h : s.Counts refused a s') (e : Event) :
    s.Counts refused (a + .ofEvents [e]) { s' with cache := s'.cache.report e } :=
  h.trans (Cache.account_report ..)

end Session.Counts

namespace Loading

variable {key : String} {l : Location} {current : Identity} {s : Session ω}

/-! ### One load -/

/-- How a load ends that has learned the identity of its container, and what is counted of it. -/
inductive Answers (settings : CacheSettings) : Except ScanError Loaded → Account → Prop
  | remembered (loaded : Loaded) : Answers settings (.ok loaded) { hits := 1 }
  | stored (loaded : Loaded) : Answers settings (.ok loaded) { hits := 1, storeHits := 1 }
  | failed (e : ScanError) {corrupt : Nat} (h : corrupt ≤ 1) :
      Answers settings (.error e) { misses := 1, corrupt, passes := 1 }
  | made (loaded : Loaded) {corrupt offers : Nat} (h : corrupt ≤ 1) (hoffers : settings.disabled = false → offers = 1) :
      Answers settings (.ok loaded) { misses := 1, corrupt, passes := 1, offers }

theorem wp_rebuild_counts (henv : env.CountsRefusals refused) {course : Enumeration}
    (hdelivered : (env.enumerate l s.world).1 = .delivered course) :
    wp (rebuild env l current) (fun _ s' => s.Counts refused { passes := 1 } s') s := by
  unfold rebuild
  simp only [wp_bind, wp_onCache, andThen_ok, wp_enumerate_delivered hdelivered, wp_get, wp_set]
  generalize hscan : Scan.run course.deliveries _ = scan
  have hevents : Account.ofEvents scan.events = {} :=
    hscan ▸ Account.ofEvents_of_isClassFailure (Scan.run_isClassFailure (List.forall_mem_nil _))
  let read : Session ω := ⟨{ s.cache with
    decodePasses := s.cache.decodePasses + 1
    decodeCalls := s.cache.decodeCalls + scan.decoded
    events := s.cache.events ++ scan.events }, (env.enumerate l s.world).2, scan.cancelled⟩
  have hread : s.Counts refused { passes := 1 } read := by
    show Account.ofEvents (s.cache.events ++ scan.events) + _ = _
    rw [Account.ofEvents_append, hevents, Account.add_zero, Cache.account, Account.add_assoc, henv.enumerate]
    rfl
  cases scan.stopped with
  | true => exact hread
  | false =>
    cases course.failure with
    | some reason => exact hread
    | none =>
      cases hcancelled : scan.cancelled with
      | true => exact hread
      | false =>
        cases scan.index.incomplete with
        | true => exact hread.report _
        | false => exact hread

/-- The store takes an index, fails to, or refuses it, and each is counted. -/
theorem wp_persist_counts (henv : env.CountsRefusals refused) (key : String) (index : Index) :
    wp (persist env key index) (fun r s' => r = .ok () ∧ s.Counts refused { offers := 1 } s') s := by
  have hrefused := henv.put key (Blob.encode index) s.world
  have hcounts : ∀ e : Event, Account.ofEvents [e] = { offers := 1 } →
      refused (env.store.put key (Blob.encode index) s.world).2 = refused s.world →
      s.Counts refused { offers := 1 }
        ⟨s.cache.report e, (env.store.put key (Blob.encode index) s.world).2, s.cancelled⟩ := by
    intro e he hsame
    show (s.cache.report e).account _ = _
    rw [Cache.account_report, he, hsame]
  unfold persist
  simp only [wp_bind, wp_get, andThen_ok, wp_set]
  split
  · rename_i hput
    rw [hput] at hrefused
    exact ⟨rfl, hcounts _ rfl hrefused⟩
  · rename_i hput
    rw [hput] at hrefused
    exact ⟨rfl, congrArg s.cache.account hrefused⟩
  · rename_i e hne hput
    rw [hput] at hrefused
    refine ⟨rfl, hcounts _ rfl (hrefused.trans ?_)⟩
    split
    · rename_i heq
      cases heq
      exact absurd rfl hne
    · rfl

theorem wp_fromStore_counts (refused : ω → Nat) (key : String) (forced : Bool) (current : Identity) :
    wp (fromStore env settings key forced current) (fun r s' => s'.world = s.world ∧ s'.cancelled = s.cancelled ∧
      ∃ stored corrupt, r = .ok stored ∧ s.Counts refused { corrupt } s' ∧ corrupt ≤ 1 ∧
        ((∃ index, stored = .ok index) → corrupt = 0)) s := by
  have hnone : ∀ stored, ∃ stored' corrupt, (.ok stored : Except ScanError (Except MissReason Index)) = .ok stored' ∧
      s.Counts refused { corrupt } s ∧ corrupt ≤ 1 ∧ ((∃ index, stored' = .ok index) → corrupt = 0) :=
    fun stored => ⟨stored, 0, rfl, .refl s, Nat.zero_le _, fun _ => rfl⟩
  unfold fromStore
  split
  · exact ⟨rfl, rfl, hnone _⟩
  · split
    · exact ⟨rfl, rfl, hnone _⟩
    · simp only [wp_bind, wp_get, andThen_ok]
      split
      · exact ⟨rfl, rfl, hnone _⟩
      · exact ⟨rfl, rfl, hnone _⟩
      · refine ⟨rfl, rfl, _, 1, rfl, (Session.Counts.refl s).report _, Nat.le_refl _, ?_⟩
        rintro ⟨index, ⟨⟩⟩

section

-- The container is read to where it breaks off or the caller cancels.
variable {course : Enumeration} (henv : env.CountsRefusals refused)
  (hdelivered : (env.enumerate l s.world).1 = .delivered course)
include henv hdelivered

/-- A container that is made anew is read once, and the store is offered what comes of it. -/
theorem wp_renew_counts (forced : Bool) :
    wp (renew env settings key l current forced) (fun r s' =>
      ∃ offers, s.Counts refused { passes := 1, offers } s' ∧
        match r with
        | .ok _ => settings.disabled = false → offers = 1
        | .error e => offers = 0 ∧ ∀ path, e = .cancelled path → s'.cancelled = true) s := by
  unfold renew
  rw [wp_bind, wp_tryCatch]
  refine wp_mono (wp_and (wp_rebuild_counts henv hdelivered) (wp_rebuild_pass hdelivered)) ?_
  rintro r s' ⟨hcounts, hpass⟩
  cases r with
  | error e =>
    have hown : ∀ path, e = .cancelled path → s'.cancelled = true := fun path he => hpass.own (congrArg _ he)
    rw [orElse_error]
    cases forced with
    | true => exact ⟨0, hcounts, rfl, hown⟩
    | false => exact ⟨0, hcounts, rfl, hown⟩
  | ok index =>
    rw [orElse_ok, andThen_ok]
    cases hdisabled : settings.disabled with
    | true => exact ⟨0, hcounts, nofun⟩
    | false =>
      refine (wp_bind ..).2 (wp_mono (wp_persist_counts henv key index) ?_)
      rintro r s'' ⟨rfl, hoffered⟩
      exact ⟨1, hcounts.trans hoffered, fun _ => rfl⟩

/-- A load that goes on to the store and, if that is of no use, to the container. -/
theorem wp_fetch_counts (forced : Bool) :
    wp (fetch env settings key l current forced) (fun r s' =>
      (∀ path, r = .error (.cancelled path) → s'.cancelled = true) ∧
      ∃ a, s.Counts refused a s' ∧ Answers settings r a) s := by
  unfold fetch
  refine (wp_bind ..).2 (wp_mono (wp_fromStore_counts refused key forced current) ?_)
  rintro r s' ⟨hworld, hcancelled, stored, corrupt, rfl, hcounts, hcorrupt, hnone⟩
  cases stored with
  | ok index =>
    obtain rfl := hnone ⟨index, rfl⟩
    refine ⟨?_, _, hcounts.report (.hit current.path true), .stored _⟩
    rintro path ⟨⟩
  | error reason =>
    simp only [andThen_ok, wp_bind, wp_report]
    let t : Session ω := { s' with cache := s'.cache.report (.miss current.path reason) }
    have hmissed : s.Counts refused ({ corrupt } + { misses := 1 }) t := hcounts.report (.miss current.path reason)
    have hdelivered' : (env.enumerate l t.world).1 = .delivered course := by
      rw [show t.world = s.world from hworld, hdelivered]
    refine wp_mono (wp_renew_counts (s := t) henv hdelivered' forced) ?_
    rintro r s'' ⟨offers, hrenewed, hr⟩
    have hall : s.Counts refused { misses := 1, corrupt, passes := 1, offers } s'' := by
      have htotal : ({ corrupt } + { misses := 1 } + { passes := 1, offers } : Account) =
          { misses := 1, corrupt, passes := 1, offers } := by ext <;> simp
      exact htotal ▸ hmissed.trans hrenewed
    cases r with
    | ok loaded =>
      refine ⟨?_, _, hall, .made loaded hcorrupt hr⟩
      rintro path ⟨⟩
    | error e =>
      obtain ⟨rfl, hown⟩ := hr
      exact ⟨fun path he => hown path (Except.error.inj he), _, hall, .failed e hcorrupt⟩

theorem wp_attempt_counts :
    wp (attempt env settings key l current) (fun r s' =>
      (∀ path, r = .error (.cancelled path) → s'.cancelled = true) ∧
      ∃ a, s.Counts refused a s' ∧ Answers settings r a) s := by
  unfold attempt
  simp only [wp_bind, wp_get, andThen_ok, wp_onCache, wp_remembered]
  cases (if s.cache.forced.contains key = true then none else _ : Option Loaded) with
  | some loaded =>
    refine ⟨?_, _, (Session.Counts.refl s).report (.hit current.path false), .remembered loaded⟩
    rintro path ⟨⟩
  | none => exact wp_fetch_counts (s := { s with cache := s.cache.unforce key }) henv hdelivered _

theorem wp_attempts_counts (n : Nat) :
    wp (attempts env settings key l current n) (fun r s' => ∃ a, s.Counts refused a s' ∧ Answers settings r a) s :=
  wp_attempts_of_own (wp_attempt_counts henv hdelivered) n

end

/-- A load answers if its container has an identity; if not, nothing is counted of it. -/
theorem wp_load_counts (henv : env.CountsRefusals refused)
    (hdelivers : ∀ w, env.Reads s.world w → (env.enumerate l w).1 ≠ .interrupted) :
    wp (load env settings l) (fun r s' => ∃ a, s.Counts refused a s' ∧
      match identityOf env settings l s.world with
      | .ok _ => Answers settings r a
      | .error e => r = .error e ∧ a = {}) s := by
  unfold load
  refine (wp_bind ..).2 (wp_mono (wp_resolve_looks l) ?_)
  rintro r s' ⟨rfl, hlooks⟩
  have hlooked : s.Counts refused {} s' := by
    unfold Session.Counts
    rw [hlooks.cache, henv.of_reads hlooks.reads]
    rfl
  cases hcurrent : identityOf env settings l s.world with
  | error e => exact ⟨{}, hlooked, rfl, rfl⟩
  | ok current =>
    obtain ⟨course, hdelivered⟩ : ∃ course, (env.enumerate l s'.world).1 = .delivered course := by
      cases henumerate : (env.enumerate l s'.world).1 with
      | delivered course => exact ⟨course, rfl⟩
      | interrupted => exact absurd henumerate (hdelivers _ hlooks.reads)
    simp only [andThen_ok, wp_bind, wp_get, wp_remembered]
    cases (if s'.cache.forced.contains l.cacheKey = true then none else _ : Option Loaded) with
    | some loaded => exact ⟨_, hlooked.report (.hit current.path false), .remembered loaded⟩
    | none =>
      rw [wp_bind, wp_get, andThen_ok]
      refine wp_mono (wp_attempts_counts henv hdelivered _) ?_
      rintro r s'' ⟨a, hcounts, hanswers⟩
      exact ⟨a, Account.zero_add a ▸ hlooked.trans hcounts, hanswers⟩

end Loading

/-! ### One load after the other -/

namespace Cache

variable {c : Cache} {w w₀ : ω} {resolved rebuilt : Nat}

/-- What becomes of a new cache and its world while containers are loaded, evicted and invalidated, one call after the
other, and the world changes between them: how many loads learned an identity, and how many returned an index that
they had made. -/
inductive History (env : Environment ω) (settings : CacheSettings) (refused : ω → Nat) (w₀ : ω) :
    Cache → ω → (resolved rebuilt : Nat) → Prop
  | start : History env settings refused w₀ {} w₀ 0 0
  | change {c : Cache} {w : ω} {resolved rebuilt : Nat} (h : History env settings refused w₀ c w resolved rebuilt)
      {w' : ω} (hrefused : refused w' = refused w) : History env settings refused w₀ c w' resolved rebuilt
  | load {c : Cache} {w : ω} {resolved rebuilt : Nat} (h : History env settings refused w₀ c w resolved rebuilt)
      (l : Location) (cancelled : Bool) {r : Except ScanError Loaded} {s : Session ω}
      (hdelivers : ∀ w', env.Reads w w' → (env.enumerate l w').1 ≠ .interrupted)
      (hload : (Loading.load env settings l).run.run ⟨c, w, cancelled⟩ = (r, s)) :
      History env settings refused w₀ s.cache s.world
        (resolved + (Loading.identityOf env settings l w).isOk.toNat)
        (rebuilt + (r.isOk && decide (c.decodePasses < s.cache.decodePasses)).toNat)
  | evict {c : Cache} {w : ω} {resolved rebuilt : Nat} (h : History env settings refused w₀ c w resolved rebuilt)
      (l : Location) : History env settings refused w₀ (c.evict l).2 w resolved rebuilt
  | invalidate {c : Cache} {w : ω} {resolved rebuilt : Nat} (h : History env settings refused w₀ c w resolved rebuilt)
      (l : Location) : History env settings refused w₀ (c.invalidate env.store settings l w).2.1
        (c.invalidate env.store settings l w).2.2 resolved rebuilt

/-- The counts fit with each other and with what was loaded. -/
structure Balanced (settings : CacheSettings) (a : Account) (refusedBefore resolved rebuilt : Nat) : Prop where
  misses : a.misses = a.passes
  answers : a.hits + a.misses = resolved
  storeHits : a.storeHits ≤ a.hits
  corrupt : a.corrupt ≤ a.misses
  offers : settings.disabled = false → a.offers = refusedBefore + rebuilt

theorem Balanced.answer {a b : Account} {refusedBefore : Nat} {r : Except ScanError Loaded}
    (h : Balanced settings a refusedBefore resolved rebuilt) (hb : Loading.Answers settings r b) :
    Balanced settings (a + b) refusedBefore (resolved + 1) (rebuilt + (r.isOk && decide (0 < b.passes)).toNat) := by
  obtain ⟨hmisses, hanswers, hstoreHits, hcorrupt, hoffers⟩ := h
  cases hb with
  | remembered loaded | stored loaded =>
    refine ⟨hmisses, ?_, ?_, hcorrupt, hoffers⟩
    · simp
      omega
    · simp
      omega
  | failed e hone =>
    refine ⟨?_, ?_, hstoreHits, ?_, hoffers⟩
    · simp [hmisses]
    · simp
      omega
    · simp
      omega
  | made loaded hone hoffered =>
    refine ⟨?_, ?_, hstoreHits, ?_, fun hdisabled => ?_⟩
    · simp [hmisses]
    · simp
      omega
    · simp
      omega
    · simp [hoffers hdisabled, hoffered hdisabled, Except.isOk, Except.toBool]
      omega

theorem History.balanced (henv : env.CountsRefusals refused)
    (h : History env settings refused w₀ c w resolved rebuilt) :
    Balanced settings (c.account (refused w)) (refused w₀) resolved rebuilt := by
  induction h with
  | start => exact ⟨rfl, rfl, Nat.le_refl _, Nat.le_refl _, fun _ => Nat.zero_add _⟩
  | change h hrefused ih => rwa [hrefused]
  | @load c w resolved rebuilt h l cancelled r s hdelivers hload ih =>
    have hcounted : wp (Loading.load env settings l) _ ⟨c, w, cancelled⟩ := Loading.wp_load_counts henv hdelivers
    obtain ⟨a, hcounts, hend⟩ := wp_of_run hcounted hload
    have hcounts' : s.cache.account (refused s.world) = c.account (refused w) + a := hcounts
    have hpasses : s.cache.decodePasses = c.decodePasses + a.passes := by
      rw [← passes_account, hcounts', Account.passes_add, passes_account]
    rw [hcounts']
    cases hcurrent : Loading.identityOf env settings l w with
    | error e =>
      obtain ⟨rfl, rfl⟩ : r = .error e ∧ a = {} := by simpa only [hcurrent] using hend
      exact ih
    | ok current =>
      have hanswers : Loading.Answers settings r a := by simpa only [hcurrent] using hend
      have hread : (c.decodePasses < s.cache.decodePasses) = (0 < a.passes) := by
        rw [hpasses, Nat.lt_add_right_iff_pos]
      simp only [hread]
      exact ih.answer hanswers
  | evict h l ih => exact ih
  | @invalidate c w resolved rebuilt h l ih =>
    have hrefused : refused (c.invalidate env.store settings l w).2.2 = refused w := by
      rw [invalidate_world]
      split
      · rfl
      · exact henv.delete ..
    rw [invalidate_cache, hrefused, account_report]
    exact ih

/-- Over any run of one call after the other, every miss is one reading of a container, every load that learned an
identity has answered with one hit or one miss, and every index that was made was offered to the store once, unless the
store is not to be used. -/
theorem accounts_balance (henv : env.CountsRefusals refused)
    (h : History env settings refused w₀ c w resolved rebuilt) :
    c.events.countP Event.isMiss = c.decodePasses ∧
      c.events.countP Event.isHit + c.events.countP Event.isMiss = resolved ∧
      c.events.countP Event.isStoreHit ≤ c.events.countP Event.isHit ∧
      c.events.countP Event.isCorrupt ≤ c.events.countP Event.isMiss ∧
      (settings.disabled = false → c.events.countP Event.isWrite + c.events.countP Event.isWriteFailure + refused w =
        refused w₀ + rebuilt) := by
  obtain ⟨hmisses, hanswers, hstoreHits, hcorrupt, hoffers⟩ := h.balanced henv
  rw [passes_account] at hmisses
  exact ⟨hmisses, hanswers, hstoreHits, hcorrupt, hoffers⟩

/-- Containers in memory and a store that takes no writes while it is closed. -/
def closable : Environment ScriptedWorld :=
  { ScriptedWorld.environment with
    store := { ScriptedWorld.environment.store with
      put := fun key bytes w =>
        if w.store.failWrites then (.error .readOnly, w) else ScriptedWorld.environment.store.put key bytes w } }

theorem delivered_of_closable {w w' : ScriptedWorld × Nat} (h : w.1.interruptions = 0)
    (hreads : closable.counting.Reads w w') (l : Location) :
    (closable.counting.enumerate l w').1 ≠ .interrupted := by
  have hreads' : ScriptedWorld.environment.Reads w.1 w'.1 := by
    induction hreads with
    | refl => exact .refl
    | enumerate _ l ih => exact ih.enumerate l
  exact Loading.delivered_of_quiet h hreads' l

/-- Loads a container in a world, with the indexes in memory and the count of refusals that there are. -/
def loadIn (w : ScriptedWorld) (l : Location) (c : Cache) (refused : Nat) :
    Except ScanError Loaded × Session (ScriptedWorld × Nat) :=
  (Loading.load closable.counting {} l).run.run ⟨c, (w, refused), false⟩

/-- One of two archives has a stored index. -/
def openStore : ScriptedWorld := Loading.twoArchives 1 1 Loading.staleStore

/-- Nothing is stored, and nothing can be. -/
def closedStore : ScriptedWorld := Loading.twoArchives 1 2 { failWrites := true }

def firstLoad := loadIn openStore (.archive "a.jar") {} 0

def secondLoad := loadIn openStore (.archive "b.jar") firstLoad.2.cache firstLoad.2.world.2

def lastLoad :=
  let asked := secondLoad.2.cache.invalidate closable.counting.store {} (.archive "b.jar") secondLoad.2.world
  loadIn closedStore (.archive "b.jar") asked.2.1 asked.2.2.2

theorem history_of_closed_store : ∃ resolved rebuilt, History closable.counting {} Prod.snd (openStore, 0)
    lastLoad.2.cache lastLoad.2.world resolved rebuilt ∧ resolved = 3 ∧ rebuilt = 2 := by
  have hsame : ∀ (w : ScriptedWorld) (n : Nat), (w, n).2 = n := fun _ _ => rfl
  have hstart : History closable.counting {} Prod.snd (openStore, 0) {} (openStore, 0) 0 0 := .start
  have hfirst := hstart.load (.archive "a.jar") false
    (fun w' h => delivered_of_closable (w := (openStore, 0)) rfl h _) (Prod.eta firstLoad).symm
  have hsecond := (hfirst.change (hsame openStore _)).load (.archive "b.jar") false
    (fun w' h => delivered_of_closable (w := (openStore, _)) rfl h _) (Prod.eta secondLoad).symm
  have hlast := ((hsecond.invalidate (.archive "b.jar")).change (hsame closedStore _)).load (.archive "b.jar") false
    (fun w' h => delivered_of_closable (w := (closedStore, _)) rfl h _) (Prod.eta lastLoad).symm
  exact ⟨_, _, hlast, by decide +kernel, by decide +kernel⟩

/-- The first load finds a stored index, the second makes one and stores it, and after an invalidation the last makes
another, which the store refuses. -/
theorem accounts_balance_of_closed_store :
    let c := lastLoad.2.cache
    c.decodePasses = 2 ∧ lastLoad.2.world.2 = 1 ∧ c.events.countP Event.isMiss = c.decodePasses ∧
      c.events.countP Event.isHit + c.events.countP Event.isMiss = 3 ∧
      c.events.countP Event.isWrite + c.events.countP Event.isWriteFailure + lastLoad.2.world.2 = 2 := by
  obtain ⟨resolved, rebuilt, hhistory, rfl, rfl⟩ := history_of_closed_store
  obtain ⟨hmisses, hanswers, -, -, hoffers⟩ := accounts_balance closable.countsRefusals_counting hhistory
  exact ⟨by decide +kernel, by decide +kernel, hmisses, hanswers, (hoffers rfl).trans (Nat.zero_add 2)⟩

end Cache

end ClassCatalog
