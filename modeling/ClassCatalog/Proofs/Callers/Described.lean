import ClassCatalog.Proofs.Callers.JoinedIdentity
import ClassCatalog.Proofs.Callers.Readers

/-!
# What an index is an index of

A load learns the identity of its container first and reads the container later, and does not look at the
identity again. If no container changes that somebody may still read (`Crowd.Spares`), whatever else happens,
every index that is in memory, in the store, or in the hands of a caller is what a scan makes of a container
that had the index's identity (`Crowd.Told`). If it changes in between, the index has the identity that was and
the classes that are.
-/

namespace ClassCatalog

/-- A delivery that is taken leaves the rest to come to the same. -/
theorem Scan.fold_of_goes {d : Delivery} {rest : List Delivery} {index : Index} {cancelled : Bool}
    (hgoes : (run [d] { index, cancelled }).stopped = false) :
    (Enumeration.mk rest none).entries.foldl (fun index e => (index.take e).1)
        (run [d] { index, cancelled }).index =
      (Enumeration.mk (d :: rest) none).entries.foldl (fun index e => (index.take e).1) index := by
  cases d with
  | cancel => rfl
  | entry e =>
    cases cancelled with
    | true => nomatch hgoes
    | false => rfl

/-! ### Fillings -/

namespace Filling

variable {ω : Type} {env : Environment ω} {settings : CacheSettings} {key : String} {l : Location}
  {current : Identity} {σ σ' : Session ω} {f f' : Filling} {was : Identity → Enumeration → Prop}
  {contents : ω → Location → Enumeration} {held : ω → String → Option Bytes}

/-- What is read comes to the scan of a container that had the identity, and an index is one already. -/
def Describes (was : Identity → Enumeration → Prop) (current : Identity) : Filling → Prop
  | reading _ rest failure index => ∃ course, was current course ∧ failure = course.failure ∧
      (Enumeration.mk rest none).entries.foldl (fun index e => (index.take e).1) index =
        .ofEntries current course.entries
  | built index | kept index => index.Describes was
  | ended (.ok loaded) => loaded.index.Describes was
  | _ => True

theorem Describes.mono {was' : Identity → Enumeration → Prop} (h : f.Describes was current)
    (hwas : ∀ identity course, was identity course → was' identity course) : f.Describes was' current := by
  cases f with
  | reading =>
    obtain ⟨course, hthere, hrest⟩ := h
    exact ⟨course, hwas _ _ hthere, hrest⟩
  | built => exact Index.Describes.mono h hwas
  | kept => exact Index.Describes.mono h hwas
  | ended result =>
    cases result with
    | ok loaded => exact Index.Describes.mono h hwas
    | error e => trivial
  | _ => trivial

theorem Advance.describes (h : Advance env settings key l current σ f f' σ') (hf : f.Describes was current)
    (hcache : σ.cache.Every (Index.Describes was) held σ.world) (hstore : env.store.Honest held)
    (hopen : ∀ forced course, f = .opening forced → (env.enumerate l σ.world).1 = .delivered course →
      was current course) : f'.Describes was current := by
  cases h with
  | hit hfound => exact hcache.published hfound
  | find _ hread => exact hcache.readStored hstore hread
  | openIt henumerate => exact ⟨_, hopen _ _ rfl (congrArg Prod.fst henumerate), rfl, rfl⟩
  | take hscan hgoes =>
    obtain ⟨course, hthere, hfailure, hfold⟩ := hf
    subst hscan
    exact ⟨course, hthere, hfailure, (Scan.fold_of_goes hgoes).trans hfold⟩
  | close =>
    obtain ⟨course, hthere, hcomplete, hfold⟩ := hf
    obtain rfl := hfold
    exact Index.describes_ofEntries hthere hcomplete.symm
  | keep => exact hf
  | store => exact hf
  | publish => exact hf
  | _ => trivial

theorem Advance.exhibit (h : Advance env settings key l current σ f f' σ') (henv : env.Presents contents)
    (k : Location) : env.exhibit contents k σ'.world = env.exhibit contents k σ.world := by
  cases h with
  | openIt henumerate => exact henv.of_enumerate henumerate k
  | interrupted henumerate => exact henv.of_enumerate henumerate k
  | store => exact henv.put key _ σ.world k
  | _ => rfl

/-- What a filling puts into memory and store is what it has read. -/
theorem Advance.every (h : Advance env settings key l current σ f f' σ') (hf : f.Describes was current)
    (hcache : σ.cache.Every (Index.Describes was) held σ.world) (henv : env.Faithful held)
    (hfits : ∀ index : Index, index.Describes was → (Blob.encode index).length < Blob.addressable) :
    σ'.cache.Every (Index.Describes was) held σ'.world := by
  have hread : ∀ {listing w}, env.enumerate l σ.world = (listing, w) →
      ∀ k, held w k = held σ.world k ∨ held w k = none := by
    intro listing w henumerate k
    rw [← henv.enumerate l σ.world k, henumerate]
    exact .inl rfl
  cases h with
  | openIt henumerate => exact hcache.weaken (fun _ _ hfound => hfound) (hread henumerate)
  | interrupted henumerate => exact hcache.weaken (fun _ _ hfound => hfound) (hread henumerate)
  | @giveUp forced => cases forced <;> exact ⟨hcache.published, hcache.stored⟩
  | store =>
    have hput := hcache.put henv.store.toHonest hf (hfits _ hf) key
    exact ⟨hput.published, hput.stored⟩
  | publish => exact hcache.publish hf key
  | _ => exact ⟨hcache.published, hcache.stored⟩

end Filling

/-! ### Callers -/

namespace Crowd

variable {ι ω : Type} {env : Environment ω} {settings : CacheSettings} {s s' t : Crowd ι ω} {i : ι}
  {c c' : Caller} {was : Identity → Enumeration → Prop} {contents : ω → Location → Enumeration}
  {held : ω → String → Option Bytes}

theorem Move.exhibit (h : Move env settings i s c c' t) (henv : env.Presents contents) (k : Location) :
    env.exhibit contents k t.world = env.exhibit contents k s.world := by
  cases h with
  | refuse hrun => exact Loading.run_resolve_exhibit henv hrun k
  | resolve hrun => exact Loading.run_resolve_exhibit henv hrun k
  | fill hadvance => exact hadvance.exhibit henv k
  | delete => exact henv.delete _ s.world k
  | _ => rfl

theorem Move.every (h : Move env settings i s c c' t) (hcache : s.cache.Every (Index.Describes was) held s.world)
    (hfilling : ∀ l current n f, c = .load l (.filling current n f) → f.Describes was current)
    (henv : env.Faithful held)
    (hfits : ∀ index : Index, index.Describes was → (Blob.encode index).length < Blob.addressable) :
    t.cache.Every (Index.Describes was) held t.world := by
  have hresolve : ∀ {l r σ}, (Loading.resolve env settings l).run.run (s.session i) = (r, σ) →
      σ.cache = s.cache → σ.cache.Every (Index.Describes was) held σ.world := by
    intro l r σ hrun hsame
    exact hcache.weaken (fun _ _ hfound => hsame ▸ hfound)
      fun key => .inl (Loading.run_resolve_held henv hrun key)
  have herase : ∀ l : Location, (s.cache.evict l).2.Every (Index.Describes was) held s.world := by
    refine fun l => hcache.weaken (fun key loaded hfound => ?_) fun _ => .inl rfl
    replace hfound : (s.cache.published.erase l.cacheKey).find? key = some loaded := hfound
    rw [NameMap.find?_erase] at hfound
    split at hfound
    · nomatch hfound
    · exact hfound
  cases h with
  | refuse hrun hsame => exact hresolve hrun hsame
  | resolve hrun hsame => exact hresolve hrun hsame
  | fill hadvance => exact hadvance.every (hfilling _ _ _ _ rfl) hcache henv hfits
  | @evict l => exact herase l
  | @drop l => exact ⟨(herase l).published, (herase l).stored⟩
  | delete => exact hcache.weaken (fun _ _ hfound => hfound) (henv.store.toHonest.delete _ s.world)
  | _ => exact ⟨hcache.published, hcache.stored⟩

/-! ### Runs -/

/-- What can happen: a caller takes its next step, somebody asks to cancel, or containers change as they may.
The store may lose what it holds in a change, but gets nothing new. -/
inductive Proceeds [DecidableEq ι] (env : Environment ω) (settings : CacheSettings)
    (held : ω → String → Option Bytes) (may : Crowd ι ω → ω → Prop) : Crowd ι ω → Crowd ι ω → Prop
  | move {s s' : Crowd ι ω} (i : ι) (h : s.step env settings i = some s') : Proceeds env settings held may s s'
  | cancel (s : Crowd ι ω) (k : Nat) :
    Proceeds env settings held may s { s with cancelled := fun t => t = k || s.cancelled t }
  | change {s : Crowd ι ω} {w : ω} (hmay : may s w)
      (hheld : ∀ key, held w key = held s.world key ∨ held w key = none) :
    Proceeds env settings held may s { s with world := w }

/-- A run, with the worlds that there were in it. -/
inductive Record (R : Crowd ι ω → Crowd ι ω → Prop) (s : Crowd ι ω) : List ω → Crowd ι ω → Prop
  | start : Record R s [s.world] s
  | step {worlds : List ω} {t t' : Crowd ι ω} (h : Record R s worlds t) (hstep : R t t') :
    Record R s (t'.world :: worlds) t'

/-- Every index that there is somewhere is what a scan made of a container that had its identity, and the
containers that somebody may still read have the identities that were learned of them. -/
structure Told (env : Environment ω) (settings : CacheSettings) (contents : ω → Location → Enumeration)
    (held : ω → String → Option Bytes) (past : ω → Prop) (s : Crowd ι ω) : Prop where
  cache : s.cache.Every (Index.Describes (env.Was settings contents past)) held s.world
  current : ∀ {i l identity}, s.MayRead i l identity →
    env.identity settings contents l s.world = .ok identity
  filling : ∀ {i l current n f}, s.callers i = .load l (.filling current n f) →
    f.Describes (env.Was settings contents past) current
  filled : ∀ {n loaded}, s.contents n = .filled (.ok loaded) →
    loaded.index.Describes (env.Was settings contents past)
  carried : ∀ {i loaded}, (s.callers i).result? = some (.ok loaded) →
    loaded.index.Describes (env.Was settings contents past)

namespace Told

variable {past past' : ω → Prop}

theorem mono (h : s.Told env settings contents held past) (hpast : ∀ w, past w → past' w) :
    s.Told env settings contents held past' := by
  have hwas : ∀ identity course, env.Was settings contents past identity course →
      env.Was settings contents past' identity course := fun _ _ h => h.mono hpast
  exact ⟨h.cache.mono fun _ h => h.mono hwas, h.current, fun hi => (h.filling hi).mono hwas,
    fun hn => (h.filled hn).mono hwas, fun hi => (h.carried hi).mono hwas⟩

variable [DecidableEq ι]

theorem move (h : s.Told env settings contents held past) (ho : s.Orderly) (hpresents : env.Presents contents)
    (hfaithful : env.Faithful held)
    (hfits : ∀ index : Index, index.Describes (env.Was settings contents past) →
      (Blob.encode index).length < Blob.addressable)
    (hpast : past s.world) (hstep : s.step env settings i = some s') :
    s'.Told env settings contents held past := by
  have hmoves := moves_of_step hstep
  have hmay : ∀ {j l current}, s'.MayRead j l current → s.MayRead j l current ∨
      j = i ∧ ∃ σ, (Loading.resolve env settings l).run.run (s.session i) = (.ok current, σ) :=
    fun h => h.of_move ho hstep
  obtain ⟨c, t, hmove, rfl⟩ := step_moves hstep
  have hi := moved_callers_self t i c
  have hothers : ∀ {j}, j ≠ i → (t.moved i c).callers j = s.callers j := hmoves.others
  refine ⟨?_, fun {j l current} hj => ?_, fun {j l current n f} hj => ?_, fun {n loaded} hn => ?_,
    fun {j loaded} hj => ?_⟩
  · exact hmove.every h.cache (fun _ _ _ _ hf => h.filling hf) hfaithful hfits
  · -- A step changes no container, so it is still as it was learned.
    rw [show (t.moved i c).world = t.world from rfl,
      Environment.identity_of_exhibit (hmove.exhibit hpresents l)]
    obtain hbefore | ⟨-, σ, hrun⟩ := hmay hj
    · exact h.current hbefore
    · exact Loading.identity_of_run_resolve hpresents hrun
  · by_cases hji : j = i
    · rw [hji, hi] at hj
      subst hj
      obtain ⟨rfl, -⟩ | ⟨f₀, σ, hadvance, -, hf⟩ := hmove.filling
      · trivial
      · refine hadvance.describes (h.filling hf) h.cache hfaithful.store.toHonest fun forced course hopening
          hdelivered => ?_
        subst hopening
        exact ⟨l, s.world, hpast, h.current (ho.mayRead hf id), (hpresents.delivered hdelivered).symm⟩
    · exact h.filling ((hothers hji).symm.trans hj)
  · obtain hbefore | ⟨l, current, hfilling⟩ := hmove.contents hn
    · exact h.filled hbefore
    · exact h.filling hfilling
  · by_cases hji : j = i
    · rw [hji, hi] at hj
      obtain hbefore | ⟨n, -, hfilled⟩ | ⟨l, current, n, hfilling⟩ | ⟨l, current, _, -, hfound, -, heq⟩ :=
        hmove.result hj
      · exact h.carried hbefore
      · exact h.filled hfilled
      · exact h.filling hfilling
      · cases heq
        exact h.cache.published hfound
    · exact h.carried (hothers hji ▸ hj)

theorem proceeds (h : s.Told env settings contents held past) (ho : s.Orderly)
    (hpresents : env.Presents contents) (hfaithful : env.Faithful held)
    (hfits : ∀ index : Index, index.Describes (env.Was settings contents past) →
      (Blob.encode index).length < Blob.addressable)
    (hpast : past s.world) (hstep : Proceeds env settings held (Spares env contents) s s') :
    s'.Told env settings contents held past := by
  cases hstep with
  | move i hstep => exact h.move ho hpresents hfaithful hfits hpast hstep
  | cancel k => exact ⟨h.cache, h.current, h.filling, h.filled, h.carried⟩
  | change hspares hheld =>
    refine ⟨h.cache.weaken (fun _ _ hfound => hfound) hheld, fun {i l identity} hi => ?_, h.filling, h.filled,
      h.carried⟩
    have hi : s.MayRead i l identity := hi
    exact (Environment.identity_of_exhibit (hspares i l identity hi)).trans (h.current hi)

end Told

variable [DecidableEq ι] {worlds : List ω} {past : ω → Prop} {may : Crowd ι ω → ω → Prop}

theorem Proceeds.step (h : Proceeds env settings held may s s') : Step env settings s s' := by
  cases h with
  | move i h => exact .move i h
  | cancel k => exact .cancel s k
  | change => exact .change s _

omit [DecidableEq ι] in
theorem Record.world_mem {R : Crowd ι ω → Crowd ι ω → Prop} (h : Record R s worlds s') : s'.world ∈ worlds := by
  cases h <;> exact List.mem_cons_self ..

omit [DecidableEq ι] in
theorem Fresh.told (h : s.Fresh) (hcache : s.cache.Every (Index.Describes (env.Was settings contents past))
    held s.world) : s.Told env settings contents held past := by
  refine ⟨hcache, fun {i l identity} hi => ?_, fun {i l current n f} hi => ?_, fun {n loaded} hn => ?_,
    fun {i loaded} hi => ?_⟩
  · have hreads := hi.1
    obtain ⟨l', hl⟩ | ⟨l', hl⟩ | ⟨l', hl⟩ := h.callers i <;> rw [hl] at hreads <;> nomatch hreads
  · obtain ⟨l', hl⟩ | ⟨l', hl⟩ | ⟨l', hl⟩ := h.callers i <;> nomatch hl.symm.trans hi
  · nomatch (h.contents n).symm.trans hn
  · obtain ⟨l', hl⟩ | ⟨l', hl⟩ | ⟨l', hl⟩ := h.callers i <;> rw [hl] at hi <;> nomatch hi

theorem Record.told (hpresents : env.Presents contents) (hfaithful : env.Faithful held) (hfresh : s.Fresh)
    (hbefore : s.cache.Every (Index.Describes (env.Was settings contents past)) held s.world)
    (hrun : Record (Proceeds env settings held (Spares env contents)) s worlds s')
    (hfits : ∀ index : Index, index.Describes (env.Was settings contents fun w => past w ∨ w ∈ worlds) →
      (Blob.encode index).length < Blob.addressable) :
    s'.Told env settings contents held (fun w => past w ∨ w ∈ worlds) ∧ s'.Orderly := by
  induction hrun with
  | start => exact ⟨(hfresh.told hbefore).mono fun _ => .inl, hfresh.orderly⟩
  | @step worlds t t' hrun hstep ih =>
    have hmore : ∀ w, past w ∨ w ∈ worlds → past w ∨ w ∈ t'.world :: worlds :=
      fun _ => Or.imp_right (List.mem_cons_of_mem _)
    have hfits' : ∀ index : Index, index.Describes (env.Was settings contents fun w => past w ∨ w ∈ worlds) →
        (Blob.encode index).length < Blob.addressable :=
      fun index hindex => hfits index (hindex.mono fun _ _ hwas => hwas.mono hmore)
    obtain ⟨htold, ho⟩ := ih hfits'
    have htold' := htold.proceeds ho hpresents hfaithful hfits' (.inr hrun.world_mem) hstep
    exact ⟨htold'.mono hmore, ho.step hstep.step⟩

/-- If no container changes that somebody may still read, then every index in memory or in the store, and every
index that is returned, is the scan of a container that had its identity. If only one thing ever had this
identity, it is the scan of that. -/
theorem indexes_describe (hpresents : env.Presents contents) (hfaithful : env.Faithful held)
    (hfresh : s.Fresh)
    (hbefore : s.cache.Every (Index.Describes (env.Was settings contents past)) held s.world)
    (hrun : Record (Proceeds env settings held (Spares env contents)) s worlds s')
    (hfits : ∀ identity course,
      env.Was settings contents (fun w => past w ∨ w ∈ worlds) identity course → course.failure = none →
        (Blob.encode (.ofEntries identity course.entries)).length < Blob.addressable) :
    s'.cache.Every (Index.Describes (env.Was settings contents fun w => past w ∨ w ∈ worlds)) held s'.world ∧
      ∀ i l current loaded, s'.callers i = .load l (.returned current (.ok loaded)) →
        loaded.index.Describes (env.Was settings contents fun w => past w ∨ w ∈ worlds) ∧
        ∀ course, (∀ other, env.Was settings contents (fun w => past w ∨ w ∈ worlds) loaded.index.identity other →
          other = course) → loaded.index = .ofEntries loaded.index.identity course.entries := by
  have hfits' : ∀ index : Index, index.Describes (env.Was settings contents fun w => past w ∨ w ∈ worlds) →
      (Blob.encode index).length < Blob.addressable := by
    rintro index ⟨course, hwas, hcomplete, hindex⟩
    rw [hindex]
    exact hfits _ course hwas hcomplete
  obtain ⟨htold, -⟩ := hrun.told hpresents hfaithful hfresh hbefore hfits'
  refine ⟨htold.cache, fun i l current loaded hi => ?_⟩
  have hresult : (s'.callers i).result? = some (.ok loaded) := by rw [hi]; rfl
  have hdescribes := htold.carried hresult
  refine ⟨hdescribes, fun course honly => ?_⟩
  obtain ⟨scanned, hwas, -, hindex⟩ := hdescribes
  rwa [honly scanned hwas] at hindex

/-- Turns that are played are recorded; no container changes in them. -/
theorem Record.play (hpresents : env.Presents contents)
    (h : Record (Proceeds env settings held may) s worlds t) (turns : List ι) :
    ∃ more, Record (Proceeds env settings held may) s (more ++ worlds) (t.play env settings turns) ∧
      ∀ w ∈ more, ∀ k, env.exhibit contents k w = env.exhibit contents k t.world := by
  induction turns generalizing t worlds with
  | nil => exact ⟨[], h, nofun⟩
  | cons i turns ih =>
    show ∃ more, Record _ s (more ++ worlds) (((t.step env settings i).getD t).play env settings turns) ∧ _
    cases hstep : t.step env settings i with
    | none => exact ih h
    | some t' =>
      obtain ⟨more, hmore, hsame⟩ := ih (h.step (.move i hstep))
      obtain ⟨c, u, hmove, rfl⟩ := step_moves hstep
      have hfirst : ∀ k, env.exhibit contents k u.world = env.exhibit contents k t.world :=
        hmove.exhibit hpresents
      refine ⟨more ++ [(u.moved i c).world], ?_, fun w hw k => ?_⟩
      · rw [List.append_assoc]
        exact hmore
      obtain hw | hw := List.mem_append.1 hw
      · exact (hsame w hw k).trans (hfirst k)
      · obtain rfl := List.mem_singleton.1 hw
        exact hfirst k

/-! ### An archive that changes at different times -/

/-- The archive becomes what it is at this time. -/
def showing (s : Crowd Bool ScriptedWorld) (time : UInt64) : Crowd Bool ScriptedWorld :=
  { s with world := { s.world with containers := (archiveAt time).containers } }

/-- A world with the archive as it is at one of two times. -/
def Dated (w : ScriptedWorld) : Prop :=
  ∃ time, (time = 1 ∨ time = 2) ∧ ∀ k, ScriptedWorld.environment.exhibit ScriptedWorld.listing k w =
    ScriptedWorld.environment.exhibit ScriptedWorld.listing k (archiveAt time)

/-- What the archive delivers at this time. -/
def archived (time : UInt64) : Enumeration := (archiveAt time).listing (.archive "a.jar")

/-- There is one container at each time. -/
theorem identity_archiveAt {l : Location} {time : UInt64} {identity : Identity}
    (h : ScriptedWorld.environment.identity {} ScriptedWorld.listing l (archiveAt time) = .ok identity) :
    identity = ⟨"a.jar", 9, time, none⟩ ∧ (archiveAt time).listing l = archived time := by
  have hother : l.logicalPath ≠ "a.jar" → (archiveAt time).containers.find? l.logicalPath = none :=
    fun hl => NameMap.find?_insert_of_ne _ hl _
  obtain ⟨c, hc, hstat⟩ : ∃ c, (archiveAt time).containers.find? "a.jar" = some c ∧ c.stat = ⟨9, time⟩ :=
    ⟨_, NameMap.find?_insert_self .., rfl⟩
  unfold Environment.identity at h
  simp only [ScriptedWorld.environment] at h
  by_cases hl : l.logicalPath = "a.jar"
  · rw [hl, hc] at h
    simp only [Loading.identityFrom, hstat, hl, Except.ok.injEq] at h
    refine ⟨h.symm, ?_⟩
    unfold archived ScriptedWorld.listing
    rw [hl]
    rfl
  · rw [hother hl] at h
    cases h

theorem Dated.eq_archived {past : ScriptedWorld → Prop} {identity : Identity} {course : Enumeration}
    (hpast : ∀ w, past w → Dated w)
    (hwas : ScriptedWorld.environment.Was {} ScriptedWorld.listing past identity course) :
    ∃ time, (time = 1 ∨ time = 2) ∧ identity = ⟨"a.jar", 9, time, none⟩ ∧ course = archived time := by
  obtain ⟨l, w, hw, hidentity, rfl⟩ := hwas
  obtain ⟨time, htime, hsame⟩ := hpast w hw
  rw [Environment.identity_of_exhibit (hsame l)] at hidentity
  rw [Environment.contents_of_exhibit (hsame l)]
  obtain ⟨hidentity, hcourse⟩ := identity_archiveAt hidentity
  exact ⟨time, htime, hidentity, hcourse⟩

/-- What the store beside the archive holds. -/
def inStore (w : ScriptedWorld) (key : String) : Option Bytes := w.store.entries.find? key

theorem Record.showing {may : Crowd Bool ScriptedWorld → ScriptedWorld → Prop} {s t : Crowd Bool ScriptedWorld}
    {worlds : List ScriptedWorld} {time : UInt64}
    (h : Record (Proceeds ScriptedWorld.environment {} inStore may) s worlds t)
    (hmay : may t (t.showing time).world) :
    Record (Proceeds ScriptedWorld.environment {} inStore may) s ((t.showing time).world :: worlds)
      (t.showing time) := h.step (.change hmay fun _ => .inl rfl)

theorem dated_showing {time : UInt64} (htime : time = 1 ∨ time = 2) (s : Crowd Bool ScriptedWorld) :
    Dated (s.showing time).world := ⟨time, htime, fun k => ScriptedWorld.exhibit_of_containers rfl k⟩

/-- In turns that are played the archive stays as it is. -/
theorem Record.play_dated {may : Crowd Bool ScriptedWorld → ScriptedWorld → Prop}
    {s t : Crowd Bool ScriptedWorld} {worlds : List ScriptedWorld}
    (h : Record (Proceeds ScriptedWorld.environment {} inStore may) s worlds t)
    (hdated : ∀ w ∈ worlds, Dated w) (turns : List Bool) : ∃ more,
      Record (Proceeds ScriptedWorld.environment {} inStore may) s more
        (t.play ScriptedWorld.environment {} turns) ∧ ∀ w ∈ more, Dated w := by
  obtain ⟨more, hmore, hsame⟩ := h.play ScriptedWorld.presents turns
  refine ⟨more ++ worlds, hmore, fun w hw => ?_⟩
  obtain hw | hw := List.mem_append.1 hw
  · obtain ⟨time, htime, harchive⟩ := hdated _ h.world_mem
    exact ⟨time, htime, fun k => (hsame w hw k).trans (harchive k)⟩
  · exact hdated w hw

theorem Record.showing_dated {may : Crowd Bool ScriptedWorld → ScriptedWorld → Prop}
    {s t : Crowd Bool ScriptedWorld} {worlds : List ScriptedWorld} {time : UInt64}
    (h : Record (Proceeds ScriptedWorld.environment {} inStore may) s worlds t)
    (hdated : ∀ w ∈ worlds, Dated w) (htime : time = 1 ∨ time = 2) (hmay : may t (t.showing time).world) :
    ∃ more, Record (Proceeds ScriptedWorld.environment {} inStore may) s more (t.showing time) ∧
      ∀ w ∈ more, Dated w :=
  ⟨_, h.showing hmay, List.forall_mem_cons.2 ⟨dated_showing htime t, hdated⟩⟩

theorem record_twoLoads (may : Crowd Bool ScriptedWorld → ScriptedWorld → Prop) : ∃ worlds,
    Record (Proceeds ScriptedWorld.environment {} inStore may) twoLoads worlds twoLoads ∧
      ∀ w ∈ worlds, Dated w :=
  ⟨_, .start, List.forall_mem_singleton.2 ⟨1, .inl rfl, fun _ => rfl⟩⟩

/-- One load is over. -/
def firstOver : Crowd Bool ScriptedWorld := twoLoads.play ScriptedWorld.environment {} (List.replicate 17 true)

/-- The archive changes when one load is over, and then the other begins. -/
def inTurn : Crowd Bool ScriptedWorld :=
  (firstOver.showing 2).play ScriptedWorld.environment {} (List.replicate 17 false)

theorem firstOver_spares (w : ScriptedWorld) :
    firstOver.Spares ScriptedWorld.environment ScriptedWorld.listing w := by
  have hnobody : ∀ i, (firstOver.callers i).reads?.isNone = true := by decide +kernel
  intro i l current hmay
  have hnone := hnobody i
  rw [hmay.1] at hnone
  nomatch hnone

theorem record_inTurn : ∃ worlds, Record (Proceeds ScriptedWorld.environment {} inStore
    (Spares ScriptedWorld.environment ScriptedWorld.listing)) twoLoads worlds inTurn ∧ ∀ w ∈ worlds, Dated w := by
  obtain ⟨_, hrun, hdated⟩ := record_twoLoads (Spares ScriptedWorld.environment ScriptedWorld.listing)
  obtain ⟨_, hrun, hdated⟩ := hrun.play_dated hdated (List.replicate 17 true)
  obtain ⟨_, hrun, hdated⟩ := hrun.showing_dated hdated (.inr rfl) (firstOver_spares _)
  exact hrun.play_dated hdated (List.replicate 17 false)

theorem indexes_describe_inTurn : ∃ worlds loaded,
    ScriptedWorld.environment.Presents ScriptedWorld.listing ∧ ScriptedWorld.environment.Faithful inStore ∧
      twoLoads.Fresh ∧
      twoLoads.cache.Every (Index.Describes (ScriptedWorld.environment.Was {} ScriptedWorld.listing
        fun _ => False)) inStore twoLoads.world ∧
      Record (Proceeds ScriptedWorld.environment {} inStore
        (Spares ScriptedWorld.environment ScriptedWorld.listing)) twoLoads worlds inTurn ∧
      (∀ identity course, ScriptedWorld.environment.Was {} ScriptedWorld.listing
        (fun w => False ∨ w ∈ worlds) identity course → course.failure = none →
          (Blob.encode (.ofEntries identity course.entries)).length < Blob.addressable) ∧
      inTurn.callers false =
        .load (.archive "a.jar") (.returned ⟨"a.jar", 9, 2, none⟩ (.ok loaded)) ∧
      inTurn.cache.Every (Index.Describes (ScriptedWorld.environment.Was {} ScriptedWorld.listing
        fun w => False ∨ w ∈ worlds)) inStore inTurn.world ∧
      loaded.index = .ofEntries ⟨"a.jar", 9, 2, none⟩ (archived 2).entries := by
  obtain ⟨worlds, hrun, hdated⟩ := record_inTurn
  have hwas : ∀ {identity course}, ScriptedWorld.environment.Was {} ScriptedWorld.listing
      (fun w => False ∨ w ∈ worlds) identity course →
        ∃ time, (time = 1 ∨ time = 2) ∧ identity = ⟨"a.jar", 9, time, none⟩ ∧ course = archived time :=
    Dated.eq_archived fun w hw => hdated w (hw.resolve_left id)
  have hempty : twoLoads.cache.Every (Index.Describes (ScriptedWorld.environment.Was {} ScriptedWorld.listing
      fun _ => False)) inStore twoLoads.world := ⟨nofun, nofun⟩
  have hfits : ∀ identity course, ScriptedWorld.environment.Was {} ScriptedWorld.listing
      (fun w => False ∨ w ∈ worlds) identity course → course.failure = none →
        (Blob.encode (.ofEntries identity course.entries)).length < Blob.addressable := by
    intro identity course hthere _
    obtain ⟨time, rfl | rfl, rfl, rfl⟩ := hwas hthere
    · decide +kernel
    · decide +kernel
  have hreturned : (inTurn.callers false).loaded?.map (fun x => (x.1, x.2.1, x.2.2.index.identity)) =
      some (.archive "a.jar", ⟨"a.jar", 9, 2, none⟩, ⟨"a.jar", 9, 2, none⟩) := by decide +kernel
  obtain ⟨⟨l, current, loaded⟩, hloaded, heq⟩ := Option.map_eq_some_iff.1 hreturned
  simp only [Prod.mk.injEq] at heq
  obtain ⟨rfl, rfl, hidentity⟩ := heq
  have hcaller := Caller.eq_of_loaded? hloaded
  obtain ⟨hevery, hdescribes⟩ := indexes_describe ScriptedWorld.presents ScriptedWorld.faithful twoLoads_fresh
    hempty hrun hfits
  refine ⟨worlds, loaded, ScriptedWorld.presents, ScriptedWorld.faithful, twoLoads_fresh, hempty, hrun, hfits,
    hcaller, hevery, ?_⟩
  rw [← hidentity]
  refine (hdescribes false _ _ loaded hcaller).2 (archived 2) fun other hother => ?_
  obtain ⟨time, -, htime, rfl⟩ := hwas hother
  rw [hidentity] at htime
  cases htime
  rfl

/-- One load has learned its identity when the archive changes, and reads what there is then. The archive is
what it was when the other load begins. -/
def late : Crowd Bool ScriptedWorld :=
  ((((twoLoads.play ScriptedWorld.environment {} [true]).showing 2).play
    ScriptedWorld.environment {} (List.replicate 17 true)).showing 1).play
    ScriptedWorld.environment {} (List.replicate 17 false)

theorem record_late : ∃ worlds, Record (Proceeds ScriptedWorld.environment {} inStore fun _ _ => True) twoLoads
    worlds late ∧ ∀ w ∈ worlds, Dated w := by
  obtain ⟨_, hrun, hdated⟩ := record_twoLoads fun _ _ => True
  obtain ⟨_, hrun, hdated⟩ := hrun.play_dated hdated [true]
  obtain ⟨_, hrun, hdated⟩ := hrun.showing_dated hdated (.inr rfl) trivial
  obtain ⟨_, hrun, hdated⟩ := hrun.play_dated hdated (List.replicate 17 true)
  obtain ⟨_, hrun, hdated⟩ := hrun.showing_dated hdated (.inl rfl) trivial
  exact hrun.play_dated hdated (List.replicate 17 false)

/-- What a load reads after a change has the identity from before it. The index that is in memory then is not a
scan of anything that had its identity; and it is returned when there is again what has this identity. -/
theorem late_index_describes_nothing : CacheSettings.alwaysValid {} = false ∧ twoLoads.Fresh ∧ ∃ worlds,
    Record (Proceeds ScriptedWorld.environment {} inStore fun _ _ => True) twoLoads worlds late ∧
      (∃ made, late.cache.published.find? (Location.archive "a.jar").cacheKey = some made ∧
        ¬ made.index.Describes (ScriptedWorld.environment.Was {} ScriptedWorld.listing (· ∈ worlds))) ∧
      ∃ loaded, late.callers false = .load (.archive "a.jar") (.returned ⟨"a.jar", 9, 1, none⟩ (.ok loaded)) ∧
        loaded.index ≠ .ofEntries ⟨"a.jar", 9, 1, none⟩
          (late.world.listing (.archive "a.jar")).entries := by
  obtain ⟨worlds, hrun, hdated⟩ := record_late
  refine ⟨rfl, twoLoads_fresh, worlds, hrun, ?_, ?_⟩
  · have hmade : (late.cache.published.find? (Location.archive "a.jar").cacheKey).map
        (fun x => (x.index.identity, x.index.classes.names)) =
          some (⟨"a.jar", 9, 1, none⟩, ["b.B"]) := by decide +kernel
    obtain ⟨made, hfound, heq⟩ := Option.map_eq_some_iff.1 hmade
    obtain ⟨hidentity, hnames⟩ := Prod.mk.inj heq
    refine ⟨made, hfound, fun hdescribes => ?_⟩
    obtain ⟨course, hwas, -, hscanned⟩ := hdescribes
    obtain ⟨time, -, htime, rfl⟩ := Dated.eq_archived hdated hwas
    rw [hidentity] at htime hscanned
    cases htime
    rw [hscanned] at hnames
    exact absurd hnames (by decide +kernel)
  · have hreturned : (late.callers false).loaded?.map (fun x => (x.1, x.2.1, x.2.2.index.classes.names)) =
        some (.archive "a.jar", ⟨"a.jar", 9, 1, none⟩, ["b.B"]) := by decide +kernel
    obtain ⟨⟨l, current, loaded⟩, hloaded, heq⟩ := Option.map_eq_some_iff.1 hreturned
    simp only [Prod.mk.injEq] at heq
    obtain ⟨rfl, rfl, hnames⟩ := heq
    refine ⟨loaded, Caller.eq_of_loaded? hloaded, fun hscanned => ?_⟩
    rw [hscanned] at hnames
    exact absurd hnames (by decide +kernel)

end Crowd

end ClassCatalog
