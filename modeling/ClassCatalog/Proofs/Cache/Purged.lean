import ClassCatalog.Proofs.Cache.Faithful
import ClassCatalog.Proofs.Cache.Reading

/-!
# Indexes made since an invalidation

After an invalidation the cache has nothing for a container, or only indexes that were made since
(`Cache.Purged`); and as long as none was made since, the container is noted to be made anew
(`Cache.Invalidated`). The store may have kept what it was asked to delete: that index can come back,
but only once another was made. A load either makes an index of what the container delivers meanwhile,
or finds one that was made before (`Loading.Ends`).
-/

namespace ClassCatalog

variable {ω : Type} {held : ω → String → Option Bytes}

/-- An index is another one, or what the blob of the other is read as. -/
def Index.HasCopy (index copy : Index) : Prop :=
  copy = index ∨ Blob.decode (Blob.encode index) = .ok copy

/-- What enumerating containers can make of a world. -/
inductive Environment.Reads (env : Environment ω) (w : ω) : ω → Prop
  | refl : Reads env w w
  | enumerate {w' : ω} (h : Reads env w w') (l : Location) : Reads env w (env.enumerate l w').2

theorem Environment.Reads.trans {env : Environment ω} {w w' w'' : ω} (h : env.Reads w w')
    (h' : env.Reads w' w'') : env.Reads w w'' := by
  induction h' with
  | refl => exact h
  | enumerate _ l ih => exact ih.enumerate l

/-- An index is made of all that a container delivers, in the world `w` or after enumerations only. -/
def Environment.Scanned (env : Environment ω) (l : Location) (w : ω) (index : Index) : Prop :=
  ∃ w' course, env.Reads w w' ∧ (env.enumerate l w').1 = .delivered course ∧ course.failure = none ∧
    index = .ofEntries index.identity course.entries

namespace Cache

/-- Whether, after the first `n` events, the last answer of a load was that it had to read the
container. -/
def missedSince (n : Nat) (c : Cache) : Bool :=
  (((c.events.drop n).filter fun e => e.isHit || e.isMiss).getLast?.map Event.isMiss).getD false

variable {c : Cache} {n : Nat}

theorem missedSince_report_miss (hn : n ≤ c.events.length) (path : String) (reason : MissReason) :
    (c.report (.miss path reason)).missedSince n = true := by
  simp [missedSince, report, List.drop_append_of_le_length hn, Event.isHit, Event.isMiss]

theorem missedSince_report_hit (hn : n ≤ c.events.length) (path : String) (fromStore : Bool) :
    (c.report (.hit path fromStore)).missedSince n = false := by
  simp [missedSince, report, List.drop_append_of_le_length hn, Event.isHit, Event.isMiss]

theorem missedSince_append (hn : n ≤ c.events.length) {events : List Event}
    (h : ∀ e ∈ events, e.IsQuiet) :
    { c with events := c.events ++ events }.missedSince n = c.missedSince n := by
  have hnone : (events.filter fun e => e.isHit || e.isMiss) = [] :=
    List.filter_eq_nil_iff.2 fun e he => by simp [(h e he).1, (h e he).2]
  simp [missedSince, List.drop_append_of_le_length hn, hnone]

/-- What the cache has under a key was made since an invalidation, except that the store may have kept
what was left behind. -/
structure Purged (settings : CacheSettings) (held : ω → String → Option Bytes) (key : String)
    (serials : Nat) (left made : Index → Prop) (c : Cache) (w : ω) : Prop where
  serials_le : serials ≤ c.nextSerial
  published : ∀ {loaded}, c.published.find? key = some loaded → serials ≤ loaded.serial ∧
    (∃ i, made i) ∧ (made loaded.index ∨ left loaded.index)
  stored : settings.disabled = false → ∀ {bytes index}, held w key = some bytes →
    Blob.decode bytes = .ok index → made index ∨ left index

/-- And as long as no index was made, one is to be made. -/
structure Invalidated (settings : CacheSettings) (held : ω → String → Option Bytes) (key : String)
    (serials : Nat) (left made : Index → Prop) (c : Cache) (w : ω) : Prop
    extends c.Purged settings held key serials left made w where
  owed : c.forced.contains key = true ∨ ∃ i, made i

end Cache

section

variable {env : Environment ω} {settings : CacheSettings} {key : String} {serials : Nat}
  {left made made' : Index → Prop} {s s' : Session ω}

namespace Cache.Purged

/-- What does not count for it. -/
theorem congr {c c' : Cache} {w : ω} (h : c.Purged settings held key serials left made w)
    (hserials : c'.nextSerial = c.nextSerial) (hpublished : c'.published = c.published) :
    c'.Purged settings held key serials left made w :=
  ⟨hserials ▸ h.serials_le, fun hfound => h.published (hpublished ▸ hfound), h.stored⟩

theorem frame (h : s.cache.Purged settings held key serials left made s.world)
    (hframe : s.Frames held key s') :
    s'.cache.Purged settings held key serials left made s'.world := by
  refine ⟨Nat.le_trans h.serials_le hframe.serials, fun hfound => h.published (hframe.published ▸ hfound),
    fun henabled {bytes index} hbytes hdecode => ?_⟩
  obtain hsame | hnone := hframe.held
  · exact h.stored henabled (hsame ▸ hbytes) hdecode
  · nomatch hnone.symm.trans hbytes

theorem mono {c : Cache} {w : ω} (h : c.Purged settings held key serials left made w)
    (hmade : ∀ i, made i → made' i) : c.Purged settings held key serials left made' w := by
  refine ⟨h.serials_le, fun hfound => ?_, fun henabled {bytes index} hbytes hdecode => ?_⟩
  · obtain ⟨hserial, ⟨i, hi⟩, horigin⟩ := h.published hfound
    exact ⟨hserial, ⟨i, hmade i hi⟩, horigin.imp_left (hmade _)⟩
  · exact (h.stored henabled hbytes hdecode).imp_left (hmade _)

/-- An index is put into memory. -/
theorem publish {c : Cache} {w : ω} {index : Index}
    (h : c.Purged settings held key serials left made w) (hmade : ∃ i, made i)
    (hindex : made index ∨ left index) :
    (c.publish key index).2.Purged settings held key serials left made w := by
  refine ⟨Nat.le_succ_of_le h.serials_le, fun {loaded} hfound => ?_, h.stored⟩
  have hfound : (c.published.insert key ⟨index, c.nextSerial⟩).find? key = some loaded := hfound
  rw [NameMap.find?_insert_self] at hfound
  obtain rfl := Option.some.inj hfound
  exact ⟨h.serials_le, hmade, hindex⟩

/-- An index that was made is put into the store. -/
theorem put {store : Store ω} {c : Cache} {w : ω} {index : Index}
    (h : c.Purged settings held key serials left made w) (hstore : store.Faithful held)
    (hcopies : ∀ i, index.HasCopy i → made i) :
    c.Purged settings held key serials left made (store.put key (Blob.encode index) w).2 := by
  refine ⟨h.serials_le, h.published, fun henabled {bytes i} hbytes hdecode => ?_⟩
  obtain hsame | hnone | hput := hstore.put key (Blob.encode index) w key
  · exact h.stored henabled (hsame ▸ hbytes) hdecode
  · nomatch hnone.symm.trans hbytes
  · obtain rfl := Option.some.inj (hput.symm.trans hbytes)
    exact .inl (hcopies i (.inr hdecode))

end Cache.Purged

theorem Cache.Invalidated.frame
    (h : s.cache.Invalidated settings held key serials left made s.world)
    (hframe : s.Frames held key s') :
    s'.cache.Invalidated settings held key serials left made s'.world :=
  ⟨h.toPurged.frame hframe, hframe.forced ▸ h.owed⟩

/-- Sessions that have the same for a key and have answered the same: there was nothing but work. -/
structure Session.Resumes (env : Environment ω) (held : ω → String → Option Bytes) (key : String)
    (s s' : Session ω) : Prop extends s.Frames held key s' where
  reads : env.Reads s.world s'.world
  missed {n : Nat} (hn : n ≤ s.cache.events.length) : s'.cache.missedSince n = s.cache.missedSince n

/-- A session that one who began in another is in, having enumerated containers only. -/
structure Session.Reached (env : Environment ω) (s₀ s : Session ω) : Prop where
  events : s₀.cache.events.length ≤ s.cache.events.length
  reads : env.Reads s₀.world s.world

namespace Session.Reached

variable {s₀ : Session ω}

theorem refl (s : Session ω) : s.Reached env s := ⟨Nat.le_refl _, .refl⟩

theorem resume (h : s₀.Reached env s) (hresumes : s.Resumes env held key s') : s₀.Reached env s' :=
  ⟨Nat.le_trans h.events hresumes.events, h.reads.trans hresumes.reads⟩

theorem report (h : s₀.Reached env s) (e : Event) :
    s₀.Reached env { s with cache := s.cache.report e } :=
  ⟨Nat.le_trans h.events (List.sublist_append_left ..).length_le, h.reads⟩

end Session.Reached

namespace Loading

/-- How a load of an invalidated container ends: it fails, it has made an index anew, or it has found
one; and then one was made before. -/
inductive Ends (env : Environment ω) (settings : CacheSettings) (held : ω → String → Option Bytes)
    (key : String) (serials : Nat) (left made : Index → Prop) (l : Location) (s₀ : Session ω) :
    Except ScanError Loaded → Session ω → Prop
  | failed {e : ScanError} {s : Session ω} (hreached : s₀.Reached env s)
      (h : s.cache.Invalidated settings held key serials left made s.world) :
      Ends env settings held key serials left made l s₀ (.error e) s
  | renewed {loaded : Loaded} {s : Session ω} (hserial : serials ≤ loaded.serial)
      (hmissed : s.cache.missedSince s₀.cache.events.length = true)
      (hscanned : env.Scanned l s₀.world loaded.index)
      (h : s.cache.Purged settings held key serials left
        (fun i => made i ∨ loaded.index.HasCopy i) s.world) :
      Ends env settings held key serials left made l s₀ (.ok loaded) s
  | found {loaded : Loaded} {s : Session ω} (hserial : serials ≤ loaded.serial)
      (hmissed : s.cache.missedSince s₀.cache.events.length = false)
      (h : s.cache.Purged settings held key serials left made s.world) (hmade : ∃ i, made i)
      (hindex : made loaded.index ∨ left loaded.index) :
      Ends env settings held key serials left made l s₀ (.ok loaded) s

variable {l : Location} {current : Identity} {s₀ : Session ω}

theorem resumes_tolerates (henv : env.Faithful held) (key : String) :
    ToleratesWork env (Session.Resumes env held key) where
  refl s := ⟨.refl s, .refl, fun _ => rfl⟩
  trans h h' := ⟨h.1.trans h'.1, h.reads.trans h'.reads,
    fun hn => (h'.missed (Nat.le_trans hn h.events)).trans (h.missed hn)⟩
  enumerate l s := ⟨(frames_tolerates henv key).enumerate l s, Environment.Reads.refl.enumerate l,
    fun _ => rfl⟩
  cancel s cancelled := ⟨(frames_tolerates henv key).cancel s cancelled, .refl, fun _ => rfl⟩
  work s calls passes events h := ⟨(frames_tolerates henv key).work s calls passes events h, .refl,
    fun hn => Cache.missedSince_append
      (c := { s.cache with decodeCalls := calls, decodePasses := passes }) hn h⟩

theorem wp_renew_purged (henv : env.Faithful held) {forced : Bool}
    (h : s.cache.Purged settings held key serials left made s.world)
    (howed : forced = true ∨ ∃ i, made i) (hreached : s₀.Reached env s)
    (hmissed : s.cache.missedSince s₀.cache.events.length = true) :
    wp (renew env settings key l current forced)
      (Ends env settings held key serials left made l s₀) s := by
  unfold renew
  rw [wp_bind, wp_tryCatch]
  refine wp_mono (wp_and ((resumes_tolerates henv key).keeps_rebuild l current s)
    (wp_rebuild_scanned l current)) ?_
  rintro r s' ⟨hresumes, hscanned⟩
  have h' := h.frame hresumes.toFrames
  have hreached' := hreached.resume hresumes
  have hmissed' : s'.cache.missedSince s₀.cache.events.length = true :=
    (hresumes.missed hreached.events).trans hmissed
  cases r with
  | error e =>
    rw [orElse_error]
    cases forced with
    | true =>
      exact .failed ⟨hreached'.events, hreached'.reads⟩
        ⟨h'.congr rfl rfl, .inl Cache.contains_force_self⟩
    | false => exact .failed hreached' ⟨h', .inr (howed.resolve_left nofun)⟩
  | ok index =>
    have hmade : s'.cache.Purged settings held key serials left
        (fun i => made i ∨ index.HasCopy i) s'.world := h'.mono fun _ => .inl
    have hcopy : index.HasCopy index := .inl rfl
    obtain ⟨course, hdelivered, hcomplete, hindex⟩ := hscanned index rfl
    have hscanned : env.Scanned l s₀.world index := by
      refine ⟨s.world, course, hreached.reads, hdelivered, hcomplete, ?_⟩
      rw [hindex, Index.ofEntries_identity]
    rw [orElse_ok, andThen_ok]
    cases settings.disabled with
    | true =>
      exact .renewed hmade.serials_le hmissed' hscanned
        (hmade.publish ⟨index, .inr hcopy⟩ (.inl (.inr hcopy)))
    | false =>
      refine (wp_bind ..).2 (wp_mono (wp_persist_quiet key index) ?_)
      rintro r s'' ⟨rfl, events, hquiet, rfl⟩
      refine .renewed hmade.serials_le
        ((Cache.missedSince_append hreached'.events hquiet).trans hmissed') hscanned ?_
      have hput : { s'.cache with events := s'.cache.events ++ events }.Purged settings held key serials
          left (fun i => made i ∨ index.HasCopy i) (env.store.put key (Blob.encode index) s'.world).2 :=
        (hmade.put henv.store fun _ => .inr).congr rfl rfl
      exact hput.publish ⟨index, .inr hcopy⟩ (.inl (.inr hcopy))

theorem wp_fetch_purged (henv : env.Faithful held) {forced : Bool}
    (h : s.cache.Purged settings held key serials left made s.world)
    (howed : forced = true ∨ ∃ i, made i) (hreached : s₀.Reached env s) :
    wp (fetch env settings key l current forced)
      (Ends env settings held key serials left made l s₀) s := by
  have hresumes : wp (fromStore env settings key forced current)
      (fun _ s' => s.Resumes env held key s') s :=
    (resumes_tolerates henv key).keeps_fromStore key forced current s
  unfold fetch
  refine (wp_bind ..).2 (wp_mono (wp_and hresumes (wp_fromStore key forced current)) ?_)
  rintro r s' ⟨hresumes, ⟨stored, rfl, hstored⟩, -, -, -⟩
  have h' := h.frame hresumes.toFrames
  have hreached' := hreached.resume hresumes
  cases stored with
  | error reason =>
    exact wp_renew_purged henv (h'.congr rfl rfl) howed (hreached'.report _)
      (Cache.missedSince_report_miss hreached'.events ..)
  | ok index =>
    obtain ⟨rfl, henabled, -, hread⟩ := hstored index rfl
    obtain ⟨bytes, hget, hdecode⟩ := readStored_eq_ok.1 hread
    have hmade : ∃ i, made i := howed.resolve_left nofun
    have hindex := h.stored henabled (henv.store.get hget) hdecode
    have hreported : (s'.cache.report (.hit current.path true)).Purged settings held key serials left
        made s'.world := h'.congr rfl rfl
    rw [andThen_ok, wp_bind, wp_report, andThen_ok, wp_publish]
    exact .found h'.serials_le (Cache.missedSince_report_hit hreached'.events ..)
      (hreported.publish hmade hindex) hmade hindex

/-- An index in memory is one that was made since, unless one is still to be made. -/
theorem ends_of_remembered {forced : Bool} {loaded : Loaded} {path : String}
    (h : s.cache.Purged settings held key serials left made s.world) (hreached : s₀.Reached env s)
    (hfound : (if forced then none else (s.cache.published.find? key).filter fun loaded =>
      accepts settings loaded.index.identity current) = some loaded) :
    Ends env settings held key serials left made l s₀ (.ok loaded)
      { s with cache := s.cache.report (.hit path false) } := by
  cases forced with
  | true => nomatch hfound
  | false =>
    obtain ⟨hfind, -⟩ := Option.filter_eq_some_iff.1 hfound
    obtain ⟨hserial, hmade, hindex⟩ := h.published hfind
    exact .found hserial (Cache.missedSince_report_hit hreached.events ..) (h.congr rfl rfl) hmade hindex

theorem wp_attempt_invalidated (henv : env.Faithful held)
    (h : s.cache.Invalidated settings held key serials left made s.world) (hreached : s₀.Reached env s) :
    wp (attempt env settings key l current) (Ends env settings held key serials left made l s₀) s := by
  unfold attempt
  simp only [wp_bind, wp_get, andThen_ok, wp_onCache, wp_remembered]
  have h' : (s.cache.unforce key).Purged settings held key serials left made s.world :=
    h.toPurged.congr rfl rfl
  have hreached' : s₀.Reached env { s with cache := s.cache.unforce key } :=
    ⟨hreached.events, hreached.reads⟩
  cases hfound : (if s.cache.forced.contains key = true then none else _ : Option Loaded) with
  | some loaded => exact ends_of_remembered h' hreached' hfound
  | none => exact wp_fetch_purged henv h' h.owed hreached'

theorem wp_attempts_invalidated (henv : env.Faithful held) (pending : Nat)
    (h : s.cache.Invalidated settings held key serials left made s.world) (hreached : s₀.Reached env s) :
    wp (attempts env settings key l current pending)
      (Ends env settings held key serials left made l s₀) s := by
  induction pending generalizing s with
  | zero => exact wp_attempt_invalidated henv h hreached
  | succ pending ih =>
    refine (wp_tryCatch ..).2 (wp_mono (wp_attempt_invalidated henv h hreached) fun r s' hends => ?_)
    cases hends with
    | renewed hserial hmissed hscanned h' => exact .renewed hserial hmissed hscanned h'
    | found hserial hmissed h' hmade hindex => exact .found hserial hmissed h' hmade hindex
    | failed hreached' h' =>
      rw [orElse_error, wp_bind, wp_isCancelled, andThen_ok]
      split
      · exact ih h' hreached'
      · exact .failed hreached' h'

/-- What one load of an invalidated container does. -/
theorem wp_load_invalidated (henv : env.Faithful held)
    (h : s.cache.Invalidated settings held l.cacheKey serials left made s.world) :
    wp (load env settings l) (Ends env settings held l.cacheKey serials left made l s) s := by
  unfold load
  refine (wp_bind ..).2 (wp_mono ((resumes_tolerates henv l.cacheKey).keeps_resolve l s)
    fun r s' hresumes => ?_)
  have h' := h.frame hresumes.toFrames
  have hreached := (Session.Reached.refl s).resume hresumes
  cases r with
  | error e => exact .failed hreached h'
  | ok current =>
    simp only [andThen_ok, wp_bind, wp_get, wp_remembered]
    cases hfound : (if s'.cache.forced.contains l.cacheKey = true then none else _ : Option Loaded) with
    | some loaded => exact ends_of_remembered h'.toPurged hreached hfound
    | none => exact wp_attempts_invalidated henv _ h' hreached

end Loading

end

end ClassCatalog
