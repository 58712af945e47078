import ClassCatalog.Proofs.Cache.Keeps

/-!
# Loads that fail

`Session.Untouched`: the indexes in memory, the containers to be made anew and what the store holds
are as before. A load that fails ends so (`wp_load_untouched`), though on its way it forgets whether
its container is to be made anew: a failed renewal notes it again (`SameIndexes.restore`).
-/

namespace ClassCatalog

/-- A container that was to be made anew, or not, is so again once it is noted again. -/
theorem Cache.SameIndexes.restore {c c' : Cache} {key : String}
    (h : (c.unforce key).SameIndexes c') :
    c.SameIndexes (if c.forced.contains key then c'.force key else c') := by
  have hforced : c'.forced = c.forced.erase key := h.forced
  cases hfind : c.forced.find? key with
  | none =>
    have hflag : c.forced.contains key = false := by simp [NameMap.contains, hfind]
    have hsame : c'.forced = c.forced := by rw [hforced, NameMap.erase_of_find?_eq_none hfind]
    rw [hflag]
    exact ⟨h.published, hsame⟩
  | some flag =>
    have hflag : c.forced.contains key = true := by simp [NameMap.contains, hfind]
    have hsame : c'.forced.insert key () = c.forced := by rw [hforced, NameMap.insert_erase hfind]
    rw [hflag]
    exact ⟨h.published, hsame⟩

variable {ω σ : Type} {stored : ω → σ} {s t u : Session ω}

/-- Sessions with the same indexes in memory, the same containers to be made anew and the same in the
store. -/
structure Session.Untouched (stored : ω → σ) (s s' : Session ω) : Prop where
  indexes : s.cache.SameIndexes s'.cache
  store : stored s'.world = stored s.world

namespace Session.Untouched

theorem refl (s : Session ω) : s.Untouched stored s := ⟨.refl _, rfl⟩

theorem trans (h : s.Untouched stored t) (h' : t.Untouched stored u) : s.Untouched stored u :=
  ⟨h.indexes.trans h'.indexes, h'.store.trans h.store⟩

theorem report (h : s.Untouched stored t) (e : Event) :
    s.Untouched stored { t with cache := t.cache.report e } :=
  ⟨h.indexes.trans (.report ..), h.store⟩

end Session.Untouched

/-- Notes that a container is still to be made anew, if it was. -/
def Session.noted (s : Session ω) (key : String) (forced : Bool) : Session ω :=
  { s with cache := if forced then s.cache.force key else s.cache }

/-- The same, except that whether a container is to be made anew is `forced` and forgotten. -/
structure Session.Unflagged (stored : ω → σ) (key : String) (s : Session ω) (forced : Bool)
    (s' : Session ω) : Prop where
  flag : forced = s.cache.forced.contains key
  rest : Session.Untouched stored { s with cache := s.cache.unforce key } s'

namespace Session.Unflagged

variable {key : String} {forced : Bool}

theorem trans (h : s.Unflagged stored key forced t) (h' : t.Untouched stored u) :
    s.Unflagged stored key forced u :=
  ⟨h.flag, h.rest.trans h'⟩

theorem noted (h : s.Unflagged stored key forced t) : s.Untouched stored (t.noted key forced) := by
  rcases h with ⟨rfl, hrest⟩
  exact ⟨hrest.indexes.restore, hrest.store⟩

end Session.Unflagged

namespace Loading

variable {env : Environment ω} {settings : CacheSettings} {key : String} {l : Location}
  {current : Identity}

section

-- Reading containers leaves the store alone.
variable (hreads : ∀ l w, stored (env.enumerate l w).2 = stored w)
include hreads

theorem untouched_tolerates : ToleratesWork env (Session.Untouched stored) where
  refl := .refl
  trans := .trans
  enumerate l s := ⟨.refl _, hreads l s.world⟩
  cancel _ _ := ⟨.refl _, rfl⟩
  work _ _ _ _ _ := ⟨⟨rfl, rfl⟩, rfl⟩

/-- A failed renewal has noted that the container is still to be made anew, if it was, and nothing
else. -/
theorem wp_renew_untouched (forced : Bool) :
    wp (renew env settings key l current forced) (fun r s' => ∀ e, r = .error e →
      ∃ t, s.Untouched stored t ∧ s' = t.noted key forced) s := by
  unfold renew
  rw [wp_bind, wp_tryCatch]
  refine wp_mono ((untouched_tolerates hreads).keeps_rebuild l current s) ?_
  intro r t ht
  cases r with
  | error e =>
    rw [orElse_error]
    cases forced with
    | true => exact fun _ _ => ⟨t, ht, rfl⟩
    | false => exact fun _ _ => ⟨t, ht, rfl⟩
  | ok index =>
    rw [orElse_ok, andThen_ok]
    cases settings.disabled with
    | true => exact nofun
    | false =>
      refine (wp_bind ..).2 (wp_mono (wp_persist key index) ?_)
      rintro r t' ⟨rfl, -⟩
      exact nofun

theorem wp_fetch_untouched (forced : Bool) :
    wp (fetch env settings key l current forced) (fun r s' => ∀ e, r = .error e →
      ∃ t, s.Untouched stored t ∧ s' = t.noted key forced) s := by
  have hstore : wp (fromStore env settings key forced current)
      (fun _ t => s.Untouched stored t) s :=
    (untouched_tolerates hreads).keeps_fromStore key forced current s
  unfold fetch
  refine (wp_bind ..).2 (wp_mono (wp_and hstore (wp_fromStore key forced current)) ?_)
  rintro r t ⟨ht, ⟨found, rfl, -⟩, -⟩
  cases found with
  | ok index => exact nofun
  | error reason =>
    simp only [andThen_ok, wp_bind, wp_report]
    refine wp_mono (wp_renew_untouched hreads forced) ?_
    intro r s' hfailed e he
    obtain ⟨t', ht', hs'⟩ := hfailed e he
    exact ⟨t', (ht.report _).trans ht', hs'⟩

theorem wp_attempt_untouched :
    wp (attempt env settings key l current)
      (fun r s' => ∀ e, r = .error e → s.Untouched stored s') s := by
  unfold attempt
  rw [wp_bind, wp_get, andThen_ok, wp_bind, wp_onCache, andThen_ok, wp_bind, wp_remembered,
    andThen_ok]
  split
  next => exact nofun
  next =>
    refine wp_mono (wp_fetch_untouched hreads _) ?_
    intro r s' hfailed e he
    obtain ⟨t, ht, rfl⟩ := hfailed e he
    exact Session.Unflagged.noted ⟨rfl, ht⟩

/-- Failing again and again leaves no more of a trace. -/
theorem wp_attempts_untouched (n : Nat) :
    wp (attempts env settings key l current n)
      (fun r s' => ∀ e, r = .error e → s.Untouched stored s') s := by
  induction n generalizing s with
  | zero => exact wp_attempt_untouched hreads
  | succ n ih =>
    rw [attempts, wp_tryCatch]
    refine wp_mono (wp_attempt_untouched hreads) ?_
    intro r t hfailed
    cases r with
    | ok loaded => exact nofun
    | error e =>
      have ht := hfailed e rfl
      rw [orElse_error, wp_bind, wp_isCancelled, andThen_ok]
      split
      · refine wp_mono ih ?_
        exact fun r s' hagain e he => ht.trans (hagain e he)
      · exact fun _ _ => ht

theorem wp_load_untouched (l : Location) :
    wp (load env settings l) (fun r s' => ∀ e, r = .error e → s.Untouched stored s') s := by
  unfold load
  refine (wp_bind ..).2 (wp_mono ((untouched_tolerates hreads).keeps_resolve l s) ?_)
  intro r t ht
  cases r with
  | error e => exact fun _ _ => ht
  | ok current =>
    rw [andThen_ok, wp_bind, wp_get, andThen_ok, wp_bind, wp_remembered, andThen_ok]
    split
    next => exact nofun
    next =>
      rw [wp_bind, wp_get, andThen_ok]
      refine wp_mono (wp_attempts_untouched hreads _) ?_
      exact fun r s' hfailed e he => ht.trans (hfailed e he)

end

end Loading

end ClassCatalog
