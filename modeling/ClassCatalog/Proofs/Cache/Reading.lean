import ClassCatalog.Proofs.Cache.Loading

/-!
# What one reading of a container does

A container is read in one pass over what it delivers (`Loading.Pass`): every entry is decoded, up to the
first one behind a request to cancel. Only who has been asked to cancel fails with it.
-/

namespace ClassCatalog

namespace Scan

variable {ds : List Delivery} {s : Scan}

/-- Who has not been asked to cancel at the end has never been. -/
theorem running_of_run (h : (run ds s).cancelled = false) :
    s.cancelled = false ∧ ds.contains .cancel = false := by
  induction ds generalizing s with
  | nil => exact ⟨h, rfl⟩
  | cons d ds ih =>
    cases d with
    | cancel => exact absurd (ih h).1.symm Bool.false_ne_true
    | entry e =>
      cases hs : s.cancelled with
      | true =>
        rw [run, if_pos hs] at h
        exact absurd (h.symm.trans hs) Bool.false_ne_true
      | false =>
        rw [run, if_neg (by simp [hs])] at h
        exact ⟨rfl, by simpa using (ih h).2⟩

theorem cancelled_of_stopped (h : (run ds s).stopped = true) (hs : s.stopped = false) :
    (run ds s).cancelled = true := by
  induction ds generalizing s with
  | nil => exact absurd (hs.symm.trans h) Bool.false_ne_true
  | cons d ds ih =>
    cases d with
    | cancel => exact ih h hs
    | entry e =>
      unfold run at h ⊢
      split
      next hcancelled => exact hcancelled
      next hrunning =>
        rw [if_neg hrunning] at h
        exact ih h hs

theorem decoded_run_le (ds : List Delivery) (s : Scan) :
    (run ds s).decoded ≤ s.decoded + (Enumeration.mk ds none).entries.length := by
  induction ds generalizing s with
  | nil => exact Nat.le_refl _
  | cons d ds ih =>
    cases d with
    | cancel => exact ih _
    | entry e =>
      unfold run
      split
      · exact Nat.le_add_right ..
      · refine Nat.le_trans (ih _) ?_
        simp only [Enumeration.entries, List.filterMap_cons, List.length_cons]
        omega

/-- Without requests to cancel every entry is decoded. -/
theorem decoded_of_undisturbed (h : ds.contains .cancel = false) (hs : s.cancelled = false) :
    (run ds s).decoded = s.decoded + (Enumeration.mk ds none).entries.length := by
  induction ds generalizing s with
  | nil => rfl
  | cons d ds ih =>
    cases d with
    | cancel => simp at h
    | entry e =>
      have hrest : ds.contains .cancel = false := by simpa using h
      rw [run, if_neg (by simp [hs])]
      have hdecoded := @ih { s with
        index := (s.index.take e).1, decoded := s.decoded + 1, events := s.events ++ (s.index.take e).2 }
        hrest hs
      rw [hdecoded]
      simp only [Enumeration.entries, List.filterMap_cons, List.length_cons]
      omega

end Scan

namespace Loading

variable {ω : Type} {env : Environment ω} {l : Location} {current : Identity} {course : Enumeration}
  {s : Session ω}

/-- A container was read once: no more was decoded than it delivers, and for an index all of it was. -/
structure Pass (course : Enumeration) (current : Identity) (s : Session ω) (r : Except ScanError Index)
    (s' : Session ω) : Prop where
  passes : s'.cache.decodePasses = s.cache.decodePasses + 1
  calls : s'.cache.decodeCalls ≤ s.cache.decodeCalls + course.entries.length
  whole {index : Index} : r = .ok index → course.failure = none ∧ index = .ofEntries current course.entries ∧
    s'.cache.decodeCalls = s.cache.decodeCalls + course.entries.length
  own {path : String} : r = .error (.cancelled path) → s'.cancelled = true

theorem Pass.report {r : Except ScanError Index} {s' : Session ω} (h : Pass course current s r s')
    (e : Event) : Pass course current s r { s' with cache := s'.cache.report e } :=
  ⟨h.passes, h.calls, h.whole, h.own⟩

theorem Pass.of_cancelled {path : String} {s' : Session ω}
    (hpasses : s'.cache.decodePasses = s.cache.decodePasses + 1)
    (hcalls : s'.cache.decodeCalls ≤ s.cache.decodeCalls + course.entries.length) (hmine : s'.cancelled = true) :
    Pass course current s (.error (.cancelled path)) s' := ⟨hpasses, hcalls, nofun, fun _ => hmine⟩

theorem Pass.of_unreadable {path reason : String} {s' : Session ω}
    (hpasses : s'.cache.decodePasses = s.cache.decodePasses + 1)
    (hcalls : s'.cache.decodeCalls ≤ s.cache.decodeCalls + course.entries.length) :
    Pass course current s (.error (.containerUnreadable path reason)) s' := ⟨hpasses, hcalls, nofun, nofun⟩

theorem wp_enumerate_interrupted {w : ω} {Q : Except ScanError Enumeration → Session ω → Prop}
    (h : (env.enumerate l w).1 = .interrupted) (hs : s.world = w) :
    wp (enumerate env l) Q s ↔
      Q (.error (.cancelled l.logicalPath)) { s with world := (env.enumerate l w).2 } := by
  subst hs
  unfold enumerate
  simp only [wp_bind, wp_get, andThen_ok, h, wp_set, wp_throw]

theorem wp_rebuild_pass (h : (env.enumerate l s.world).1 = .delivered course) :
    wp (rebuild env l current) (Pass course current s) s := by
  unfold rebuild
  simp only [wp_bind, wp_onCache, andThen_ok, wp_enumerate_delivered h, wp_get, wp_set]
  generalize hscan : Scan.run course.deliveries _ = scan
  have hcalls : scan.decoded ≤ course.entries.length := by
    rw [← hscan]
    refine Nat.le_trans (Scan.decoded_run_le ..) (Nat.le_of_eq (Nat.zero_add _))
  have hadded := Nat.add_le_add_left hcalls s.cache.decodeCalls
  cases hstopped : scan.stopped with
  | true =>
    have hcancelled : scan.cancelled = true := hscan ▸ Scan.cancelled_of_stopped (hscan ▸ hstopped) rfl
    exact .of_cancelled rfl hadded hcancelled
  | false =>
    cases hfailure : course.failure with
    | some reason => exact .of_unreadable rfl hadded
    | none =>
      cases hcancelled : scan.cancelled with
      | true => exact .of_cancelled rfl hadded rfl
      | false =>
        obtain ⟨hrunning, hundisturbed⟩ := Scan.running_of_run ((congrArg _ hscan).trans hcancelled)
        have hindex : scan.index = .ofEntries current course.entries :=
          hscan ▸ (Scan.run_of_undisturbed hundisturbed hrunning).1
        have hdecoded : scan.decoded = course.entries.length := by
          rw [← hscan, Scan.decoded_of_undisturbed hundisturbed hrunning]
          exact Nat.zero_add _
        have hread : Pass course current s (.ok scan.index) ⟨{ s.cache with
            decodePasses := s.cache.decodePasses + 1
            decodeCalls := s.cache.decodeCalls + scan.decoded
            events := s.cache.events ++ scan.events }, (env.enumerate l s.world).2, scan.cancelled⟩ := by
          refine ⟨rfl, hadded, fun {index} hok => ⟨hfailure, ?_, ?_⟩, fun hown => ?_⟩
          · rw [← Except.ok.inj hok, hindex]
          · exact congrArg _ hdecoded
          · cases hown
        rw [hcancelled] at hread
        cases scan.index.incomplete with
        | true => exact hread.report _
        | false => exact hread

/-- Also a reading that is interrupted counts as one. -/
theorem wp_rebuild_passes (l : Location) (current : Identity) :
    wp (rebuild env l current) (fun _ s' => s'.cache.decodePasses = s.cache.decodePasses + 1) s := by
  cases henumerate : (env.enumerate l s.world).1 with
  | delivered course => exact wp_mono (wp_rebuild_pass henumerate) fun _ _ hpass => hpass.passes
  | interrupted =>
    unfold rebuild
    simp only [wp_bind, wp_onCache, andThen_ok, wp_enumerate_interrupted henumerate, andThen_error]

/-- An index that is made anew is made of what the container delivers. -/
theorem wp_rebuild_scanned (l : Location) (current : Identity) :
    wp (rebuild env l current) (fun r _ => ∀ index, r = .ok index → ∃ course,
      (env.enumerate l s.world).1 = .delivered course ∧ course.failure = none ∧
        index = .ofEntries current course.entries) s := by
  cases henumerate : (env.enumerate l s.world).1 with
  | delivered course =>
    refine wp_mono (wp_rebuild_pass henumerate) fun r s' hpass index hok => ?_
    obtain ⟨hfailure, hindex, -⟩ := hpass.whole hok
    exact ⟨course, rfl, hfailure, hindex⟩
  | interrupted =>
    unfold rebuild enumerate
    simp only [wp_bind, wp_onCache, andThen_ok, wp_get, henumerate, wp_set, wp_throw, andThen_error]
    intro index hok
    cases hok

end Loading

end ClassCatalog
