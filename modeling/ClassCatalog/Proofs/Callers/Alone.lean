import ClassCatalog.Engine.SideBySide
import ClassCatalog.Proofs.Callers.Cells

/-!
# A load that nobody interferes with

What a filling has yet to do is a computation (`Filling.rest`), and a step of it is a first part of that.
So a load whose turns are not interrupted by those of others comes to what `Loading.load` comes to.
-/

namespace ClassCatalog

/-- What was decoded and reported before makes no difference to a scan. -/
theorem Scan.run_prepend (ds : List Delivery) (decoded : Nat) (events : List Event) (s : Scan) :
    run ds { s with decoded := decoded + s.decoded, events := events ++ s.events } =
      { run ds s with
        decoded := decoded + (run ds s).decoded
        events := events ++ (run ds s).events } := by
  induction ds generalizing s with
  | nil => rfl
  | cons d ds ih =>
    cases d with
    | cancel => exact ih { s with cancelled := true }
    | entry e =>
      unfold run
      split
      · rfl
      · simp only [Nat.add_assoc, List.append_assoc]
        exact ih { s with
          index := (s.index.take e).1, decoded := s.decoded + 1, events := s.events ++ (s.index.take e).2 }

namespace Loading

variable {ω : Type} {env : Environment ω} {settings : CacheSettings} {s : Session ω}

theorem wp_recollect {key : String} {forced : Bool} {current : Identity} {p : Loading ω Loaded}
    {Q : Except ScanError Loaded → Session ω → Prop} :
    wp (recollect settings key forced current) (andThen (fun hit =>
        match hit with
        | some loaded => pure loaded
        | none => p) Q) s ↔
      wp (remembered settings key forced current >>= fun hit =>
        match hit with
        | some loaded => do
          report (.hit current.path false)
          return loaded
        | none => p) Q s := by
  simp only [recollect, wp_bind, wp_remembered, andThen_ok]
  cases (if forced then none else _ : Option Loaded) with
  | some loaded => exact Iff.rfl
  | none => exact Iff.rfl

/-- Takes what is left of an enumeration into an index. -/
def readOn (l : Location) (current : Identity) (failure : Option String) :
    List Delivery → Index → Loading ω Index
  | [], index => closeContainer l current failure index
  | d :: rest, index => do
    let index ← takeDelivery current index d
    readOn l current failure rest index

/-- The index that a scan has come to. -/
def scanned (l : Location) (current : Identity) (failure : Option String) (scan : Scan) :
    Loading ω Index := do
  modify fun s => { s with
    cancelled := scan.cancelled
    cache := { s.cache with
      decodeCalls := s.cache.decodeCalls + scan.decoded
      events := s.cache.events ++ scan.events } }
  if scan.stopped then throw (.cancelled current.path)
  closeContainer l current failure scan.index

theorem wp_readOn (l : Location) (current : Identity) (failure : Option String) (ds : List Delivery)
    (index : Index) {Q : Except ScanError Index → Session ω → Prop} :
    wp (readOn l current failure ds index) Q s ↔
      wp (scanned l current failure (Scan.run ds { index, cancelled := s.cancelled })) Q s := by
  induction ds generalizing index s with
  | nil =>
    simp only [readOn, Scan.run, scanned, wp_bind, wp_modify, andThen_ok, List.append_nil, Nat.add_zero]
    exact Iff.rfl
  | cons d ds ih =>
    simp only [readOn, takeDelivery, wp_bind, wp_get, andThen_ok, wp_set]
    cases d with
    | cancel =>
      simp only [Scan.run, List.append_nil, Nat.add_zero]
      exact ih index
    | entry e =>
      cases hcancelled : s.cancelled with
      | true =>
        simp only [Scan.run, if_true, scanned, wp_bind, wp_modify, andThen_ok, wp_throw, andThen_error]
      | false =>
        have hrun := Scan.run_prepend ds 1 (index.take e).2 { index := (index.take e).1 }
        simp only [Scan.run, Bool.false_eq_true, if_false, List.nil_append, Nat.zero_add, wp_pure,
          andThen_ok]
        rw [ih (index.take e).1]
        simp only [Nat.add_zero, List.append_nil] at hrun
        simp only [scanned, wp_bind, wp_modify, andThen_ok, hrun, Nat.add_assoc, List.append_assoc]

/-- To make an index anew is to begin to read the container and to read on. -/
theorem wp_rebuild_readOn (l : Location) (current : Identity)
    {Q : Except ScanError Index → Session ω → Prop} :
    wp (rebuild env l current) Q s ↔ wp (openContainer env l >>= fun course =>
      readOn l current course.failure course.deliveries { identity := current }) Q s := by
  simp only [rebuild, openContainer, wp_bind, wp_onCache, andThen_ok]
  refine wp_congr fun r s' => ?_
  cases r with
  | error e => exact Iff.rfl
  | ok course =>
    simp only [andThen_ok, wp_readOn, scanned, closeContainer, wp_bind, wp_modify, wp_get, wp_set]
    generalize Scan.run course.deliveries _ = scan
    cases hstopped : scan.stopped with
    | true => exact Iff.rfl
    | false =>
      cases course.failure with
      | some reason => exact Iff.rfl
      | none => cases scan.cancelled <;> exact Iff.rfl

end Loading

namespace Filling

open Loading

variable {ω : Type} (env : Environment ω) (settings : CacheSettings) (key : String) (l : Location)
  (current : Identity)

/-- Keeps an index that is being made. -/
def keep (forced : Bool) (p : Loading ω Index) : Loading ω Loaded := do
  let index ← tryCatch p fun e => do
    if forced then onCache fun c => c.force key
    throw e
  unless settings.disabled do persist env key index
  publish key index

/-- What a filling has yet to do. -/
def rest : Filling → Loading ω Loaded
  | begun => attempt env settings key l current
  | flagged forced => do
    let hit ← remembered settings key forced current
    match hit with
    | some loaded => do
      report (.hit current.path false)
      return loaded
    | none => fetch env settings key l current forced
  | missed forced => fetch env settings key l current forced
  | opening forced => renew env settings key l current forced
  | reading forced ds failure index =>
    keep env settings key forced (readOn l current failure ds index)
  | failed forced e => do
    if forced then onCache fun c => c.force key
    throw e
  | built index => do
    unless settings.disabled do persist env key index
    publish key index
  | kept index => publish key index
  | ended (.ok loaded) => return loaded
  | ended (.error e) => throw e

variable {env settings key l current} {s : Session ω}

theorem wp_rest (f : Filling) {Q : Except ScanError Loaded → Session ω → Prop} :
    wp (f.rest env settings key l current) Q s ↔
      wp (f.step env settings key l current) (andThen (rest env settings key l current) Q) s := by
  cases f with
  | begun => exact Iff.rfl
  | flagged forced =>
    simp only [rest, step, recollect, wp_bind, wp_remembered, andThen_ok]
    cases (if forced then none else _ : Option Loaded) with
    | some loaded => exact Iff.rfl
    | none => exact Iff.rfl
  | missed forced =>
    simp only [rest, fetch, step, wp_bind]
    refine wp_congr fun r s' => ?_
    cases r with
    | error e => exact Iff.rfl
    | ok stored => cases stored <;> exact Iff.rfl
  | opening forced =>
    simp only [rest, renew, step, wp_bind, wp_tryCatch, wp_rebuild_readOn]
    refine wp_congr fun r s' => ?_
    cases r with
    | error e => cases forced <;> exact Iff.rfl
    | ok course =>
      show _ ↔ wp (keep env settings key forced _) Q s'
      simp only [keep, wp_bind, wp_tryCatch]
      exact Iff.rfl
  | reading forced ds failure index =>
    cases ds with
    | nil =>
      simp only [rest, keep, readOn, step, wp_bind, wp_tryCatch]
      refine wp_congr fun r s' => ?_
      cases r with
      | error e => cases forced <;> exact Iff.rfl
      | ok index => exact Iff.rfl
    | cons d ds =>
      simp only [rest, keep, readOn, step, wp_bind, wp_tryCatch]
      refine wp_congr fun r s' => ?_
      cases r with
      | error e => cases forced <;> exact Iff.rfl
      | ok index =>
        show _ ↔ wp (keep env settings key forced _) Q s'
        simp only [keep, wp_bind, wp_tryCatch]
        exact Iff.rfl
  | failed forced e => cases forced <;> exact Iff.rfl
  | built index =>
    simp only [rest, step]
    cases settings.disabled with
    | true => exact Iff.rfl
    | false =>
      simp only [Bool.false_eq_true, if_false, wp_bind]
      refine wp_congr fun r s' => ?_
      cases r <;> exact Iff.rfl
  | kept index => exact Iff.rfl
  | ended r => exact Iff.rfl

/-- What is left to do, as steps are counted: where the container has yet to be read, how much there will
be to read is not known. -/
def rank : Filling → Nat × Nat
  | begun => (5, 0)
  | flagged _ => (4, 0)
  | missed _ => (3, 0)
  | opening _ => (2, 0)
  | reading _ rest _ _ => (1, rest.length)
  | built _ => (0, 2)
  | kept _ => (0, 1)
  | failed _ _ => (0, 1)
  | ended _ => (0, 0)

theorem Advance.rank_lt {f f' : Filling} {s' : Session ω}
    (h : Advance env settings key l current s f f' s') :
    Prod.Lex (· < ·) (· < ·) f'.rank f.rank := by
  cases h <;> simp [rank, Prod.lex_def]

/-- A filling that ended with a request to cancel did so because its own caller was asked. -/
def Own (s : Session ω) : Filling → Prop
  | failed _ (.cancelled _) => s.cancelled = true
  | ended (.error (.cancelled _)) => s.cancelled = true
  | _ => True

theorem Advance.own {f f' : Filling} {s' : Session ω} (h : Advance env settings key l current s f f' s')
    (hnever : ∀ w, (env.enumerate l w).1 ≠ .interrupted) (hown : f.Own s) : f'.Own s' := by
  cases h with
  | interrupted henumerate => exact absurd (congrArg Prod.fst henumerate) (hnever _)
  | @refuse forced d rest failure index scan hscan hstops =>
    subst hscan
    cases d with
    | cancel => nomatch hstops
    | entry e =>
      cases hcancelled : s.cancelled with
      | true => exact rfl
      | false =>
        rw [hcancelled] at hstops
        nomatch hstops
  | closeCancelled hcancelled => exact hcancelled
  | @giveUp forced e => cases e <;> exact hown
  | _ => exact trivial

end Filling

namespace Crowd

open Loading

variable {ι ω : Type} [DecidableEq ι] {env : Environment ω} {settings : CacheSettings}
  {s s' : Crowd ι ω} {i : ι} {l : Location} {current : Identity} {n m : Nat}

/-- Left to itself, a caller comes to where `P` holds. -/
def Comes (env : Environment ω) (settings : CacheSettings) (i : ι) (P : Crowd ι ω → Prop)
    (s : Crowd ι ω) : Prop := ∃ turns, P (s.play env settings (List.replicate turns i))

namespace Comes

variable {P R : Crowd ι ω → Prop}

theorem now (h : P s) : Comes env settings i P s := ⟨0, h⟩

theorem step (hstep : s.step env settings i = some s') (h : Comes env settings i P s') :
    Comes env settings i P s := by
  obtain ⟨turns, h⟩ := h
  refine ⟨turns + 1, ?_⟩
  show P (((s.step env settings i).getD s).play env settings (List.replicate turns i))
  rw [hstep]
  exact h

theorem bind (h : Comes env settings i P s) (hP : ∀ s', P s' → Comes env settings i R s') :
    Comes env settings i R s := by
  obtain ⟨turns, h⟩ := h
  obtain ⟨turns', h'⟩ := hP _ h
  refine ⟨turns + turns', ?_⟩
  rw [← List.replicate_append_replicate, play, List.foldl_append]
  exact h'

end Comes

@[simp] theorem session_after_moved (s : Crowd ι ω) (i : ι) (σ : Session ω) (c : Caller) :
    ((s.after i σ).moved i c).session i = σ := by
  show (⟨σ.cache, σ.world, if s.token i = s.token i then σ.cancelled else _⟩ : Session ω) = σ
  rw [if_pos rfl]

/-- A filling comes to what it has yet to do. -/
theorem comes_to_end {s : Crowd ι ω} (hnever : ∀ w, (env.enumerate l w).1 ≠ .interrupted) {f : Filling}
    {Q : Except ScanError Loaded → Session ω → Prop}
    (hi : s.callers i = .load l (.filling current n f)) (hown : f.Own (s.session i))
    (h : wp (f.rest env settings l.cacheKey l current) Q (s.session i)) :
    Comes env settings i (fun s' => ∃ r, s'.callers i = .load l (.filling current n (.ended r)) ∧
      Q r (s'.session i) ∧ (Filling.ended r).Own (s'.session i)) s := by
  by_cases hf : ∃ r, f = .ended r
  · obtain ⟨r, rfl⟩ := hf
    refine .now ⟨r, hi, ?_, hown⟩
    cases r <;> exact h
  · have hf := not_exists.1 hf
    obtain ⟨f', σ, hrun, hadvance⟩ := Filling.exists_advance hf
    have hrest := wp_of_run ((Filling.wp_rest f).1 h) hrun
    have hstep : s.step env settings i =
        some ((s.after i σ).moved i (.load l (.filling current n f'))) :=
      (step_load hi).trans ((stepLoad_filling hf).trans (congrArg some (act_eq hrun)))
    have hsession := session_after_moved s i σ (.load l (.filling current n f'))
    have hown' := hadvance.own hnever hown
    have hlt := hadvance.rank_lt
    refine .step hstep ?_
    rw [← hsession] at hown' hrest
    exact comes_to_end hnever (moved_callers_self ..) hown' hrest
termination_by f.rank
decreasing_by exact hlt

variable {Q : Except ScanError Loaded → Session ω → Prop}

/-- The load is over, and what has come of it satisfies `Q`. -/
def Over (i : ι) (Q : Except ScanError Loaded → Session ω → Prop) (s : Crowd ι ω) : Prop :=
  ∃ r, (s.callers i).outcome? = some r ∧ Q r (s.session i)

/-- If nobody else can have asked to cancel, the first attempt is the last. -/
theorem wp_attempt_of_attempts {s : Session ω} {key : String}
    (h : wp (attempts env settings key l current m) Q s) :
    wp (attempt env settings key l current) (fun r s' => (Filling.ended r).Own s' → Q r s') s := by
  cases m with
  | zero => exact wp_mono h fun r s' hQ _ => hQ
  | succ m =>
    rw [attempts, wp_tryCatch] at h
    refine wp_mono h fun r s' hQ hown => ?_
    cases r with
    | ok loaded => exact hQ
    | error e =>
      rw [orElse_error, wp_bind, wp_isCancelled, andThen_ok] at hQ
      cases e with
      | cancelled path =>
        have hcancelled : s'.cancelled = true := hown
        rw [hcancelled] at hQ
        exact hQ
      | _ => exact hQ

omit [DecidableEq ι] in
theorem isForeign_of_own {r : Except ScanError Loaded} (hown : (Filling.ended r).Own (s.session i)) :
    s.isForeign i r = false := by
  cases r with
  | ok loaded => rfl
  | error e =>
    cases e with
    | cancelled path =>
      have hcancelled : s.cancelled (s.token i) = true := hown
      show (!s.cancelled (s.token i)) = false
      rw [hcancelled]
      rfl
    | _ => rfl

section

variable {r : Except ScanError Loaded}

theorem comes_of_deciding (hi : s.callers i = .load l (.deciding current r))
    (hown : (Filling.ended r).Own (s.session i)) (hQ : Q r (s.session i)) :
    Comes env settings i (Over i Q) s := by
  have hstep : s.step env settings i = some (s.moved i (.load l (.returned current r))) := by
    rw [step_load hi, stepLoad, isForeign_of_own hown]
    rfl
  refine .step hstep (.now ⟨r, ?_, hQ⟩)
  rw [moved_callers_self]
  rfl

theorem comes_of_leaving (hi : s.callers i = .load l (.leaving current n r))
    (hown : (Filling.ended r).Own (s.session i)) (hQ : Q r (s.session i)) :
    Comes env settings i (Over i Q) s := by
  have hstep : s.step env settings i =
      some ((s.takeDown l.cacheKey n).moved i (.load l (.deciding current r))) := step_load hi
  rw [takeDown_eq] at hstep
  exact .step hstep (comes_of_deciding (moved_callers_self ..) hown hQ)

theorem comes_of_ended (hi : s.callers i = .load l (.filling current n (.ended r)))
    (hown : (Filling.ended r).Own (s.session i)) (hQ : Q r (s.session i)) :
    Comes env settings i (Over i Q) s :=
  .step (step_load hi) (comes_of_leaving (moved_callers_self ..) hown hQ)

end

theorem comes_of_begun (hnever : ∀ w, (env.enumerate l w).1 ≠ .interrupted)
    (hi : s.callers i = .load l (.filling current n .begun))
    (h : wp (attempts env settings l.cacheKey l current m) Q (s.session i)) :
    Comes env settings i (Over i Q) s := by
  have hown : Filling.begun.Own (s.session i) := trivial
  refine (comes_to_end hnever hi hown (wp_attempt_of_attempts h)).bind ?_
  rintro s' ⟨r, hr, hQ, hown'⟩
  exact comes_of_ended hr hown' (hQ hown')

/-- A load that sets up a cell of its own. -/
theorem comes_of_seeking (hnever : ∀ w, (env.enumerate l w).1 ≠ .interrupted)
    (hi : s.callers i = .load l (.seeking current)) (hunset : s.cells.find? l.cacheKey = none)
    (hempty : s.contents s.nextCell = .empty)
    (h : wp (attempts env settings l.cacheKey l current m) Q (s.session i)) :
    Comes env settings i (Over i Q) s := by
  have hseek : s.step env settings i =
      some (moved { s with
        cells := s.cells.insert l.cacheKey s.nextCell
        nextCell := s.nextCell + 1 } i (.load l (.holding current s.nextCell))) := by
    rw [step_load hi, stepLoad, seek, hunset]
  refine .step hseek ?_
  generalize hs' : moved _ i (.load l (.holding current s.nextCell)) = s'
  have hi' : s'.callers i = .load l (.holding current s.nextCell) := hs' ▸ moved_callers_self ..
  have hempty' : s'.contents s.nextCell = .empty := hs' ▸ hempty
  have hsession : s'.session i = s.session i := hs' ▸ rfl
  have hbegin : s'.step env settings i = some ((s'.withContents s.nextCell .taken).moved i
      (.load l (.filling current s.nextCell .begun))) := by
    rw [step_load hi', stepLoad, hempty']
  rw [← hsession] at h
  exact .step hbegin (comes_of_begun hnever (moved_callers_self ..) h)

theorem comes_of_recalling (hnever : ∀ w, (env.enumerate l w).1 ≠ .interrupted)
    (hi : s.callers i = .load l (.recalling current)) (hunset : s.cells.find? l.cacheKey = none)
    (hempty : s.contents s.nextCell = .empty)
    (h : wp (recollect settings l.cacheKey false current) (andThen (fun hit =>
      match hit with
      | some loaded => pure loaded
      | none => attempts env settings l.cacheKey l current m) Q) (s.session i)) :
    Comes env settings i (Over i Q) s := by
  obtain ⟨⟨r, σ⟩, hrun⟩ : ∃ r, (Loading.recollect settings l.cacheKey false current).run.run
    (s.session i) = r := ⟨_, rfl⟩
  replace h := wp_of_run h hrun
  refine .step ((step_load hi).trans (congrArg some (act_eq hrun))) ?_
  cases r with
  | error e =>
    refine .now ⟨.error e, ?_, ?_⟩
    · rw [moved_callers_self]
      rfl
    · rw [session_after_moved]
      exact h
  | ok hit =>
    cases hit with
    | some loaded =>
      refine .now ⟨.ok loaded, ?_, ?_⟩
      · rw [moved_callers_self]
        rfl
      · rw [session_after_moved]
        exact h
    | none =>
      refine comes_of_seeking hnever (moved_callers_self ..) hunset hempty (m := m) ?_
      rw [session_after_moved]
      exact h

theorem comes_of_resolved (hnever : ∀ w, (env.enumerate l w).1 ≠ .interrupted)
    (hi : s.callers i = .load l (.resolved current)) (hunset : s.cells.find? l.cacheKey = none)
    (hempty : s.contents s.nextCell = .empty)
    (h : wp (remembered settings l.cacheKey (s.cache.forced.contains l.cacheKey) current >>= fun hit =>
      match hit with
      | some loaded => do
        report (.hit current.path false)
        return loaded
      | none => attempts env settings l.cacheKey l current m) Q (s.session i)) :
    Comes env settings i (Over i Q) s := by
  have hstep : s.step env settings i = some (s.moved i (.load l
      (if s.cache.forced.contains l.cacheKey then .seeking current else .recalling current))) :=
    step_load hi
  refine .step hstep ?_
  cases hforced : s.cache.forced.contains l.cacheKey with
  | true =>
    rw [hforced, wp_bind, wp_remembered] at h
    exact comes_of_seeking hnever (moved_callers_self ..) hunset hempty h
  | false =>
    rw [hforced] at h
    exact comes_of_recalling hnever (moved_callers_self ..) hunset hempty (wp_recollect.2 h)

/-- A load whose turns are not interrupted by those of others, of a container that nobody is loading,
comes to what loading it comes to. -/
theorem load_alone (hnever : ∀ w, (env.enumerate l w).1 ≠ .interrupted)
    (hi : s.callers i = .load l .ready) (hunset : s.cells.find? l.cacheKey = none)
    (hempty : s.contents s.nextCell = .empty) :
    ∃ turns, let s' := s.play env settings (List.replicate turns i)
      (s'.callers i).outcome? = some ((Loading.load env settings l).run.run (s.session i)).1 ∧
        s'.session i = ((Loading.load env settings l).run.run (s.session i)).2 := by
  suffices hload : ∀ Q, wp (Loading.load env settings l) Q (s.session i) →
      Comes env settings i (Over i Q) s by
    obtain ⟨turns, r, hr, rfl, hsession⟩ := hload (fun r σ =>
      r = ((Loading.load env settings l).run.run (s.session i)).1 ∧
        σ = ((Loading.load env settings l).run.run (s.session i)).2) ⟨rfl, rfl⟩
    exact ⟨turns, hr, hsession⟩
  intro Q h
  unfold Loading.load at h
  rw [wp_bind] at h
  obtain ⟨⟨r, σ⟩, hrun⟩ : ∃ r, (resolve env settings l).run.run (s.session i) = r := ⟨_, rfl⟩
  replace h := wp_of_run h hrun
  refine .step ((step_load hi).trans (congrArg some (act_eq hrun))) ?_
  cases r with
  | error e =>
    refine .now ⟨.error e, ?_, ?_⟩
    · rw [moved_callers_self]
      rfl
    · rw [session_after_moved]
      exact h
  | ok current =>
    refine comes_of_resolved hnever (moved_callers_self ..) hunset hempty (m := env.pending σ.world) ?_
    have hcache : ((s.after i σ).moved i (.load l (.resolved current))).cache = σ.cache := rfl
    rw [session_after_moved, hcache]
    simp only [andThen_ok, wp_bind, wp_get, wp_remembered] at h ⊢
    cases hfound : (if σ.cache.forced.contains l.cacheKey = true then none else _ : Option Loaded) with
    | some loaded =>
      rw [hfound] at h
      exact h
    | none =>
      rw [hfound] at h
      exact h

end Crowd

end ClassCatalog
