import ClassCatalog.ClassFile.Blueprint
import ClassCatalog.Container.Scripted
import ClassCatalog.Proofs.Callers.SharedFlight

/-!
# Single flight

However the steps of any number of callers interleave, one of them at most fills a cell of a
container (`Crowd.single_flight`). So a container that all of them load is read once.
-/

namespace ClassCatalog

/-- Without a hash the identity is what can be asked for at once. -/
theorem Loading.identityOf_of_stat {ω : Type} {env : Environment ω} {settings : CacheSettings}
    {l : Location} {w : ω} (hpolicy : settings.identityPolicy = .timestampSize) :
    identityOf env settings l w = match env.stat l w with
      | .error reason => .error (.containerUnreadable l.logicalPath reason)
      | .ok stat => .ok ⟨l.logicalPath, stat.size, stat.lastModified, none⟩ := by
  show wp (resolve env settings l) (fun r _ => r = _) ⟨{}, w, false⟩
  unfold resolve
  rw [wp_bind, wp_get, andThen_ok]
  dsimp only
  cases env.stat l w with
  | error reason => rfl
  | ok stat =>
    rw [hpolicy]
    rfl

namespace Crowd

variable {ι ω : Type} [DecidableEq ι] {env : Environment ω} {settings : CacheSettings}
  {s s' : Crowd ι ω}

/-- At any moment one caller at most fills a cell for a key, a cell is set up only while some caller
has taken it, and a step takes down no cell but that of the caller whose step it is. And when all of
them load one container that was never seen before and does not change, it is read once: nobody
takes more than so many steps, and when nobody can take another, everybody has the one index. -/
theorem single_flight (hfresh : s.Fresh) :
    (∀ s', Steps env settings s s' →
      (∀ i j n m, (s'.callers i).fills? = some n → (s'.callers j).fills? = some m →
        (s'.callers i).key = (s'.callers j).key → i = j) ∧
      (∀ key, (∀ i, (s'.callers i).key = key → (s'.callers i).cell? = none) →
        s'.cells.find? key = none) ∧
      ∀ i s'' key n, s'.step env settings i = some s'' → s'.cells.find? key = some n →
        s''.cells.find? key ≠ some n → (s'.callers i).key = key ∧ (s'.callers i).cell? = some n) ∧
    ∀ x, s.Unseen env settings x → ∀ turns s', Path env settings s turns s' →
      s'.cache.decodePasses ≤ s.cache.decodePasses + 1 ∧
      (∀ i current r, s'.callers i = .load x.location (.returned current r) → r = .ok x.loaded) ∧
      (∀ i, turns.count i ≤ x.course.deliveries.length + 15) ∧
      ((∀ i, s'.step env settings i = none) → ∀ i,
        s'.callers i = .load x.location (.returned x.identity (.ok x.loaded)) ∧
        s'.cache.decodePasses = s.cache.decodePasses + 1) := by
  refine ⟨fun s' hsteps => ?_, fun x hunseen turns s' hpath => ?_⟩
  · have ho : s'.Orderly := hfresh.orderly.steps hsteps
    refine ⟨fun i j n m hi hj hkey => ho.filler_unique hi hj hkey, fun key hnone => ?_, ?_⟩
    · refine Option.eq_none_iff_forall_ne_some.2 fun n hset => ?_
      obtain ⟨i, hi, hkey⟩ := ho.attended hset
      nomatch (hnone i hkey).symm.trans hi
    · intro i s'' key n hstep hset hgone
      exact (moves_of_step hstep).takes_down hset hgone
  · have ho : s'.Orderly := hfresh.orderly.steps hpath.steps
    obtain ⟨⟨p, hflight⟩, hcount⟩ := hunseen.path hpath
    rw [hunseen.passes]
    refine ⟨?_, fun i current r hi => ?_, fun i => ?_, fun hstuck i => ?_⟩
    · rw [hflight.passes]
      exact p.passes_le x
    · obtain ⟨stage, hstage, hfits⟩ := hflight.fits i
      rw [hi] at hstage
      cases hstage
      cases hfits
      rfl
    · exact Nat.le_of_add_right_le (hcount i)
    · obtain ⟨rfl, hi⟩ := hflight.ended ho hstuck i
      exact ⟨hi, hflight.passes⟩

/-- What is stored does not show in a container held in memory. -/
theorem offered_with_store {x : Target} {w : ScriptedWorld}
    (h : x.Offered ScriptedWorld.environment {} w) (m : MemoryStore) :
    x.Offered ScriptedWorld.environment {} { w with store := m } := by
  refine ⟨⟨?_, h.cancels⟩, ?_, h.complete⟩
  · have henumerate : ScriptedWorld.enumerate x.location w = (.delivered x.course, w) := h.enumerate
    show ScriptedWorld.enumerate x.location { w with store := m } = _
    unfold ScriptedWorld.enumerate at henumerate ⊢
    dsimp only
    split at henumerate
    next => rw [(Prod.mk.inj henumerate).1]
    next =>
      split at henumerate
      next hnone => rw [if_pos hnone, (Prod.mk.inj henumerate).1]
      next => nomatch henumerate
  · have hresolved := h.resolved
    rw [Loading.identityOf_of_stat rfl] at hresolved ⊢
    exact hresolved

/-- Two callers with tokens of their own, over an empty store. -/
theorem single_flight_of_two :
    let env := ScriptedWorld.environment
    let entries : List ClassEntry := [⟨"a/A.class", ClassFile.Blueprint.assemble { name := "a.A" }⟩]
    let x : Target :=
      { location := .archive "a.jar", identity := ⟨"a.jar", 9, 1, none⟩
        course := ⟨entries.map .entry, none⟩, passes := 0, serial := 0 }
    let container : ScriptedContainer := { entries, size := some 9, lastModified := 1 }
    let s : Crowd Bool ScriptedWorld :=
      { world := { containers := NameMap.empty.insert "a.jar" container }
        callers := fun _ => .load x.location .ready
        token := fun i => if i then 1 else 0 }
    let s' := s.play env {} (List.replicate 16 [true, false]).flatten
    s.Fresh ∧ s.Unseen env {} x ∧ (∃ turns, Path env {} s turns s') ∧
      (∀ i, s'.step env {} i = none) ∧
      ∀ i, s'.callers i = .load x.location (.returned x.identity (.ok x.loaded)) ∧
        s'.cache.decodePasses = 1 := by
  intro env entries x container s s'
  have hunseen : s.Unseen env {} x :=
    { callers := fun _ => rfl
      cells := rfl
      contents := fun _ => rfl
      running := fun _ => rfl
      forced := rfl
      published := rfl
      stored := fun _ h => nomatch h
      passes := rfl
      serial := rfl
      offered := ⟨⟨rfl, rfl⟩, rfl, rfl⟩
      keeps := fun w h => offered_with_store h _ }
  have hover : ∀ i, (s'.step env {} i).isNone = true := by decide +kernel
  have hstuck : ∀ i, s'.step env {} i = none := fun i => Option.isNone_iff_eq_none.1 (hover i)
  obtain ⟨turns, hpath⟩ := s.exists_path_play env {} (List.replicate 16 [true, false]).flatten
  exact ⟨hunseen.fresh, hunseen, ⟨turns, hpath⟩, hstuck,
    ((single_flight hunseen.fresh).2 x hunseen turns s' hpath).2.2.2 hstuck⟩

end Crowd

end ClassCatalog
