import ClassCatalog.Proofs.Cache.Exhibit
import ClassCatalog.Proofs.Callers.Cells

/-!
# Who may still read a container

A load that has learned an identity reads the container for it at some later time, if at all. It will not if the
cell that it holds is filled, or will be, with an index or an error of the container. But if it is filled with
the news that somebody has asked to cancel, the load starts over, with the identity that it has
(`Crowd.MayRead`). A change of a container that nobody may still read comes too early or too late for every load
(`Crowd.Spares`).
-/

namespace ClassCatalog

/-- Whether a result only says that somebody has asked to cancel. -/
def LoadStage.restarts : Except ScanError Loaded → Bool
  | .error (.cancelled _) => true
  | _ => false

/-- The container and the identity of a load that has learned it and has yet to get a result, or to start
over. -/
def Caller.reads? : Caller → Option (Location × Identity)
  | load l (.resolved current) | load l (.recalling current) | load l (.seeking current)
  | load l (.holding current _) | load l (.filling current _ _) => some (l, current)
  | load l (.leaving current _ r) | load l (.deciding current r) =>
    if LoadStage.restarts r then some (l, current) else none
  | _ => none

/-- Whoever leaves a cell and may still read has to start over. -/
theorem Caller.restarts_of_reads? {c : Caller} {x : Location × Identity} {r : Except ScanError Loaded}
    (hreads : c.reads? = some x) (hleft : c.leaves? = some r) : LoadStage.restarts r = true := by
  unfold leaves? at hleft
  split at hleft
  · obtain rfl := Option.some.inj hleft
    exact (Option.ite_none_right_eq_some.1 hreads).1
  · nomatch hleft

namespace Filling

variable {ω : Type} {env : Environment ω} {settings : CacheSettings} {key : String} {l : Location}
  {current : Identity} {σ σ' : Session ω} {f f' : Filling}

/-- The container has been read if it is to be, and nobody who waits will have to start over. -/
def Settles : Filling → Prop
  | built _ | kept _ => True
  | failed _ e => LoadStage.restarts (.error e) = false
  | ended r => LoadStage.restarts r = false
  | _ => False

theorem Advance.settles (h : Advance env settings key l current σ f f' σ') (hf : f.Settles) : f'.Settles := by
  cases h with
  | giveUp => exact hf
  | keep => trivial
  | store => trivial
  | publish => exact rfl
  | _ => nomatch hf

end Filling

namespace Crowd

variable {ι ω : Type} {env : Environment ω} {settings : CacheSettings} {contents : ω → Location → Enumeration}
  {s s' t : Crowd ι ω} {i j : ι} {c c' : Caller} {l : Location} {current : Identity} {n : Nat}

/-- Nobody who holds this cell will come to read for it or to start over. -/
def Settled (s : Crowd ι ω) (n : Nat) : Prop :=
  (∃ r, s.contents n = .filled r ∧ LoadStage.restarts r = false) ∨
    ∃ i l current f, s.callers i = .load l (.filling current n f) ∧ f.Settles

/-- A load has learned an identity, and may still come to read the container for it. -/
def MayRead (s : Crowd ι ω) (i : ι) (l : Location) (current : Identity) : Prop :=
  (s.callers i).reads? = some (l, current) ∧ ∀ n, (s.callers i).cell? = some n → ¬ s.Settled n

/-- To everybody who may still read a container, it is the same in this world. -/
def Spares (env : Environment ω) (contents : ω → Location → Enumeration) (s : Crowd ι ω) (w : ω) : Prop :=
  ∀ i l current, s.MayRead i l current → env.exhibit contents l w = env.exhibit contents l s.world

/-- Who reads has learned the identity just now, or could read before. -/
theorem Move.reads (h : Move env settings i s c c' t) (hr : c'.reads? = some (l, current)) :
    c.reads? = some (l, current) ∨
      ∃ σ, (Loading.resolve env settings l).run.run (s.session i) = (.ok current, σ) := by
  -- A result makes its load start over, or not, at every stage alike.
  have hrestarts : ∀ {r : Except ScanError Loaded} {x : Location × Identity},
      (if LoadStage.restarts r then some x else none) = some (l, current) → some x = some (l, current) :=
    fun hx => (Option.ite_none_right_eq_some.1 hx).2
  cases h with
  | resolve hrun =>
    cases hr
    exact .inr ⟨_, hrun⟩
  | collect => exact .inl (hrestarts hr)
  | finish => exact .inl (hrestarts hr)
  | leave => exact .inl hr
  | @retry _ _ r hforeign =>
    have hr' : LoadStage.restarts r = true := by
      unfold isForeign at hforeign
      split at hforeign
      · rfl
      · nomatch hforeign
    exact .inl ((if_pos hr').trans hr)
  | pass => exact .inl hr
  | look => exact .inl hr
  | forget => exact .inl hr
  | join => exact .inl hr
  | setUp => exact .inl hr
  | begin => exact .inl hr
  | fill => exact .inl hr
  | _ => nomatch hr

variable [DecidableEq ι]

/-- A settled cell stays so. -/
theorem Settled.move (h : s.Settled n) (ho : s.Orderly) (hstep : s.step env settings i = some s') :
    s'.Settled n := by
  obtain ⟨r, hr, hnever⟩ | ⟨j, l, current, f, hj, hf⟩ := h
  · refine .inl ⟨r, ?_, hnever⟩
    cases (moves_of_step hstep).turn with
    | idle _ hcontents => exact (hcontents n).trans hr
    | join _ _ hcontents => exact (hcontents n).trans hr
    | setUp _ _ hcontents => exact (hcontents n).trans hr
    | @begin m hempty _ hcontents =>
      have hne : n ≠ m := by
        rintro rfl
        nomatch hr.symm.trans hempty
      exact ((hcontents n).trans (if_neg hne)).trans hr
    | @finish m _ hfills _ hcontents =>
      have hne : n ≠ m := by
        rintro rfl
        nomatch hr.symm.trans (ho.taken hfills)
      exact ((hcontents n).trans (if_neg hne)).trans hr
    | leave _ _ _ hcontents => exact (hcontents n).trans hr
  · obtain ⟨c, t, hmove, rfl⟩ := step_moves hstep
    by_cases hji : j = i
    · subst hji
      rw [hj] at hmove
      cases hmove with
      | fill hadvance => exact .inr ⟨j, l, current, _, moved_callers_self .., hadvance.settles hf⟩
      | @finish _ _ _ r => exact .inl ⟨r, if_pos rfl, hf⟩
    · refine .inr ⟨j, l, current, f, ?_, hf⟩
      rw [moved_callers_of_ne t hji, hmove.shared.1]
      exact hj

omit [DecidableEq ι] in
/-- A cell that somebody leaves to start over is not settled. -/
theorem Orderly.not_settled (ho : s.Orderly) {r : Except ScanError Loaded} (hheld : (s.callers i).cell? = some n)
    (hleft : (s.callers i).leaves? = some r) (hr : LoadStage.restarts r = true) : ¬ s.Settled n := by
  have hfilled : s.contents n = .filled r := ho.left hleft hheld
  rintro (⟨r', hr', hnever⟩ | ⟨j, l, current, f, hj, -⟩)
  · cases hfilled.symm.trans hr'
    nomatch hnever.symm.trans hr
  · have hfills : (s.callers j).fills? = some n := by rw [hj]; rfl
    nomatch hfilled.symm.trans (ho.taken hfills)

/-- Whoever may read after a step could before, or has learned the identity in this step. -/
theorem MayRead.of_move (ho : s.Orderly) (hstep : s.step env settings i = some s')
    (h : s'.MayRead j l current) : s.MayRead j l current ∨
      j = i ∧ ∃ σ, (Loading.resolve env settings l).run.run (s.session i) = (.ok current, σ) := by
  obtain ⟨hreads, hopen⟩ := h
  have hbefore : ∀ m, (s'.callers j).cell? = some m → ¬ s.Settled m :=
    fun m hm hsettled => hopen m hm (hsettled.move ho hstep)
  by_cases hji : j = i
  · subst hji
    have hmoves := moves_of_step hstep
    have hread : (s.callers j).reads? = some (l, current) ∨
        ∃ σ, (Loading.resolve env settings l).run.run (s.session j) = (.ok current, σ) := by
      obtain ⟨c, t, hmove, rfl⟩ := step_moves hstep
      rw [moved_callers_self] at hreads
      exact hmove.reads hreads
    refine hread.imp (fun hread => ⟨hread, fun m hm => ?_⟩) fun hrun => ⟨rfl, hrun⟩
    cases hmoves.turn with
    | idle _ _ _ hcell => exact hbefore m (hcell.trans hm)
    | join _ _ _ _ hnone => nomatch hnone.symm.trans hm
    | setUp _ _ _ _ hnone => nomatch hnone.symm.trans hm
    | begin _ _ _ _ hheld hcell => exact hbefore m ((hcell.trans hheld.symm).trans hm)
    | finish hfills _ _ _ hcell =>
      exact hbefore m ((hcell.trans (Caller.cell?_of_fills? hfills).symm).trans hm)
    | @leave m' r hheld hleft =>
      obtain rfl : m' = m := Option.some.inj (hheld.symm.trans hm)
      exact ho.not_settled hheld hleft (Caller.restarts_of_reads? hread hleft)
  · rw [(moves_of_step hstep).others hji] at hreads hbefore
    exact .inl ⟨hreads, hbefore⟩

omit [DecidableEq ι] in
/-- Whoever fills a cell may read until that is settled. -/
theorem Orderly.mayRead (ho : s.Orderly) {f : Filling} (hi : s.callers i = .load l (.filling current n f))
    (hf : ¬ f.Settles) : s.MayRead i l current := by
  have hfills : (s.callers i).fills? = some n := by rw [hi]; rfl
  refine ⟨by rw [hi]; rfl, fun m hm => ?_⟩
  obtain rfl : n = m := Option.some.inj ((Caller.cell?_of_fills? hfills).symm.trans hm)
  rintro (⟨r, hr, -⟩ | ⟨j, l', current', f', hj, hf'⟩)
  · nomatch (ho.taken hfills).symm.trans hr
  · obtain rfl : i = j := ho.alone hfills (by rw [hj]; rfl)
    cases hi.symm.trans hj
    exact hf hf'

end Crowd

end ClassCatalog
