import Mathlib.Data.List.Induction
import Mathlib.Data.List.Infix
import ClassCatalog.Store.Processes

/-!
# What is promised of putting

Three things are promised of processes at one key (`Team.Contract`): whoever gets bytes gets all that somebody
has put, a put that ends well has put its own bytes there, and one that fails has changed nothing. A protocol
keeps the promise wherever each step of a process does its part (`Team.Upholds`); a run adds nothing to that
but an induction.
-/

namespace ClassCatalog

namespace Errand

variable {π ρ τ : Type} {bytes other : Bytes} {p : π}

/-- The bytes a process is about, or has got, are among those that are known. -/
def Known (known : Bytes → Prop) : Errand π ρ τ → Prop
  | toPut bytes | putting bytes _ | got (some bytes) => known bytes
  | _ => True

theorem eq_of_afterPut {r : π ⊕ Except StoreError Unit}
    (h : (afterPut other r : Errand π ρ τ) = putting bytes p) : other = bytes := by
  cases r with
  | inl q => exact (putting.inj h).1
  | inr result => nomatch h

theorem afterPut_ne_toPut (r : π ⊕ Except StoreError Unit) :
    (afterPut other r : Errand π ρ τ) ≠ toPut bytes := by
  cases r <;> exact nofun

theorem afterGet_ne_toPut (r : ρ ⊕ Option Bytes) : (afterGet r : Errand π ρ τ) ≠ toPut bytes := by
  cases r <;> exact nofun

theorem afterOpen_ne_toPut (o : Option τ) : (afterOpen o : Errand π ρ τ) ≠ toPut bytes := by
  cases o <;> exact nofun

theorem afterGet_ne_putting (r : ρ ⊕ Option Bytes) : (afterGet r : Errand π ρ τ) ≠ putting bytes p := by
  cases r <;> exact nofun

theorem afterOpen_ne_putting (o : Option τ) : (afterOpen o : Errand π ρ τ) ≠ putting bytes p := by
  cases o <;> exact nofun

end Errand

theorem Protocol.putting_of_next {σ π ρ τ : Type} (P : Protocol σ π ρ τ) {w w' : σ} {e : Errand π ρ τ}
    {bytes : Bytes} {p : π} (h : P.next w e = some (.putting bytes p, w')) :
    (∃ q, e = .putting bytes q) ∨ e = .toPut bytes := by
  cases e with
  | toPut other => exact .inr (congrArg _ (Errand.eq_of_afterPut (Prod.mk.inj (Option.some.inj h)).1))
  | putting other q =>
    obtain rfl := Errand.eq_of_afterPut (Prod.mk.inj (Option.some.inj h)).1
    exact .inl ⟨q, rfl⟩
  | toGet => exact absurd (Prod.mk.inj (Option.some.inj h)).1 (Errand.afterGet_ne_putting _)
  | toOpen => exact absurd (Prod.mk.inj (Option.some.inj h)).1 (Errand.afterOpen_ne_putting _)
  | getting r => nomatch (Prod.mk.inj (Option.some.inj h)).1
  | opening o => nomatch (Prod.mk.inj (Option.some.inj h)).1
  | put => nomatch h
  | got => nomatch h
  | opened => nomatch h

theorem Protocol.next_ne_toPut {σ π ρ τ : Type} (P : Protocol σ π ρ τ) (w : σ) (e : Errand π ρ τ) {w' : σ}
    {bytes : Bytes} : P.next w e ≠ some (.toPut bytes, w') := by
  intro h
  cases e with
  | toPut other => exact Errand.afterPut_ne_toPut _ (Prod.mk.inj (Option.some.inj h)).1
  | putting other q => exact Errand.afterPut_ne_toPut _ (Prod.mk.inj (Option.some.inj h)).1
  | toGet => exact Errand.afterGet_ne_toPut _ (Prod.mk.inj (Option.some.inj h)).1
  | toOpen => exact Errand.afterOpen_ne_toPut _ (Prod.mk.inj (Option.some.inj h)).1
  | getting r => nomatch (Prod.mk.inj (Option.some.inj h)).1
  | opening o => nomatch (Prod.mk.inj (Option.some.inj h)).1
  | put => nomatch h
  | got => nomatch h
  | opened => nomatch h

namespace Team

variable {ι σ π ρ τ : Type} [DecidableEq ι] {P : Protocol σ π ρ τ} {s s' : Team ι σ π ρ τ}
  {turns pre : List ι} {i j : ι} {bytes : Bytes} {result : Except StoreError Unit}

/-- No process has begun. -/
def Fresh (s : Team ι σ π ρ τ) : Prop :=
  ∀ i, (∃ bytes, s.errands i = .toPut bytes) ∨ s.errands i = .toGet ∨ s.errands i = .toOpen

/-- The bytes under the key to begin with, and those that processes are to put there. -/
def Given (P : Protocol σ π ρ τ) (s : Team ι σ π ρ τ) (bytes : Bytes) : Prop :=
  P.live s.shared = some bytes ∨ ∃ j, s.errands j = .toPut bytes

/-- Bytes that are got are all that was given by somebody. -/
def Whole (P : Protocol σ π ρ τ) (s : Team ι σ π ρ τ) (turns : List ι) : Prop :=
  ∀ i bytes, (s.play P turns).errands i = .got (some bytes) → s.Given P bytes

/-- A put that ends well has been under way when its own bytes came to be those under the key. -/
def Own (P : Protocol σ π ρ τ) (s : Team ι σ π ρ τ) (turns : List ι) : Prop :=
  ∀ i bytes, (s.play P turns).errands i = .put bytes (.ok ()) → ∃ pre j, pre ++ [j] <+: turns ∧
    (∃ p, (s.play P pre).errands i = .putting bytes p) ∧
    P.live (s.play P (pre ++ [j])).shared = some bytes

/-- A put that fails has not changed what is under the key in any of its steps. -/
def Harmless (P : Protocol σ π ρ τ) (s : Team ι σ π ρ τ) (turns : List ι) : Prop :=
  ∀ i bytes e, (s.play P turns).errands i = .put bytes (.error e) → ∀ pre, pre ++ [i] <+: turns →
    P.live (s.play P (pre ++ [i])).shared = P.live (s.play P pre).shared

/-- What is promised of processes that take these turns. -/
structure Contract (P : Protocol σ π ρ τ) (s : Team ι σ π ρ τ) (turns : List ι) : Prop where
  whole : s.Whole P turns
  own : s.Own P turns
  harmless : s.Harmless P turns

/-- Nobody is putting. -/
def Calm (s : Team ι σ π ρ τ) : Prop := ∀ j bytes p, s.errands j ≠ .putting bytes p

/-- A process can begin to put only if nobody is putting. -/
def Waits (s : Team ι σ π ρ τ) (i : ι) : Prop := (∃ bytes, s.errands i = .toPut bytes) → s.Calm

/-- No two puts overlap. -/
def Apart (P : Protocol σ π ρ τ) (s : Team ι σ π ρ τ) (turns : List ι) : Prop :=
  ∀ pre i, pre ++ [i] <+: turns → (s.play P pre).Waits i

omit [DecidableEq ι] in
theorem Fresh.calm (h : s.Fresh) : s.Calm := by
  intro j bytes p hj
  obtain ⟨other, hfresh⟩ | hfresh | hfresh := h j <;> nomatch hfresh.symm.trans hj

omit [DecidableEq ι] in
theorem Fresh.known (h : s.Fresh) (P : Protocol σ π ρ τ) (j : ι) : (s.errands j).Known (s.Given P) := by
  obtain ⟨bytes, hj⟩ | hj | hj := h j
  · rw [hj]
    exact .inr ⟨j, hj⟩
  · rw [hj]
    trivial
  · rw [hj]
    trivial

/-! ### Steps -/

theorem step_of_next {e : Errand π ρ τ} {w : σ} (h : P.next s.shared (s.errands i) = some (e, w)) :
    s.step P i = { shared := w, errands := fun j => if j = i then e else s.errands j } := by
  rw [step, h]

theorem step_of_done (h : P.next s.shared (s.errands i) = none) : s.step P i = s := by
  rw [step, h]

theorem step_others (P : Protocol σ π ρ τ) (s : Team ι σ π ρ τ) (hj : j ≠ i) :
    (s.step P i).errands j = s.errands j := by
  rw [step]
  split
  · rfl
  · exact if_neg hj

/-- What holds of every errand still does if it holds of the one that goes on. -/
theorem forall_step {R : Errand π ρ τ → Prop} (h : ∀ j, R (s.errands j))
    (hi : ∀ e w, P.next s.shared (s.errands i) = some (e, w) → R e) : ∀ j, R ((s.step P i).errands j) := by
  intro j
  cases hnext : P.next s.shared (s.errands i) with
  | none =>
    rw [step_of_done hnext]
    exact h j
  | some r =>
    rw [step_of_next (e := r.1) (w := r.2) hnext]
    dsimp only
    split
    · exact hi r.1 r.2 hnext
    · exact h j

theorem errands_of_step {e e' : Errand π ρ τ} {w : σ}
    (h : s.step P i = { shared := w, errands := fun j => if j = i then e else s.errands j })
    (hj : (s.step P i).errands j = e') : j = i ∧ e = e' ∨ j ≠ i ∧ s.errands j = e' := by
  rw [h] at hj
  dsimp only at hj
  split at hj
  · rename_i heq
    exact .inl ⟨heq, hj⟩
  · rename_i hne
    exact .inr ⟨hne, hj⟩

theorem step_errands_self {e : Errand π ρ τ} {w : σ} (h : P.next s.shared (s.errands i) = some (e, w)) :
    (s.step P i).errands i = e := by
  rw [step_of_next h]
  exact if_pos rfl

/-- Who puts has put before the step, or begins with it. -/
theorem putting_before {p : π} (h : (s.step P i).errands j = .putting bytes p) :
    (∃ q, s.errands j = .putting bytes q) ∨ j = i ∧ s.errands i = .toPut bytes := by
  by_cases hj : j = i
  · subst hj
    cases hnext : P.next s.shared (s.errands j) with
    | none =>
      rw [step_of_done hnext] at h
      exact .inl ⟨p, h⟩
    | some r =>
      obtain ⟨e, w⟩ := r
      rw [step_errands_self hnext] at h
      subst h
      obtain hputting | htoPut := P.putting_of_next hnext
      · exact .inl hputting
      · exact .inr ⟨rfl, htoPut⟩
  · rw [step_others P s hj] at h
    exact .inl ⟨p, h⟩

/-- Who has yet to begin to put has not taken the step. -/
theorem toPut_before (h : (s.step P i).errands j = .toPut bytes) : j ≠ i ∧ s.errands j = .toPut bytes := by
  by_cases hj : j = i
  · subst hj
    cases hnext : P.next s.shared (s.errands j) with
    | none =>
      rw [step_of_done hnext] at h
      rw [h] at hnext
      nomatch hnext
    | some r =>
      obtain ⟨e, w⟩ := r
      rw [step_errands_self hnext] at h
      subst h
      exact absurd hnext (P.next_ne_toPut _ _)
  · rw [step_others P s hj] at h
    exact ⟨hj, h⟩

/-- At most one process is putting. -/
def Lone (s : Team ι σ π ρ τ) : Prop :=
  ∀ i j bytes other p q, s.errands i = .putting bytes p → s.errands j = .putting other q → i = j

theorem Lone.step (h : s.Lone) (hwaits : s.Waits i) : (s.step P i).Lone := by
  intro j k bytes other p q hj hk
  obtain ⟨p', hj'⟩ | ⟨rfl, hj'⟩ := putting_before hj <;> obtain ⟨q', hk'⟩ | ⟨rfl, hk'⟩ := putting_before hk
  · exact h j k bytes other p' q' hj' hk'
  · exact absurd hj' (hwaits ⟨other, hk'⟩ j bytes p')
  · exact absurd hk' (hwaits ⟨bytes, hj'⟩ k other q')
  · rfl

/-- What a process has put it has put for good. -/
theorem step_put (h : s.errands j = .put bytes result) : (s.step P i).errands j = .put bytes result := by
  by_cases hj : j = i
  · subst hj
    have hnone : P.next s.shared (s.errands j) = none := by
      rw [h]
      rfl
    rw [step_of_done hnone, h]
  · rw [step_others P s hj, h]

theorem play_append (P : Protocol σ π ρ τ) (s : Team ι σ π ρ τ) (turns rest : List ι) :
    s.play P (turns ++ rest) = (s.play P turns).play P rest := List.foldl_append ..

theorem play_concat (P : Protocol σ π ρ τ) (s : Team ι σ π ρ τ) (turns : List ι) (i : ι) :
    s.play P (turns ++ [i]) = (s.play P turns).step P i := play_append P s turns [i]

theorem play_put (h : s.errands j = .put bytes result) (turns : List ι) :
    (s.play P turns).errands j = .put bytes result := by
  induction turns generalizing s with
  | nil => exact h
  | cons i rest ih => exact ih (step_put h)

theorem play_induction (Inv : Team ι σ π ρ τ → Prop) (h : Inv s)
    (hstep : ∀ pre i, pre ++ [i] <+: turns → Inv (s.play P pre) → Inv (s.play P (pre ++ [i]))) :
    ∀ pre, pre <+: turns → Inv (s.play P pre) := by
  intro pre
  induction pre using List.reverseRecOn with
  | nil => exact fun _ => h
  | append_singleton pre i ih => exact fun hpre => hstep pre i hpre (ih ((List.prefix_append pre [i]).trans hpre))

/-- What does not hold to begin with but in the end comes to hold with some turn. -/
theorem exists_turn {Q : Team ι σ π ρ τ → Prop} (h : ¬ Q s) (hend : Q (s.play P turns)) :
    ∃ pre i, pre ++ [i] <+: turns ∧ ¬ Q (s.play P pre) ∧ Q (s.play P (pre ++ [i])) := by
  by_contra hnever
  push Not at hnever
  exact play_induction (fun s => ¬ Q s) h (fun pre i hpre hnot => hnever pre i hpre hnot) turns
    List.prefix_rfl hend

theorem apart_nil : s.Apart P [] := by
  intro pre i hpre
  simp at hpre

theorem apart_cons (hwaits : s.Waits i) (h : (s.step P i).Apart P turns) : s.Apart P (i :: turns) := by
  intro pre j hpre
  cases pre with
  | nil =>
    obtain rfl := (List.cons_prefix_cons.1 hpre).1
    exact hwaits
  | cons k pre =>
    obtain ⟨rfl, hrest⟩ := List.cons_prefix_cons.1 hpre
    exact h pre j hrest

/-! ### Runs -/

/-- What steps of processes do, if they are taken where `May` allows it. -/
structure Upholds (P : Protocol σ π ρ τ) (known : Bytes → Prop) (Inv : Team ι σ π ρ τ → Prop)
    (May : Team ι σ π ρ τ → ι → Prop) : Prop where
  step (s : Team ι σ π ρ τ) (i : ι) : Inv s → May s i → Inv (s.step P i)
  whole (s : Team ι σ π ρ τ) (i : ι) (bytes : Bytes) : Inv s → s.errands i = .got (some bytes) → known bytes
  /-- Only a put that ends well changes what is under the key. -/
  still (s : Team ι σ π ρ τ) (i : ι) : Inv s → May s i →
    (∃ bytes, (s.step P i).errands i = .put bytes (.ok ())) ∨ P.live (s.step P i).shared = P.live s.shared

/-- A put that ends well ends by putting its own bytes there. -/
def PutsOwn (P : Protocol σ π ρ τ) (Inv : Team ι σ π ρ τ → Prop) : Prop :=
  ∀ s i bytes, Inv s → s.errands i ≠ .put bytes (.ok ()) → (s.step P i).errands i = .put bytes (.ok ()) →
    (∃ p, s.errands i = .putting bytes p) ∧ P.live (s.step P i).shared = some bytes

variable {known : Bytes → Prop} {Inv : Team ι σ π ρ τ → Prop} {May : Team ι σ π ρ τ → ι → Prop}

theorem Upholds.invariant (h : Upholds P known Inv May) (hs : Inv s)
    (hmay : ∀ pre i, pre ++ [i] <+: turns → May (s.play P pre) i) :
    ∀ pre, pre <+: turns → Inv (s.play P pre) := by
  refine play_induction Inv hs fun pre i hpre hinv => ?_
  rw [play_concat]
  exact h.step _ i hinv (hmay pre i hpre)

theorem Upholds.got_known (h : Upholds P known Inv May) (hs : Inv s)
    (hmay : ∀ pre i, pre ++ [i] <+: turns → May (s.play P pre) i)
    (hgot : (s.play P turns).errands i = .got (some bytes)) : known bytes :=
  h.whole _ i bytes (h.invariant hs hmay turns List.prefix_rfl) hgot

theorem Upholds.harmless (h : Upholds P known Inv May) (hs : Inv s)
    (hmay : ∀ pre i, pre ++ [i] <+: turns → May (s.play P pre) i) : s.Harmless P turns := by
  intro i bytes e hfailed pre hpre
  have hinv : Inv (s.play P pre) := h.invariant hs hmay pre ((List.prefix_append pre [i]).trans hpre)
  have hstep := h.still _ i hinv (hmay pre i hpre)
  rw [← play_concat] at hstep
  obtain ⟨other, hended⟩ | hstill := hstep
  -- What has ended well has not failed.
  · obtain ⟨rest, rfl⟩ := hpre
    have hlater : ((s.play P (pre ++ [i])).play P rest).errands i = .put other (.ok ()) := play_put hended rest
    rw [← play_append, hfailed] at hlater
    nomatch hlater
  · exact hstill

theorem Upholds.own (h : Upholds P known Inv May) (hown : PutsOwn P Inv) (hs : Inv s) (hfresh : s.Fresh)
    (hmay : ∀ pre i, pre ++ [i] <+: turns → May (s.play P pre) i) : s.Own P turns := by
  intro i bytes hdone
  have hbefore : ¬ s.errands i = .put bytes (.ok ()) := by
    intro hput
    obtain ⟨other, hi⟩ | hi | hi := hfresh i <;> nomatch hi.symm.trans hput
  obtain ⟨pre, j, hpre, hnot, hput⟩ :=
    exists_turn (Q := fun s => s.errands i = .put bytes (.ok ())) hbefore hdone
  have hinv : Inv (s.play P pre) := h.invariant hs hmay pre ((List.prefix_append pre [j]).trans hpre)
  rw [play_concat] at hput
  obtain rfl : i = j := by
    by_contra hne
    rw [step_others P _ hne] at hput
    exact hnot hput
  obtain ⟨hputting, hlive⟩ := hown _ i bytes hinv hnot hput
  refine ⟨pre, i, hpre, hputting, ?_⟩
  rw [play_concat]
  exact hlive

theorem Upholds.contract (h : Upholds P (s.Given P) Inv May) (hown : PutsOwn P Inv) (hs : Inv s)
    (hfresh : s.Fresh) (hmay : ∀ pre i, pre ++ [i] <+: turns → May (s.play P pre) i) : s.Contract P turns :=
  ⟨fun _ _ => h.got_known hs hmay, h.own hown hs hfresh hmay, h.harmless hs hmay⟩

/-- A further invariant, on a further condition. -/
theorem Upholds.and {Inv' : Team ι σ π ρ τ → Prop} (h : Upholds P known Inv fun _ _ => True)
    (hstep : ∀ s i, Inv' s → May s i → Inv' (s.step P i)) :
    Upholds P known (fun s => Inv s ∧ Inv' s) May where
  step s i hinv hmay := ⟨h.step s i hinv.1 trivial, hstep s i hinv.2 hmay⟩
  whole s i bytes hinv := h.whole s i bytes hinv.1
  still s i hinv _ := h.still s i hinv.1 trivial

end Team

end ClassCatalog
