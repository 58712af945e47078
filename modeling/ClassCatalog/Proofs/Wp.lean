/-!
# Computations with a state that may fail

`wp p Q s`: run from the state `s`, the computation `p` ends with an outcome and a state of which `Q`
holds. There is one lemma for every step a computation can be made of, and `wp_bind` for their
sequence: a failure ends the sequence in the state in which it arose. `Settles I F R p`: where the invariant
`I` holds, `p` keeps it and gives a result of which `R` holds or a failure of which `F` holds.
-/

namespace ClassCatalog

variable {ε σ α β : Type}

/-- Run from `s`, the computation ends with an outcome and a state of which `Q` holds. -/
def wp (p : ExceptT ε (StateM σ) α) (Q : Except ε α → σ → Prop) (s : σ) : Prop :=
  Q (p.run.run s).1 (p.run.run s).2

/-- What is required of the first of two computations: its result leads to what is required of the
second, and its failure is the failure of both. -/
def andThen (f : α → ExceptT ε (StateM σ) β) (Q : Except ε β → σ → Prop) :
    Except ε α → σ → Prop
  | .ok a, s => wp (f a) Q s
  | .error e, s => Q (.error e) s

variable {Q R : Except ε α → σ → Prop} {s : σ}

@[simp] theorem andThen_ok {f : α → ExceptT ε (StateM σ) β} {Q : Except ε β → σ → Prop} {a : α} :
    andThen f Q (.ok a) s ↔ wp (f a) Q s := Iff.rfl

@[simp] theorem andThen_error {f : α → ExceptT ε (StateM σ) β} {Q : Except ε β → σ → Prop} {e : ε} :
    andThen f Q (.error e) s ↔ Q (.error e) s := Iff.rfl

theorem eq_ok_of_isOk {x : Except ε α × σ} (h : x.1.isOk = true) : ∃ a, x = (.ok a, x.2) := by
  obtain ⟨r, s⟩ := x
  cases r with
  | ok a => exact ⟨a, rfl⟩
  | error e => nomatch h

theorem wp_of_run {p : ExceptT ε (StateM σ) α} {r : Except ε α} {s' : σ} (h : wp p Q s)
    (hrun : p.run.run s = (r, s')) : Q r s' := by
  rw [wp, hrun] at h
  exact h

theorem wp_mono {p : ExceptT ε (StateM σ) α} (h : wp p Q s) (hQ : ∀ r s', Q r s' → R r s') :
    wp p R s := hQ _ _ h

theorem wp_congr {p : ExceptT ε (StateM σ) α} (h : ∀ r s', Q r s' ↔ R r s') : wp p Q s ↔ wp p R s :=
  h ..

theorem wp_and {p : ExceptT ε (StateM σ) α} (h : wp p Q s) (h' : wp p R s) :
    wp p (fun r s' => Q r s' ∧ R r s') s := ⟨h, h'⟩

@[simp] theorem wp_pure (a : α) : wp (pure a) Q s ↔ Q (.ok a) s := Iff.rfl

@[simp] theorem wp_throw (e : ε) : wp (throw e) Q s ↔ Q (.error e) s := Iff.rfl

theorem run_bind (p : ExceptT ε (StateM σ) α) (f : α → ExceptT ε (StateM σ) β) (s : σ) :
    (p >>= f).run.run s =
      match p.run.run s with
      | (.ok a, s) => (f a).run.run s
      | (.error e, s) => (.error e, s) := by
  rw [ExceptT.run_bind, StateT.run_bind]
  cases p.run.run s with
  | mk r s' => cases r <;> rfl

theorem wp_bind (p : ExceptT ε (StateM σ) α) (f : α → ExceptT ε (StateM σ) β)
    (Q : Except ε β → σ → Prop) (s : σ) : wp (p >>= f) Q s ↔ wp p (andThen f Q) s := by
  unfold wp
  rw [run_bind]
  cases p.run.run s with
  | mk r s' => cases r <;> rfl

@[simp] theorem wp_get {Q : Except ε σ → σ → Prop} :
    wp (get : ExceptT ε (StateM σ) σ) Q s ↔ Q (.ok s) s := Iff.rfl

@[simp] theorem wp_set {Q : Except ε PUnit → σ → Prop} (s' : σ) :
    wp (set s' : ExceptT ε (StateM σ) PUnit) Q s ↔ Q (.ok ⟨⟩) s' := Iff.rfl

@[simp] theorem wp_modify {Q : Except ε PUnit → σ → Prop} (f : σ → σ) :
    wp (modify f : ExceptT ε (StateM σ) PUnit) Q s ↔ Q (.ok ⟨⟩) (f s) := Iff.rfl

/-- A computation that cannot fail, as a step of one that can. -/
@[simp] theorem wp_liftM (p : StateM σ α) :
    wp (liftM p : ExceptT ε (StateM σ) α) Q s ↔ Q (.ok (p.run s).1) (p.run s).2 := Iff.rfl

/-- An outcome that is known already, as a step. -/
@[simp] theorem wp_except (x : Except ε α) : wp (liftM x : ExceptT ε (StateM σ) α) Q s ↔ Q x s := by
  cases x <;> rfl

/-- What is required of a computation whose failures are handled. -/
def orElse (handler : ε → ExceptT ε (StateM σ) α) (Q : Except ε α → σ → Prop) :
    Except ε α → σ → Prop
  | .ok a, s => Q (.ok a) s
  | .error e, s => wp (handler e) Q s

@[simp] theorem orElse_ok {handler : ε → ExceptT ε (StateM σ) α} {a : α} :
    orElse handler Q (.ok a) s ↔ Q (.ok a) s := Iff.rfl

@[simp] theorem orElse_error {handler : ε → ExceptT ε (StateM σ) α} {e : ε} :
    orElse handler Q (.error e) s ↔ wp (handler e) Q s := Iff.rfl

theorem run_tryCatch (p : ExceptT ε (StateM σ) α) (handler : ε → ExceptT ε (StateM σ) α) (s : σ) :
    (tryCatch p handler).run.run s =
      match p.run.run s with
      | (.ok a, s) => (.ok a, s)
      | (.error e, s) => (handler e).run.run s := by
  show (ExceptT.tryCatch p handler).run.run s = _
  rw [ExceptT.tryCatch, ExceptT.run_mk, StateT.run_bind, show StateT.run p s = p.run.run s from rfl]
  cases p.run.run s with
  | mk r s' => cases r <;> rfl

theorem wp_tryCatch (p : ExceptT ε (StateM σ) α) (handler : ε → ExceptT ε (StateM σ) α) :
    wp (tryCatch p handler) Q s ↔ wp p (orElse handler Q) s := by
  unfold wp
  rw [run_tryCatch]
  cases p.run.run s with
  | mk r s' => cases r <;> rfl

/-! ### Invariants -/

/-- A result of which `R` holds, or a failure of which `F` holds. -/
def Settled (F : ε → Prop) (R : α → Prop) : Except ε α → Prop
  | .ok a => R a
  | .error e => F e

/-- From every state of which `I` holds the computation ends in one, and with such a result or failure. -/
def Settles (I : σ → Prop) (F : ε → Prop) (R : α → Prop) (p : ExceptT ε (StateM σ) α) : Prop :=
  ∀ s, I s → wp p (fun r s' => Settled F R r ∧ I s') s

namespace Settles

variable {I : σ → Prop} {F : ε → Prop} {R R' : α → Prop} {S : β → Prop}

theorem pure {a : α} (h : R a) : Settles I F R (pure a) := fun _ hs => ⟨h, hs⟩

theorem throw {e : ε} (h : F e) : Settles I F R (throw e : ExceptT ε (StateM σ) α) := fun _ hs => ⟨h, hs⟩

theorem set {s : σ} (h : I s) : Settles I F (fun _ => True) (set s : ExceptT ε (StateM σ) PUnit) :=
  fun _ _ => ⟨trivial, h⟩

theorem modify {f : σ → σ} (h : ∀ s, I s → I (f s)) :
    Settles I F (fun _ => True) (modify f : ExceptT ε (StateM σ) PUnit) :=
  fun s hs => ⟨trivial, h s hs⟩

theorem bind {p : ExceptT ε (StateM σ) α} {f : α → ExceptT ε (StateM σ) β} (hp : Settles I F R p)
    (hf : ∀ a, R a → Settles I F S (f a)) : Settles I F S (p >>= f) := by
  refine fun s hs => (wp_bind ..).2 (wp_mono (hp s hs) fun r s' hr => ?_)
  cases r with
  | ok a => exact hf a hr.1 s' hr.2
  | error e => exact hr

theorem get_bind {f : σ → ExceptT ε (StateM σ) α} (hf : ∀ s, I s → Settles I F R (f s)) :
    Settles I F R (get >>= f) := by
  intro s hs
  rw [wp_bind, wp_get, andThen_ok]
  exact hf s hs s hs

theorem tryCatch {p : ExceptT ε (StateM σ) α} {handler : ε → ExceptT ε (StateM σ) α} (hp : Settles I F R p)
    (hhandler : ∀ e, F e → Settles I F R (handler e)) : Settles I F R (tryCatch p handler) := by
  refine fun s hs => (wp_tryCatch ..).2 (wp_mono (hp s hs) fun r s' hr => ?_)
  cases r with
  | ok a => exact hr
  | error e => exact hhandler e hr.1 s' hr.2

end Settles

end ClassCatalog
