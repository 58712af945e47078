import ClassCatalog.Proofs.View.Closure

/-!
# What a query comes to

`Settles v p x`: from every sound memo the question `p` comes to `x` and leaves a sound memo, so that
`x` does not depend on what was asked before. Every query comes to an `outcome`: it stops at a name
that is not known, or it answers (`Request.settles_run`). Where it stops depends on the strictness
(`Request.stop?`); what it answers if it does not stop does not (`Request.answer`).
-/

namespace ClassCatalog.Query

variable {v : View} {α β : Type} {options : QueryOptions}

/-- From every sound memo the question comes to `x`. -/
def Settles (v : View) (p : Ask α) (x : Except ScanError α) : Prop :=
  ∀ m : View.Memo, m.Sound v → wp p (fun r m' => r = x ∧ m'.Sound v) m

/-- A query that stops at a name, or else answers. -/
def outcome (stop : Option String) (a : α) : Except ScanError α :=
  match stop with
  | some name => .error (.unknownReferenceType name)
  | none => .ok a

theorem outcome_eq_error_iff {stop : Option String} {a : α} {name : String} :
    outcome stop a = .error (.unknownReferenceType name) ↔ stop = some name := by
  cases stop <;> simp [outcome]

theorem settles_pure (a : α) : Settles v (pure a) (outcome none a) := fun _ h => ⟨rfl, h⟩

/-- The second question is asked only if the first does not stop. -/
theorem Settles.bind {p : Ask α} {f : α → Ask β} {a : α} {b : β} {stop stop' : Option String}
    (hp : Settles v p (outcome stop a)) (hf : Settles v (f a) (outcome stop' b)) :
    Settles v (p >>= f) (outcome (stop.or stop') b) := by
  intro m h
  rw [wp_bind]
  refine wp_mono (hp m h) ?_
  rintro r m' ⟨rfl, h'⟩
  cases stop with
  | some name => exact ⟨rfl, h'⟩
  | none => exact hf m' h'

/-- The second question does not stop. -/
theorem Settles.bind_ok {p : Ask α} {f : α → Ask β} {a : α} {b : β} {stop : Option String}
    (hp : Settles v p (outcome stop a)) (hf : Settles v (f a) (outcome none b)) :
    Settles v (p >>= f) (outcome stop b) := by
  have h := hp.bind hf
  rwa [Option.or_none] at h

theorem Settles.map {p : Ask α} {f : α → β} {a : α} {stop : Option String}
    (hp : Settles v p (outcome stop a)) :
    Settles v (do let a ← p; return f a) (outcome stop (f a)) :=
  hp.bind_ok (settles_pure (f a))

theorem settles_supertypes (name : String) :
    Settles v (liftM (v.supertypes name) : Ask NameSet) (outcome none (v.computeSupertypes name)) := by
  intro m h
  obtain ⟨hanswer, hsound⟩ := View.run_supertypes h name
  exact ⟨congrArg Except.ok hanswer, hsound⟩

theorem settles_inheritedAnnotations (name : String) :
    Settles v (liftM (v.inheritedAnnotations name) : Ask NameSet)
      (outcome none (v.computeInherited name)) := by
  intro m h
  obtain ⟨hanswer, hsound⟩ := View.run_inheritedAnnotations h name
  exact ⟨congrArg Except.ok hanswer, hsound⟩

/-- The ancestors of a name that no container defines. -/
def boundary (v : View) (name : String) : List String :=
  (v.computeSupertypes name).names.filter fun n => !v.contains n

theorem settles_boundaryTypes (name : String) :
    Settles v (liftM (v.boundaryTypes name) : Ask (List String)) (outcome none (boundary v name)) := by
  intro m h
  obtain ⟨hanswer, hsound⟩ := View.run_boundaryTypes h name
  exact ⟨congrArg Except.ok hanswer, hsound⟩

/-! ### Where a query stops -/

/-- A strict query stops at a name that it does not know. -/
def unknown? (v : View) (options : QueryOptions) (name : String) : Option String :=
  if options.strict && !isKnown v options name then some name else none

/-- And on account of a class at the first ancestor that it does not know. -/
def gap? (v : View) (options : QueryOptions) (className : String) : Option String :=
  (boundary v className).findSome? (unknown? v options)

theorem findSome?_cons_or (f : α → Option β) (a : α) (l : List α) :
    (a :: l).findSome? f = (f a).or (l.findSome? f) := by
  rw [List.findSome?_cons]
  cases f a <;> rfl

theorem settles_checkKnown (name : String) :
    Settles v (checkKnown v options name) (outcome (unknown? v options name) ()) := by
  unfold checkKnown unknown?
  intro m h
  split <;> exact ⟨rfl, h⟩

theorem settles_forM (names : List String) :
    Settles v (names.forM (checkKnown v options))
      (outcome (names.findSome? (unknown? v options)) ()) := by
  induction names with
  | nil => exact settles_pure ()
  | cons name names ih =>
    rw [findSome?_cons_or]
    exact (settles_checkKnown name).bind ih

theorem settles_checkBoundaries (name : String) :
    Settles v (checkBoundaries v options name) (outcome (gap? v options name) ()) := by
  unfold checkBoundaries
  split
  · exact (settles_boundaryTypes name).bind (settles_forM _)
  · rename_i hlenient
    have hnone : gap? v options name = none := by simp [gap?, unknown?, hlenient]
    rw [hnone]
    exact settles_pure ()

/-- Records are looked at in their order, up to the first at which the query stops. -/
theorem settles_select {test : ClassRecord → Ask Bool} {stop : ClassRecord → Option String}
    {passes : ClassRecord → Bool} (h : ∀ r, Settles v (test r) (outcome (stop r) (passes r)))
    (records : List ClassRecord) :
    Settles v (select test records)
      (outcome (records.findSome? stop) ((records.filter passes).map (·.name))) := by
  induction records with
  | nil => exact settles_pure []
  | cons r records ih =>
    rw [findSome?_cons_or, List.filter_cons]
    refine (h r).bind ?_
    have hrest := ih.map (f := fun others => if passes r then r.name :: others else others)
    cases hpasses : passes r with
    | true =>
      rw [hpasses] at hrest
      exact hrest
    | false =>
      rw [hpasses] at hrest
      exact hrest

/-! ### The queries -/

/-- The first ancestor that is not known, of the first class that has one. -/
def firstGap? (v : View) (options : QueryOptions) : Option String :=
  (candidates v options).findSome? fun r => gap? v options r.name

/-- The classes that pass a test. -/
def passing (v : View) (options : QueryOptions) (passes : ClassRecord → Bool) : List String :=
  ((candidates v options).filter passes).map (·.name)

theorem settles_annotated (target : String) (inherited : Bool) :
    Settles v (annotated v target inherited options)
      (outcome ((unknown? v options target).or (if inherited then firstGap? v options else none))
        (passing v options fun r => r.hasOnClass target ||
          inherited && (v.computeInherited r.name).contains target)) := by
  unfold annotated
  refine (settles_checkKnown target).bind ?_
  cases inherited with
  | true =>
    refine settles_select (fun r => (settles_checkBoundaries r.name).bind_ok ?_) _
    cases hown : r.hasOnClass target with
    | true => exact settles_pure true
    | false => exact (settles_inheritedAnnotations r.name).map
  | false =>
    have hnone : (candidates v options).findSome? (fun _ => (none : Option String)) = none := by simp
    rw [if_neg Bool.false_ne_true, ← hnone]
    refine settles_select (fun r => ?_) _
    cases hown : r.hasOnClass target with
    | true => exact settles_pure true
    | false => exact settles_pure false

theorem settles_assignable (target : String) :
    Settles v (assignable v target options)
      (outcome ((unknown? v options target).or (firstGap? v options))
        (passing v options fun r => r.name = target ||
          (v.computeSupertypes r.name).contains target)) := by
  unfold assignable
  refine (settles_checkKnown target).bind ?_
  refine settles_select (fun r => (settles_checkBoundaries r.name).bind_ok ?_) _
  by_cases heq : r.name = target
  · simp only [heq, if_true, decide_true, Bool.true_or]
    exact settles_pure true
  · simp only [heq, if_false, decide_false, Bool.false_or]
    exact (settles_supertypes r.name).map

namespace Request

/-- The name at which a query stops, if it does. -/
def stop? (v : View) (options : QueryOptions) : Request → Option String
  | annotated target inherited =>
    (unknown? v options target).or (if inherited then firstGap? v options else none)
  | assignable target => (unknown? v options target).or (firstGap? v options)
  | inPackage _ => none
  | fieldAnnotated target => unknown? v options target
  | methodAnnotated target => unknown? v options target
  | annotationsOn target => unknown? v options target

/-- What a query answers if it does not stop. -/
def answer (v : View) (options : QueryOptions) : Request → Answer
  | annotated target inherited => .names (passing v options fun r => r.hasOnClass target ||
      inherited && (v.computeInherited r.name).contains target)
  | assignable target => .names (passing v options fun r => r.name = target ||
      (v.computeSupertypes r.name).contains target)
  | inPackage target => .names (Query.inPackage v target options)
  | fieldAnnotated target => .names (passing v options fun r => r.hasOnField target)
  | methodAnnotated target => .names (passing v options fun r => r.hasOnMethod target)
  | annotationsOn target => .usages (((v.class? target).map (·.classAnnotations)).getD [])

theorem settles_run (request : Request) :
    Settles v (request.run v options)
      (outcome (request.stop? v options) (request.answer v options)) := by
  cases request with
  | annotated target inherited => exact (settles_annotated target inherited).map
  | assignable target => exact (settles_assignable target).map
  | inPackage target => exact settles_pure _
  | fieldAnnotated target => exact (settles_checkKnown target).map.map
  | methodAnnotated target => exact (settles_checkKnown target).map.map
  | annotationsOn target => exact (settles_checkKnown target).map.map

end Request

end ClassCatalog.Query
