import ClassCatalog.Proofs.View.Reachability
import ClassCatalog.Proofs.Wp
import ClassCatalog.Query

/-!
# Closures with answers kept

A view keeps the answers it has given. `Memo.Sound` says that every answer kept is the one that would
be computed; each question answers from a sound memo what it would compute and leaves a sound memo,
and so does every query, whether it succeeds or stops at a name it does not know (`Query.Keeps`).
Hence no history of questions shows in an answer: `closures_exact` describes the three closures by
the edges of the hierarchy alone.
-/

namespace ClassCatalog

open Relation

namespace View

variable {v : View} {m : Memo}

/-- Every answer kept is the one that would be computed. -/
structure Memo.Sound (v : View) (m : Memo) : Prop where
  supertypes : ∀ name names, m.supertypes.find? name = some names → names = v.computeSupertypes name
  inherited : ∀ name names, m.inherited.find? name = some names → names = v.computeInherited name

theorem Memo.sound_empty (v : View) : ({} : Memo).Sound v where
  supertypes _ _ h := by cases h
  inherited _ _ h := by cases h

theorem run_supertypes (h : m.Sound v) (name : String) :
    ((v.supertypes name).run m).1 = v.computeSupertypes name ∧
      ((v.supertypes name).run m).2.Sound v := by
  cases hfind : m.supertypes.find? name with
  | some names =>
    have hrun : (v.supertypes name).run m = (names, m) := by
      simp [View.supertypes, hfind]
      rfl
    rw [hrun]
    exact ⟨h.supertypes name names hfind, h⟩
  | none =>
    have hrun : (v.supertypes name).run m = (v.computeSupertypes name,
        { m with supertypes := m.supertypes.insert name (v.computeSupertypes name) }) := by
      simp [View.supertypes, hfind]
      rfl
    rw [hrun]
    refine ⟨rfl, fun other names hother => ?_, h.inherited⟩
    rw [NameMap.find?_insert] at hother
    split at hother
    · rename_i heq
      cases hother
      rw [heq]
    · exact h.supertypes other names hother

theorem run_inheritedAnnotations (h : m.Sound v) (name : String) :
    ((v.inheritedAnnotations name).run m).1 = v.computeInherited name ∧
      ((v.inheritedAnnotations name).run m).2.Sound v := by
  cases hfind : m.inherited.find? name with
  | some names =>
    have hrun : (v.inheritedAnnotations name).run m = (names, m) := by
      simp [View.inheritedAnnotations, hfind]
      rfl
    rw [hrun]
    exact ⟨h.inherited name names hfind, h⟩
  | none =>
    have hrun : (v.inheritedAnnotations name).run m = (v.computeInherited name,
        { m with inherited := m.inherited.insert name (v.computeInherited name) }) := by
      simp [View.inheritedAnnotations, hfind]
      rfl
    rw [hrun]
    refine ⟨rfl, h.supertypes, fun other names hother => ?_⟩
    rw [NameMap.find?_insert] at hother
    split at hother
    · rename_i heq
      cases hother
      rw [heq]
    · exact h.inherited other names hother

theorem run_boundaryTypes (h : m.Sound v) (name : String) :
    ((v.boundaryTypes name).run m).1 =
        (v.computeSupertypes name).names.filter (fun n => !v.contains n) ∧
      ((v.boundaryTypes name).run m).2.Sound v := by
  obtain ⟨hanswer, hsound⟩ := run_supertypes h name
  refine ⟨?_, hsound⟩
  rw [← hanswer]
  rfl

end View

/-! ### Queries -/

namespace Query

variable {v : View} {α β : Type}

/-- A question that leaves a sound memo sound, however it ends. -/
def Keeps (v : View) (p : Ask α) : Prop :=
  ∀ m : View.Memo, m.Sound v → wp p (fun _ m' => m'.Sound v) m

theorem keeps_pure (a : α) : Keeps v (pure a) := fun _ h => h

theorem keeps_throw (e : ScanError) : Keeps v (throw e : Ask α) := fun _ h => h

theorem keeps_bind {p : Ask α} {f : α → Ask β} (hp : Keeps v p) (hf : ∀ a, Keeps v (f a)) :
    Keeps v (p >>= f) := by
  intro m h
  rw [wp_bind]
  refine wp_mono (hp m h) fun r m' h' => ?_
  cases r with
  | ok a => exact hf a m' h'
  | error e => exact h'

theorem keeps_liftM {p : View.Ask α} (h : ∀ m : View.Memo, m.Sound v → (p.run m).2.Sound v) :
    Keeps v (liftM p : Ask α) := h

theorem keeps_checkKnown (options : QueryOptions) (name : String) :
    Keeps v (checkKnown v options name) := by
  unfold checkKnown
  split
  · exact keeps_throw _
  · exact keeps_pure ()

theorem keeps_forM {f : String → Ask Unit} (hf : ∀ name, Keeps v (f name)) (names : List String) :
    Keeps v (names.forM f) := by
  induction names with
  | nil => exact keeps_pure ()
  | cons name names ih => exact keeps_bind (hf name) fun _ => ih

theorem keeps_checkBoundaries (options : QueryOptions) (name : String) :
    Keeps v (checkBoundaries v options name) := by
  unfold checkBoundaries
  split
  · exact keeps_bind (keeps_liftM fun m h => (View.run_boundaryTypes h name).2) fun boundary =>
      keeps_forM (keeps_checkKnown options) boundary
  · exact keeps_pure ()

theorem keeps_select {test : ClassRecord → Ask Bool} (h : ∀ r, Keeps v (test r))
    (records : List ClassRecord) : Keeps v (select test records) := by
  induction records with
  | nil => exact keeps_pure []
  | cons r records ih =>
    exact keeps_bind (h r) fun _ => keeps_bind ih fun _ => keeps_pure _

theorem keeps_annotated (target : String) (inherited : Bool) (options : QueryOptions) :
    Keeps v (annotated v target inherited options) := by
  unfold annotated
  refine keeps_bind (keeps_checkKnown options target) fun _ => keeps_select (fun r => ?_) _
  have hown : Keeps v (if r.hasOnClass target then pure true
      else if inherited then do
        let names ← (v.inheritedAnnotations r.name : View.Ask NameSet)
        pure (names.contains target)
      else pure false : Ask Bool) := by
    split
    · exact keeps_pure true
    · split
      · exact keeps_bind (keeps_liftM fun m h => (View.run_inheritedAnnotations h r.name).2)
          fun _ => keeps_pure _
      · exact keeps_pure false
  cases inherited with
  | true => exact keeps_bind (keeps_checkBoundaries options r.name) fun _ => hown
  | false => exact hown

theorem keeps_assignable (target : String) (options : QueryOptions) :
    Keeps v (assignable v target options) := by
  unfold assignable
  refine keeps_bind (keeps_checkKnown options target) fun _ => keeps_select (fun r => ?_) _
  refine keeps_bind (keeps_checkBoundaries options r.name) fun _ => ?_
  split
  · exact keeps_pure true
  · exact keeps_bind (keeps_liftM fun m h => (View.run_supertypes h r.name).2) fun _ => keeps_pure _

theorem Request.keeps_run (options : QueryOptions) (request : Request) :
    Keeps v (request.run v options) := by
  cases request with
  | annotated target inherited =>
    exact keeps_bind (keeps_annotated target inherited options) fun _ => keeps_pure _
  | assignable target =>
    exact keeps_bind (keeps_assignable target options) fun _ => keeps_pure _
  | inPackage target => exact keeps_pure _
  | fieldAnnotated target =>
    exact keeps_bind (keeps_bind (keeps_checkKnown options target) fun _ => keeps_pure _)
      fun _ => keeps_pure _
  | methodAnnotated target =>
    exact keeps_bind (keeps_bind (keeps_checkKnown options target) fun _ => keeps_pure _)
      fun _ => keeps_pure _
  | annotationsOn target =>
    exact keeps_bind (keeps_bind (keeps_checkKnown options target) fun _ => keeps_pure _)
      fun _ => keeps_pure _

end Query

/-! ### Histories -/

namespace View

/-- What can be asked of a view, and the order to forget the answers. -/
inductive Call where
  | supertypes (name : String)
  | inheritedAnnotations (name : String)
  | boundaryTypes (name : String)
  | query (options : QueryOptions) (request : Query.Request)
  | clearMemo

/-- The memo after a call, whether it succeeds or fails. -/
def Call.run (v : View) (m : Memo) : Call → Memo
  | supertypes name => ((v.supertypes name).run m).2
  | inheritedAnnotations name => ((v.inheritedAnnotations name).run m).2
  | boundaryTypes name => ((v.boundaryTypes name).run m).2
  | query options request => ((request.run v options).run.run m).2
  | clearMemo => (View.clearMemo.run m).2

theorem Call.sound_run {v : View} {m : Memo} (h : m.Sound v) (call : Call) :
    (call.run v m).Sound v := by
  cases call with
  | supertypes name => exact (run_supertypes h name).2
  | inheritedAnnotations name => exact (run_inheritedAnnotations h name).2
  | boundaryTypes name => exact (run_boundaryTypes h name).2
  | query options request => exact request.keeps_run options m h
  | clearMemo => exact Memo.sound_empty v

theorem sound_foldl_run {v : View} {m : Memo} (h : m.Sound v) (calls : List Call) :
    (calls.foldl (Call.run v) m).Sound v := by
  induction calls generalizing m with
  | nil => exact h
  | cons call calls ih => exact ih (call.sound_run h)

/-- After any calls: the supertypes of a name are the names behind one or more edges, its inherited
annotations those on the definitions behind zero or more, its boundary the supertypes without a
definition, in their order; and the walk visits every definition behind zero or more edges once. -/
theorem closures_exact (containers : List ViewContainer) (calls : List Call) (name : String) :
    let v := ofContainers containers
    let m := calls.foldl (Call.run v) {}
    (∀ t, ((v.supertypes name).run m).1.contains t = true ↔
      TransGen (Extends containers) name t) ∧
    (∀ t, ((v.inheritedAnnotations name).run m).1.contains t = true ↔
      ∃ n r, ReflTransGen (Extends containers) name n ∧ winner containers n = some r ∧
        ∃ u ∈ r.classAnnotations, u.typeName = t) ∧
    (∀ t, t ∈ ((v.boundaryTypes name).run m).1 ↔
      TransGen (Extends containers) name t ∧ winner containers t = none) ∧
    ((v.boundaryTypes name).run m).1.Pairwise (· < ·) ∧
    ∃ names : List String, names.Nodup ∧
      (∀ n, n ∈ names ↔
        (winner containers n).isSome ∧ ReflTransGen (Extends containers) name n) ∧
      v.ancestry name = names.filterMap (winner containers) := by
  intro v m
  have hsound : m.Sound v := sound_foldl_run (Memo.sound_empty v) calls
  refine ⟨fun t => ?_, fun t => ?_, fun t => ?_, ?_, exists_ancestry_eq containers name⟩
  · rw [(run_supertypes hsound name).1]
    exact contains_computeSupertypes containers name t
  · rw [(run_inheritedAnnotations hsound name).1]
    exact contains_computeInherited containers name t
  · rw [(run_boundaryTypes hsound name).1, List.mem_filter, NameMap.mem_names_iff,
      ← Option.isSome_iff_exists, ← contains_computeSupertypes, NameMap.contains]
    simp [v, contains_ofContainers]
  · rw [(run_boundaryTypes hsound name).1]
    exact (List.pairwise_map.mpr (v.computeSupertypes name).sorted).filter _

end View

end ClassCatalog
