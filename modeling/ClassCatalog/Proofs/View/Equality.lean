import ClassCatalog.Proofs.Annotation.Equality
import ClassCatalog.Proofs.Container.Stamp
import ClassCatalog.View.Basic

/-!
# What equality of views is

Views are compared by their tables and by the definitions that count. Comparing them is symmetric and transitive.
A view is the same as itself if it is plain: if it has a table, and no annotation in it has a NaN. Views that are the
same have one table, so that nothing differs between their tables (`View.tables_of_same`).
-/

namespace ClassCatalog

/-! ### Records -/

namespace ClassRecord

/-- All usages on a class, its fields, its methods and their parameters. -/
def usages (r : ClassRecord) : List Usage :=
  r.classAnnotations ++ (r.fieldAnnotations.values.flatten ++ (r.methodAnnotations.values.flatten ++
    r.parameterAnnotations.values.flatten.flatten))

/-- Whether some literal in an annotation is no number. -/
def hasNaN (r : ClassRecord) : Bool := r.usages.any Usage.hasNaN

theorem equates_sameUsages :
    Equates sameUsages fun m => ∀ u ∈ m.values.flatten, u.hasNaN = false := by
  refine (((Equates.beq.on Prod.fst).both (Usage.equates.list.on Prod.snd)).list.on NameMap.entries).mono ?_
  exact fun m hm e he => ⟨trivial, fun u hu => hm u (List.mem_flatten_of_mem (List.mem_map_of_mem he) hu)⟩

theorem equates_sameParameters :
    Equates sameParameters fun m => ∀ u ∈ m.values.flatten.flatten, u.hasNaN = false := by
  refine (((Equates.beq.on Prod.fst).both (Usage.equates.list.list.on Prod.snd)).list.on NameMap.entries).mono ?_
  exact fun m hm e he => ⟨trivial, fun us hus u hu =>
    hm u (List.mem_flatten_of_mem (List.mem_flatten_of_mem (List.mem_map_of_mem he) hus) hu)⟩

/-- Comparing records is an equivalence of those without NaN. -/
theorem equates : Equates same fun r => r.hasNaN = false := by
  have hparts := (Equates.beq.on name).both (Equates.beq.on superclass) |>.both (Equates.beq.on interfaces)
    |>.both (Equates.beq.on modifiers) |>.both (Usage.equates.list.on classAnnotations)
    |>.both (equates_sameUsages.on fieldAnnotations) |>.both (equates_sameUsages.on methodAnnotations)
    |>.both (equates_sameParameters.on parameterAnnotations) |>.both (Equates.beq.on isPartial)
  refine hparts.mono fun r hr => ?_
  have husages : ∀ u ∈ r.usages, u.hasNaN = false := by simpa [hasNaN] using hr
  simp only [usages, List.forall_mem_append] at husages
  obtain ⟨hclass, hfields, hmethods, hparameters⟩ := husages
  simp only [true_and, and_true]
  exact ⟨⟨⟨hclass, hfields⟩, hmethods⟩, hparameters⟩

end ClassRecord

/-! ### Tables -/

namespace TableChange

theorem firstFrom?_self (position : Nat) (rows : List ContainerRow) : firstFrom? position rows rows = none := by
  induction rows generalizing position with
  | nil => rfl
  | cons row rows ih => simp [firstFrom?, ofRows?, ih]

theorem between?_self (rows : List ContainerRow) : between? rows rows = none := by
  simp [between?, firstFrom?_self]

end TableChange

/-! ### Views -/

namespace View

variable {u v w : View}

theorem exists_table (h : ∀ c ∈ v.containers, c.index.identity.HasStamp) : ∃ rows, v.table? = some rows := by
  unfold table?
  generalize v.containers = containers at h ⊢
  induction containers with
  | nil => exact ⟨[], rfl⟩
  | cons c cs ih =>
    obtain ⟨hc, hcs⟩ := List.forall_mem_cons.1 h
    obtain ⟨stamp, hstamp⟩ := Option.isSome_iff_exists.1 hc
    obtain ⟨rows, hrows⟩ := ih hcs
    exact ⟨_, by rw [List.mapM_cons, hrows, hstamp]; rfl⟩

/-- Every identity has a stamp, and no definition that counts has a NaN. -/
structure Plain (v : View) : Prop where
  stamps : ∀ c ∈ v.containers, c.index.identity.HasStamp
  classes : ∀ r ∈ v.classes, r.hasNaN = false

instance : Decidable v.Plain :=
  decidable_of_iff ((∀ c ∈ v.containers, c.index.identity.HasStamp) ∧ ∀ r ∈ v.classes, r.hasNaN = false)
    ⟨fun h => ⟨h.1, h.2⟩, fun h => ⟨h.stamps, h.classes⟩⟩

theorem same?_eq_true_iff : v.same? w = some true ↔ ∃ rows, v.table? = some rows ∧ w.table? = some rows ∧
    v.lookup.size = w.lookup.size ∧ listSame ClassRecord.same v.classes w.classes = true := by
  unfold same?
  cases v.table? with
  | none => simp
  | some before =>
    cases w.table? with
    | none => simp
    | some after =>
      simp only [Option.bind_eq_bind, Option.bind_some, Option.pure_def, Option.some.injEq, Bool.and_eq_true,
        beq_iff_eq, and_assoc]
      constructor
      · rintro ⟨rfl, hrest⟩
        exact ⟨before, rfl, rfl, hrest⟩
      · rintro ⟨rows, rfl, rfl, hrest⟩
        exact ⟨rfl, hrest⟩

theorem same_symm (h : v.same? w = some true) : w.same? v = some true := by
  obtain ⟨rows, hv, hw, hsize, hclasses⟩ := same?_eq_true_iff.1 h
  exact same?_eq_true_iff.2 ⟨rows, hw, hv, hsize.symm, ClassRecord.equates.list.symm hclasses⟩

theorem same_trans (h : u.same? v = some true) (h' : v.same? w = some true) : u.same? w = some true := by
  obtain ⟨rows, hu, hv, hsize, hclasses⟩ := same?_eq_true_iff.1 h
  obtain ⟨rows', hv', hw, hsize', hclasses'⟩ := same?_eq_true_iff.1 h'
  obtain rfl : rows = rows' := Option.some.inj (hv.symm.trans hv')
  exact same?_eq_true_iff.2 ⟨rows, hu, hw, hsize.trans hsize', ClassRecord.equates.list.trans hclasses hclasses'⟩

theorem Plain.same_self (h : v.Plain) : v.same? v = some true := by
  obtain ⟨rows, hrows⟩ := exists_table h.stamps
  exact same?_eq_true_iff.2 ⟨rows, hrows, hrows, rfl, ClassRecord.equates.list.refl h.classes⟩

/-- Views that are the same have tables between which nothing differs. -/
theorem tables_of_same (h : v.same? w = some true) :
    ∃ before after, v.table? = some before ∧ w.table? = some after ∧ TableChange.between? before after = none := by
  obtain ⟨rows, hv, hw, -⟩ := same?_eq_true_iff.1 h
  exact ⟨rows, rows, hv, hw, TableChange.between?_self rows⟩

end View

end ClassCatalog
