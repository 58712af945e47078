import ClassCatalog.ClassFile.Record
import ClassCatalog.Proofs.ClassFile.Annotation

/-!
# Attributes and members there and back

The usages on an item are written in two attributes, those kept until run time first. What is read
back is `arranged`: the same usages in the order of the attributes. An attribute is read whole or not
at all, so that its body is spelled (`Spells`) says all about it; a member is spelled with a list of
its attributes and what each of them is read as.
-/

namespace ClassCatalog.ClassFile

open Read

variable {α β γ : Type} {pool : ConstantPool}

/-- The usages in the order in which they are read back, each with what is kept of it. -/
def arranged (us : List Usage) : List Usage :=
  [Retention.runtime, Retention.classFile].flatMap fun retention =>
    (Emit.kept retention us).map (Usage.keptAs retention)

/-- What is read back of the usages on parameters: nothing if there are none. -/
def arrangedParameters (ps : List (List Usage)) : List (List Usage) :=
  if ps.all List.isEmpty then [] else ps.map arranged

namespace Emit

/-! ### Lists -/

theorem spells_all {p : Read α} {l : List γ} {e : γ → Emit} {f : γ → α} (hgrows : ∀ x ∈ l, Grows (e x))
    (h : ∀ x ∈ l, Spells pool p (e x) (f x)) :
    Spells pool (Read.repeated p l.length) (all (l.map e)) (l.map f) := by
  induction l with
  | nil => exact fun _ _ => .pure []
  | cons x l ih =>
    have hgrows' : ∀ y ∈ l, Grows (e y) := fun y hy => hgrows y (List.mem_cons_of_mem _ hy)
    have hrest : Grows (all (l.map e)) := by
      refine grows_all fun e' he' => ?_
      obtain ⟨y, hy, rfl⟩ := List.mem_map.1 he'
      exact hgrows' y hy
    intro w hall
    exact reads_repeated_cons (h x (List.mem_cons_self ..) w (hall.of_grows (hrest _)))
      (ih hgrows' (fun y hy => h y (List.mem_cons_of_mem _ hy)) _ hall)

/-- A count, and as many items. -/
theorem spells_counted {p : Read α} {l : List γ} {e : γ → Emit} {f : γ → α}
    (hgrows : ∀ x ∈ l, Grows (e x)) (h : ∀ x ∈ l, Spells pool p (e x) (f x)) (hlen : l.length ≤ 0xFFFF) :
    Spells pool (do let count ← Read.u2; Read.repeated p count.toNat)
      (do let bytes ← all (l.map e); return u2 l.length ++ bytes) (l.map f) := by
  intro w hall
  refine reads_count hlen fun count hn => ?_
  rw [hn]
  exact spells_all hgrows h w hall

/-! ### Bodies of attributes -/

variable {ctx : AttributeContext}

/-- Usages that have a form in class files and are not more than a count can say. -/
structure AreWritable (us : List Usage) : Prop where
  count : us.length ≤ 0xFFFF
  each : ∀ u ∈ us, u.isWritable = true ∧ u.depth ≤ nestingLimit

instance (us : List Usage) : Decidable (AreWritable us) :=
  decidable_of_iff (us.length ≤ 0xFFFF ∧ ∀ u ∈ us, u.isWritable = true ∧ u.depth ≤ nestingLimit)
    ⟨fun h => ⟨h.1, h.2⟩, fun h => ⟨h.count, h.each⟩⟩

theorem spells_usages {us : List Usage} (h : AreWritable us) :
    Spells ctx.pool ctx.usages (usages us) (us.map (Usage.keptAs ctx.retention)) :=
  spells_counted (fun u _ => grows_usage u)
    (fun u hu => spells_usage u nestingLimit (h.each u hu).1 (h.each u hu).2) h.count

theorem grows_parameterUsages (retention : Retention) (ps : List (List Usage)) :
    Grows (parameterUsages retention ps) := by
  refine (grows_all fun e he => ?_).bind_pure _
  obtain ⟨us, -, rfl⟩ := List.mem_map.1 he
  exact grows_usages _

theorem measured_parameterUsages (retention : Retention) (ps : List (List Usage)) :
    Measured (parameterUsages retention ps) := by
  refine measured_counted (measured_all fun e he => ?_) 1 ps.length
  obtain ⟨us, -, rfl⟩ := List.mem_map.1 he
  exact measured_usages _

/-- The usages on each parameter, as many as one byte counts. -/
theorem spells_parameterUsages {ps : List (List Usage)} (hlen : ps.length ≤ 0xFF)
    (h : ∀ us ∈ ps, AreWritable (kept ctx.retention us)) :
    Spells ctx.pool ctx.parameters (parameterUsages ctx.retention ps)
      (ps.map fun us => (kept ctx.retention us).map (Usage.keptAs ctx.retention)) := by
  intro w hall
  have hn : (UInt8.ofNat ps.length).toNat = ps.length := by
    rw [UInt8.toNat_ofNat', Nat.mod_eq_of_lt (by omega)]
  show Reads _ ([UInt8.ofNat ps.length] ++
    ((all (ps.map fun us => usages (kept ctx.retention us))).run w).1) _
  refine (reads_u1 _).bind ?_
  rw [hn]
  exact spells_all (fun us _ => grows_usages _) (fun us hus => spells_usages (h us hus)) w hall

theorem body_of_reads {p : Read α} {bytes : Bytes} {a : α} (h : Reads p bytes a) :
    ctx.body p bytes = .ok a := by
  have hrun := h 0 []
  rw [List.append_nil] at hrun
  unfold AttributeContext.body
  rw [show Cursor.start bytes = ⟨0, bytes⟩ from rfl, hrun]
  exact if_pos rfl

/-! ### Attributes -/

/-- An attribute is read as what its body holds. -/
theorem spells_namedAttribute {owner : Attribute.Owner} {name : String} {body : Emit} {a : Attribute}
    (hmeasured : Measured body) (hsize : size body < 2 ^ 32)
    (h : ∀ w : PoolWriter, pool.HasAll (body.run w).2 →
      Attribute.ofBody pool owner name (body.run w).1 = .ok a) :
    Spells pool (Attribute.read pool owner) (namedAttribute name body) a := by
  intro w hall
  have hlen : (UInt32.ofNat (body.run w).1.length).toNat = (body.run w).1.length := by
    rw [UInt32.toNat_ofNat', hmeasured.length_eq, Nat.mod_eq_of_lt hsize]
  have hname : pool.Has (.utf8 name) _ := has_intern hall
  have hbody := h w (hall.of_grows (grows_text name _))
  have hslice := reads_slice (body.run w).1
  rw [← hlen] at hslice
  show Reads _ (((text name).run (body.run w).2).1 ++ Bytes.bigEndian 4 (body.run w).1.length ++
    (body.run w).1) _
  rw [List.append_assoc]
  exact (reads_index (.utf8 name) _).bind (.lift_bind hname ((reads_u4 _).bind (hslice.bind_lift hbody)))

/-- The usages on an item can be written. -/
structure Annotates (us : List Usage) : Prop where
  writable (retention : Retention) : AreWritable (kept retention us)
  size (retention : Retention) : size (usages (kept retention us)) < 2 ^ 32

instance (us : List Usage) : Decidable (Annotates us) :=
  decidable_of_iff (∀ retention, AreWritable (kept retention us) ∧ size (usages (kept retention us)) < 2 ^ 32)
    ⟨fun h => ⟨fun r => (h r).1, fun r => (h r).2⟩, fun h r => ⟨h.writable r, h.size r⟩⟩

/-- The usages on the parameters of a method can be written. -/
structure AnnotatesParameters (ps : List (List Usage)) : Prop where
  count : ps.length ≤ 0xFF
  writable (retention : Retention) : ∀ us ∈ ps, AreWritable (kept retention us)
  size (retention : Retention) : size (parameterUsages retention ps) < 2 ^ 32

instance (ps : List (List Usage)) : Decidable (AnnotatesParameters ps) :=
  decidable_of_iff (ps.length ≤ 0xFF ∧ ∀ retention, (∀ us ∈ ps, AreWritable (kept retention us)) ∧
      size (parameterUsages retention ps) < 2 ^ 32)
    ⟨fun h => ⟨h.1, fun r => (h.2 r).1, fun r => (h.2 r).2⟩,
      fun h => ⟨h.count, fun r => ⟨h.writable r, h.size r⟩⟩⟩

theorem ofName_annotationsName (retention : Retention) :
    AttributeKind.ofName (AttributeKind.annotationsName retention) = .annotations retention := by
  cases retention <;> simp [AttributeKind.ofName, AttributeKind.annotationsName]

theorem ofName_parameterAnnotationsName (retention : Retention) :
    AttributeKind.ofName (AttributeKind.parameterAnnotationsName retention) =
      .parameterAnnotations retention := by
  cases retention <;> simp [AttributeKind.ofName, AttributeKind.annotationsName,
    AttributeKind.parameterAnnotationsName]

variable {owner : Attribute.Owner}

theorem ofBody_annotations (ctx : AttributeContext) (owner : Attribute.Owner)
    (hname : ctx.name = AttributeKind.annotationsName ctx.retention) (bytes : Bytes) :
    Attribute.ofBody ctx.pool owner ctx.name bytes = (ctx.body ctx.usages bytes).map Attribute.annotations := by
  rcases ctx with ⟨pool, name, retention⟩
  obtain rfl : name = AttributeKind.annotationsName retention := hname
  unfold Attribute.ofBody
  simp only [ofName_annotationsName]

theorem ofBody_parameterAnnotations (ctx : AttributeContext)
    (hname : ctx.name = AttributeKind.parameterAnnotationsName ctx.retention) (bytes : Bytes) :
    Attribute.ofBody ctx.pool .method ctx.name bytes =
      (ctx.body ctx.parameters bytes).map Attribute.parameterAnnotations := by
  rcases ctx with ⟨pool, name, retention⟩
  obtain rfl : name = AttributeKind.parameterAnnotationsName retention := hname
  unfold Attribute.ofBody
  simp only [ofName_parameterAnnotationsName]

theorem spells_annotations {us : List Usage} (h : Annotates us) (retention : Retention) :
    Spells pool (Attribute.read pool owner)
      (namedAttribute (AttributeKind.annotationsName retention) (usages (kept retention us)))
      (.annotations ((kept retention us).map (Usage.keptAs retention))) := by
  refine spells_namedAttribute (measured_usages _) (h.size retention) fun w hall => ?_
  let ctx : AttributeContext := ⟨pool, AttributeKind.annotationsName retention, retention⟩
  have hread : Reads ctx.usages ((usages (kept retention us)).run w).1
      ((kept retention us).map (Usage.keptAs retention)) := spells_usages (h.writable retention) w hall
  refine (ofBody_annotations ctx owner rfl _).trans ?_
  rw [body_of_reads hread]
  rfl

theorem spells_parameterAnnotations {ps : List (List Usage)} (h : AnnotatesParameters ps)
    (retention : Retention) :
    Spells pool (Attribute.read pool .method)
      (namedAttribute (AttributeKind.parameterAnnotationsName retention) (parameterUsages retention ps))
      (.parameterAnnotations
        (ps.map fun us => (kept retention us).map (Usage.keptAs retention))) := by
  refine spells_namedAttribute (measured_parameterUsages _ _) (h.size retention) fun w hall => ?_
  let ctx : AttributeContext := ⟨pool, AttributeKind.parameterAnnotationsName retention, retention⟩
  have hread : Reads ctx.parameters ((parameterUsages retention ps).run w).1
      (ps.map fun us => (kept retention us).map (Usage.keptAs retention)) :=
    spells_parameterUsages h.count (h.writable retention) w hall
  refine (ofBody_parameterAnnotations ctx rfl _).trans ?_
  rw [body_of_reads hread]
  rfl

/-- An attribute to be written, and what it is read as. -/
structure IsSpelling (pool : ConstantPool) (owner : Attribute.Owner) (x : Emit × Attribute) : Prop where
  grows : Grows x.1
  spells : Spells pool (Attribute.read pool owner) x.1 x.2

/-- The attributes for the usages on an item. -/
def annotationSpellings (us : List Usage) : List (Emit × Attribute) :=
  [Retention.runtime, Retention.classFile].flatMap fun retention =>
    if (kept retention us).isEmpty then []
    else
      [(namedAttribute (AttributeKind.annotationsName retention) (usages (kept retention us)),
        .annotations ((kept retention us).map (Usage.keptAs retention)))]

/-- The attributes for the usages on the parameters of a method. -/
def parameterSpellings (ps : List (List Usage)) : List (Emit × Attribute) :=
  [Retention.runtime, Retention.classFile].flatMap fun retention =>
    if ps.all fun p => (kept retention p).isEmpty then []
    else
      [(namedAttribute (AttributeKind.parameterAnnotationsName retention) (parameterUsages retention ps),
        .parameterAnnotations (ps.map fun us => (kept retention us).map (Usage.keptAs retention)))]

theorem map_fst_annotationSpellings (us : List Usage) :
    (annotationSpellings us).map (·.1) = annotationAttributes us := by
  unfold annotationSpellings annotationAttributes
  rw [List.map_flatMap]
  congr 1
  funext retention
  split <;> rfl

theorem map_fst_parameterSpellings (ps : List (List Usage)) :
    (parameterSpellings ps).map (·.1) = parameterAttributes ps := by
  unfold parameterSpellings parameterAttributes
  rw [List.map_flatMap]
  congr 1
  funext retention
  split <;> rfl

theorem isSpelling_annotations {us : List Usage} (h : Annotates us) :
    ∀ x ∈ annotationSpellings us, IsSpelling pool owner x := by
  intro x hx
  obtain ⟨retention, -, hx⟩ := List.mem_flatMap.1 hx
  split at hx
  · nomatch hx
  · rw [List.mem_singleton.1 hx]
    exact ⟨grows_namedAttribute _ (grows_usages _), spells_annotations h retention⟩

theorem isSpelling_parameters {ps : List (List Usage)} (h : AnnotatesParameters ps) :
    ∀ x ∈ parameterSpellings ps, IsSpelling pool .method x := by
  intro x hx
  obtain ⟨retention, -, hx⟩ := List.mem_flatMap.1 hx
  split at hx
  · nomatch hx
  · rw [List.mem_singleton.1 hx]
    exact ⟨grows_namedAttribute _ (grows_parameterUsages _ _), spells_parameterAnnotations h retention⟩

theorem length_flatMap_retentions_le {f : Retention → List α} (h : ∀ retention, (f retention).length ≤ 1) :
    ([Retention.runtime, Retention.classFile].flatMap f).length ≤ 2 := by
  have hr := h .runtime
  have hc := h .classFile
  simp only [List.flatMap_cons, List.flatMap_nil, List.append_nil, List.length_append]
  omega

theorem length_annotationSpellings_le (us : List Usage) : (annotationSpellings us).length ≤ 2 := by
  refine length_flatMap_retentions_le fun retention => ?_
  split <;> simp

theorem length_parameterSpellings_le (ps : List (List Usage)) : (parameterSpellings ps).length ≤ 2 := by
  refine length_flatMap_retentions_le fun retention => ?_
  split <;> simp

/-! ### Members -/

theorem grows_attributes {as : List Emit} (h : ∀ e ∈ as, Grows e) : Grows (attributes as) :=
  (grows_all h).bind_pure _

theorem grows_annotationAttributes (us : List Usage) : ∀ e ∈ annotationAttributes us, Grows e := by
  intro e he
  obtain ⟨retention, -, he⟩ := List.mem_flatMap.1 he
  split at he
  · nomatch he
  · rw [List.mem_singleton.1 he]
    exact grows_namedAttribute _ (grows_usages _)

theorem grows_parameterAttributes (ps : List (List Usage)) : ∀ e ∈ parameterAttributes ps, Grows e := by
  intro e he
  obtain ⟨retention, -, he⟩ := List.mem_flatMap.1 he
  split at he
  · nomatch he
  · rw [List.mem_singleton.1 he]
    exact grows_namedAttribute _ (grows_parameterUsages _ _)

/-- The attributes of a member. -/
theorem grows_memberAttributes (m : MemberBlueprint) :
    Grows (attributes (annotationAttributes m.annotations ++ parameterAttributes m.parameters)) := by
  refine grows_attributes fun e he => ?_
  obtain he | he := List.mem_append.1 he
  · exact grows_annotationAttributes _ e he
  · exact grows_parameterAttributes _ e he

/-- Attributes are read as many as are written. -/
theorem spells_attributes {p : Read α} {spellings : List (Emit × Attribute)} {f : Emit × Attribute → α}
    (hgrows : ∀ x ∈ spellings, Grows x.1) (h : ∀ x ∈ spellings, Spells pool p x.1 (f x))
    (hlen : spellings.length ≤ 0xFFFF) :
    Spells pool (do let count ← Read.u2; Read.repeated p count.toNat)
      (attributes (spellings.map (·.1))) (spellings.map f) := by
  unfold attributes
  rw [List.length_map]
  exact spells_counted hgrows h hlen

/-- A member is read as its name, its descriptor and what its attributes are read as. -/
theorem spells_member {m : MemberBlueprint} {spellings : List (Emit × Attribute)}
    (hattributes : annotationAttributes m.annotations ++ parameterAttributes m.parameters =
      spellings.map (·.1))
    (hlen : spellings.length ≤ 0xFFFF) (h : ∀ x ∈ spellings, IsSpelling pool owner x) :
    Spells pool (Part.readMember pool owner) (member m) (m.name, m.descriptor, spellings.map (·.2)) := by
  let as := attributes (annotationAttributes m.annotations ++ parameterAttributes m.parameters)
  have hspells : Spells pool (do
      let count ← Read.u2
      Read.repeated (Attribute.read pool owner) count.toNat) as (spellings.map (·.2)) := by
    show Spells pool _ (attributes _) _
    rw [hattributes]
    exact spells_attributes (fun x hx => (h x hx).grows) (fun x hx => (h x hx).spells) hlen
  have hgrows : Grows as := grows_memberAttributes m
  intro w hall
  let w' := ((text m.name).run w).2
  let w'' := ((text m.descriptor).run w').2
  have hall'' : pool.HasAll w'' := hall.of_grows (hgrows w'')
  have hall' : pool.HasAll w' := hall''.of_grows (grows_text m.descriptor w')
  have hname : pool.Has (.utf8 m.name) _ := has_intern hall'
  have hdescriptor : pool.Has (.utf8 m.descriptor) _ := has_intern hall''
  have hcounted := (hspells w'' hall).bind_pure
    (g := fun attributes => (m.name, m.descriptor, attributes)) rfl
  rw [bind_assoc] at hcounted
  show Reads _ (u2 1 ++ ((text m.name).run w).1 ++ ((text m.descriptor).run w').1 ++ (as.run w'').1) _
  rw [List.append_assoc, List.append_assoc]
  exact (reads_skip (u2 1)).bind ((reads_index _ w).bind (.lift_bind hname
    ((reads_index _ w').bind (.lift_bind hdescriptor hcounted))))

/-! ### Fields and methods -/

theorem arranged_eq (us : List Usage) :
    arranged us = (kept .runtime us).map (Usage.keptAs .runtime) ++
      (kept .classFile us).map (Usage.keptAs .classFile) := by
  simp [arranged]

theorem flatMap_usages_annotationSpellings (us : List Usage) :
    ((annotationSpellings us).map (·.2)).flatMap Attribute.usages = arranged us := by
  unfold annotationSpellings arranged
  rw [List.map_flatMap, List.flatMap_assoc]
  congr 1
  funext retention
  split
  next h => simp [List.isEmpty_iff.1 h]
  next => simp [Attribute.usages]

theorem flatMap_usages_parameterSpellings (ps : List (List Usage)) :
    ((parameterSpellings ps).map (·.2)).flatMap Attribute.usages = [] := by
  unfold parameterSpellings
  rw [List.map_flatMap, List.flatMap_assoc, List.flatMap_eq_nil_iff]
  intro retention _
  split <;> rfl

theorem mergeParameters_map (f g : List Usage → List Usage) (ps : List (List Usage)) :
    Attribute.mergeParameters (ps.map f) (ps.map g) = ps.map fun us => f us ++ g us := by
  induction ps with
  | nil => rfl
  | cons us ps ih =>
    show (f us ++ g us) :: Attribute.mergeParameters (ps.map f) (ps.map g) = _
    rw [ih]
    rfl

/-- Usages are kept until run time or only in the class file. -/
theorem eq_nil_of_kept {us : List Usage} (h : ∀ retention, kept retention us = []) : us = [] := by
  cases us with
  | nil => rfl
  | cons u us =>
    have hu := h u.retention
    simp [kept] at hu

theorem mergedParameters_annotationSpellings (us : List Usage) (as : List Attribute) :
    Attribute.mergedParameters ((annotationSpellings us).map (·.2) ++ as) =
      Attribute.mergedParameters as := by
  unfold annotationSpellings Attribute.mergedParameters
  simp only [List.flatMap_cons, List.flatMap_nil, List.append_nil]
  split <;> split <;> rfl

/-- There are no usages on parameters if none of either retention is on one. -/
theorem all_isEmpty_iff {ps : List (List Usage)} :
    ps.all List.isEmpty = true ↔
      ∀ retention, (ps.all fun us => (kept retention us).isEmpty) = true := by
  simp only [List.all_eq_true, List.isEmpty_iff]
  constructor
  · intro h retention us hus
    rw [h us hus]
    rfl
  · exact fun h us hus => eq_nil_of_kept fun retention => h retention us hus

theorem map_arranged_of_kept_eq_nil {ps : List (List Usage)} :
    ((ps.all fun us => (kept .runtime us).isEmpty) = true →
      ps.map arranged = ps.map fun us => (kept .classFile us).map (Usage.keptAs .classFile)) ∧
    ((ps.all fun us => (kept .classFile us).isEmpty) = true →
      ps.map arranged = ps.map fun us => (kept .runtime us).map (Usage.keptAs .runtime)) := by
  simp only [List.all_eq_true, List.isEmpty_iff]
  refine ⟨fun h => List.map_congr_left fun us hus => ?_, fun h => List.map_congr_left fun us hus => ?_⟩
  · rw [arranged_eq, h us hus, List.map_nil, List.nil_append]
  · rw [arranged_eq, h us hus, List.map_nil, List.append_nil]

theorem all_isEmpty_eq_false {ps : List (List Usage)} {retention : Retention}
    (h : (ps.all fun us => (kept retention us).isEmpty) = false) : ps.all List.isEmpty = false := by
  rw [Bool.eq_false_iff] at h ⊢
  exact fun hall => h (all_isEmpty_iff.1 hall retention)

theorem mergedParameters_parameterSpellings (ps : List (List Usage)) :
    Attribute.mergedParameters ((parameterSpellings ps).map (·.2)) = arrangedParameters ps := by
  unfold parameterSpellings arrangedParameters
  simp only [List.flatMap_cons, List.flatMap_nil, List.append_nil]
  cases hr : ps.all fun us => (kept .runtime us).isEmpty with
  | true =>
    cases hc : ps.all fun us => (kept .classFile us).isEmpty with
    | true =>
      rw [all_isEmpty_iff.2 fun retention => by cases retention <;> assumption]
      rfl
    | false =>
      rw [all_isEmpty_eq_false hc, map_arranged_of_kept_eq_nil.1 hr]
      rfl
  | false =>
    rw [all_isEmpty_eq_false hr]
    cases hc : ps.all fun us => (kept .classFile us).isEmpty with
    | true =>
      rw [map_arranged_of_kept_eq_nil.2 hc]
      rfl
    -- Only here are there two attributes, and lists to be joined.
    | false =>
      refine (mergeParameters_map _ _ ps).trans (List.map_congr_left fun us _ => ?_)
      rw [arranged_eq]

theorem spells_field {m : MemberBlueprint} (h : Annotates m.annotations) (hparameters : m.parameters = []) :
    Spells pool (Part.readField pool) (member m) (.field m.name (arranged m.annotations)) := by
  have hlen := length_annotationSpellings_le m.annotations
  have hattributes : annotationAttributes m.annotations ++ parameterAttributes m.parameters =
      (annotationSpellings m.annotations).map (·.1) := by
    rw [hparameters, map_fst_annotationSpellings]
    exact List.append_nil _
  rw [← flatMap_usages_annotationSpellings]
  exact fun w hall =>
    (spells_member hattributes (by omega) (isSpelling_annotations h) w hall).bind_nil (.pure _)

theorem spells_method {m : MemberBlueprint} (h : Annotates m.annotations)
    (hparameters : AnnotatesParameters m.parameters) :
    Spells pool (Part.readMethod pool) (member m)
      (.method (ClassRecord.methodKey m.name m.descriptor) (arranged m.annotations)
        (arrangedParameters m.parameters)) := by
  have hlen := length_annotationSpellings_le m.annotations
  have hlen' := length_parameterSpellings_le m.parameters
  let spellings := annotationSpellings m.annotations ++ parameterSpellings m.parameters
  have hattributes : annotationAttributes m.annotations ++ parameterAttributes m.parameters =
      spellings.map (·.1) := by
    rw [List.map_append, map_fst_annotationSpellings, map_fst_parameterSpellings]
  have husages : (spellings.map (·.2)).flatMap Attribute.usages = arranged m.annotations := by
    rw [List.map_append, List.flatMap_append, flatMap_usages_annotationSpellings,
      flatMap_usages_parameterSpellings, List.append_nil]
  have hmerged : Attribute.mergedParameters (spellings.map (·.2)) = arrangedParameters m.parameters := by
    rw [List.map_append, mergedParameters_annotationSpellings, mergedParameters_parameterSpellings]
  have hspellings : ∀ x ∈ spellings, IsSpelling pool .method x := by
    intro x hx
    obtain hx | hx := List.mem_append.1 hx
    · exact isSpelling_annotations h x hx
    · exact isSpelling_parameters hparameters x hx
  rw [← husages, ← hmerged]
  have hcount : spellings.length ≤ 0xFFFF := by
    rw [List.length_append]
    omega
  exact fun w hall => (spells_member hattributes hcount hspellings w hall).bind_nil (.pure _)

theorem spells_classAttribute {x : Emit × Attribute} (h : IsSpelling pool .classItself x) :
    Spells pool (Part.readClassAttribute pool) x.1 (.classAttribute x.2.usages) :=
  h.spells.map rfl

end Emit

end ClassCatalog.ClassFile
