import ClassCatalog.Proofs.ClassFile.Assemble
import ClassCatalog.Proofs.ClassFile.DepthCounter
import ClassCatalog.Proofs.ClassFile.TooDeep

/-!
# The limit of nesting is exact

A blueprint that fits the format in every other respect (`Blueprint.FitsFormat`) is decoded unless one of its usages
nests deeper than `nestingLimit`. Then decoding stops with that fault: what precedes the usage does not matter.
-/

namespace ClassCatalog

mutual

theorem ElementValue.depth_keptAs (retention : Retention) : (v : ElementValue) → (v.keptAs retention).depth = v.depth
  | .byte _ | .char _ | .short _ | .int _ | .long _ | .float _ | .double _ | .boolean _ | .string _ | .enum _ _
  | .classLiteral _ => rfl
  | .nested u => Usage.depth_keptAs retention u
  | .array vs => congrArg (· + 1) (itemsDepth_keptAs retention vs)

/-- How deep a usage nests does not depend on how long it is kept. -/
theorem Usage.depth_keptAs (retention : Retention) : (u : Usage) → (u.keptAs retention).depth = u.depth
  | ⟨_, _, es⟩ => congrArg (· + 1) (elementsDepth_keptAs retention es)

theorem itemsDepth_keptAs (retention : Retention) :
    (vs : List ElementValue) → itemsDepth (itemsKeptAs retention vs) = itemsDepth vs
  | [] => rfl
  | v :: vs => congrArg₂ max (ElementValue.depth_keptAs retention v) (itemsDepth_keptAs retention vs)

theorem elementsDepth_keptAs (retention : Retention) :
    (es : List (String × ElementValue)) → elementsDepth (elementsKeptAs retention es) = elementsDepth es
  | [] => rfl
  | (_, v) :: es => congrArg₂ max (ElementValue.depth_keptAs retention v) (elementsDepth_keptAs retention es)

end

namespace ClassFile

open Read

/-- Whether some usage in an attribute nests too deep. -/
def Attribute.NestsTooDeep : Attribute → Prop
  | annotations us => ∃ u ∈ us, nestingLimit < u.depth
  | parameterAnnotations ps => ∃ us ∈ ps, ∃ u ∈ us, nestingLimit < u.depth
  | other => False

variable {pool : ConstantPool} {owner : Attribute.Owner}

namespace Emit

/-! ### Attributes of an item -/

/-- An attribute to be written, and what it is read as unless it nests too deep. -/
structure IsSpellingUnless (pool : ConstantPool) (owner : Attribute.Owner) (x : Emit × Attribute) : Prop where
  grows : Grows x.1
  spells : SpellsUnless pool (Attribute.read pool owner) x.1 x.2 x.2.NestsTooDeep

theorem isSpellingUnless_annotations {us : List Usage} (h : HaveForm us) :
    ∀ x ∈ annotationSpellings us, IsSpellingUnless pool owner x := by
  intro x hx
  rcases List.mem_flatMap.1 hx with ⟨retention, -, hx⟩
  split at hx
  · nomatch hx
  · rw [List.mem_singleton.1 hx]
    refine ⟨grows_namedAttribute _ (grows_usages _), (spellsUnless_annotations h retention).congr ?_⟩
    simp [Attribute.NestsTooDeep, Usage.depth_keptAs]

theorem isSpellingUnless_parameters {ps : List (List Usage)} (h : ParametersHaveForm ps) :
    ∀ x ∈ parameterSpellings ps, IsSpellingUnless pool .method x := by
  intro x hx
  rcases List.mem_flatMap.1 hx with ⟨retention, -, hx⟩
  split at hx
  · nomatch hx
  · rw [List.mem_singleton.1 hx]
    refine ⟨grows_namedAttribute _ (grows_parameterUsages _ _),
      (spellsUnless_parameterAnnotations h retention).congr ?_⟩
    simp [Attribute.NestsTooDeep, Usage.depth_keptAs]

theorem exists_kept {us : List Usage} {P : Usage → Prop} :
    (∃ retention, ∃ u ∈ kept retention us, P u) ↔ ∃ u ∈ us, P u := by
  constructor
  · rintro ⟨retention, u, hu, hP⟩
    exact ⟨u, (List.mem_filter.1 hu).1, hP⟩
  · rintro ⟨u, hu, hP⟩
    exact ⟨u.retention, u, List.mem_filter.2 ⟨hu, by simp⟩, hP⟩

theorem exists_flatMap_retentions {α : Type} {f : Retention → List α} {P : α → Prop} :
    (∃ x ∈ [Retention.runtime, Retention.classFile].flatMap f, P x) ↔ ∃ retention, ∃ x ∈ f retention, P x := by
  constructor
  · rintro ⟨x, hx, hP⟩
    rcases List.mem_flatMap.1 hx with ⟨retention, -, hx⟩
    exact ⟨retention, x, hx, hP⟩
  · rintro ⟨retention, x, hx, hP⟩
    exact ⟨x, List.mem_flatMap.2 ⟨retention, by cases retention <;> simp, hx⟩, hP⟩

/-- What is left out when there is nothing to say. -/
theorem exists_unless {α : Type} {none : Bool} {x : α} {P : α → Prop} (h : none = true → ¬ P x) :
    (∃ y ∈ if none then [] else [x], P y) ↔ P x := by
  cases none with
  | true => simpa using h rfl
  | false => simp

theorem exists_annotationSpellings {us : List Usage} :
    (∃ x ∈ annotationSpellings us, x.2.NestsTooDeep) ↔ ∃ u ∈ us, nestingLimit < u.depth := by
  unfold annotationSpellings
  rw [exists_flatMap_retentions, ← exists_kept]
  refine exists_congr fun retention => ?_
  rw [exists_unless fun hnone => by simp [Attribute.NestsTooDeep, List.isEmpty_iff.1 hnone]]
  simp [Attribute.NestsTooDeep, Usage.depth_keptAs]

theorem exists_parameterSpellings {ps : List (List Usage)} :
    (∃ x ∈ parameterSpellings ps, x.2.NestsTooDeep) ↔ ∃ u ∈ ps.flatten, nestingLimit < u.depth := by
  have hdeep : ∀ retention, (Attribute.parameterAnnotations
      (ps.map fun us => (kept retention us).map (Usage.keptAs retention))).NestsTooDeep ↔
        ∃ us ∈ ps, ∃ u ∈ kept retention us, nestingLimit < u.depth := by
    intro retention
    simp [Attribute.NestsTooDeep, Usage.depth_keptAs]
  have hnone : ∀ retention, (ps.all fun us => (kept retention us).isEmpty) = true →
      ¬ ∃ us ∈ ps, ∃ u ∈ kept retention us, nestingLimit < u.depth := by
    rintro retention hall ⟨us, hus, u, hu, -⟩
    rw [List.isEmpty_iff.1 (List.all_eq_true.1 hall us hus)] at hu
    nomatch hu
  unfold parameterSpellings
  rw [exists_flatMap_retentions]
  refine (exists_congr fun retention => ?_).trans (b := ∃ retention, ∃ us ∈ ps,
    ∃ u ∈ kept retention us, nestingLimit < u.depth) ?_
  · refine (exists_unless (P := fun x : Emit × Attribute => x.2.NestsTooDeep) fun hall => ?_).trans (hdeep retention)
    exact (hdeep retention).not.2 (hnone retention hall)
  · constructor
    · rintro ⟨retention, us, hus, u, hu, hlt⟩
      exact ⟨u, List.mem_flatten_of_mem hus (List.mem_filter.1 hu).1, hlt⟩
    · rintro ⟨u, hu, hlt⟩
      rcases List.mem_flatten.1 hu with ⟨us, hus, hu⟩
      exact ⟨u.retention, us, hus, u, List.mem_filter.2 ⟨hu, by simp⟩, hlt⟩

/-! ### Members -/

/-- Attributes are read as many as are written, up to the first that is too deep. -/
theorem spellsUnless_attributes {α : Type} {p : Read α} {spellings : List (Emit × Attribute)}
    {f : Emit × Attribute → α}
    (hgrows : ∀ x ∈ spellings, Grows x.1)
    (h : ∀ x ∈ spellings, SpellsUnless pool p x.1 (f x) x.2.NestsTooDeep) (hlen : spellings.length ≤ 0xFFFF) :
    SpellsUnless pool (do let count ← Read.u2; Read.repeated p count.toNat)
      (attributes (spellings.map (·.1))) (spellings.map f) (∃ x ∈ spellings, x.2.NestsTooDeep) := by
  unfold attributes
  rw [List.length_map]
  exact spellsUnless_counted hgrows h hlen

/-- A member is read as its name, its descriptor and what its attributes are read as. -/
theorem spellsUnless_member {m : MemberBlueprint} {spellings : List (Emit × Attribute)}
    (hattributes : annotationAttributes m.annotations ++ parameterAttributes m.parameters =
      spellings.map (·.1))
    (hlen : spellings.length ≤ 0xFFFF) (h : ∀ x ∈ spellings, IsSpellingUnless pool owner x) :
    SpellsUnless pool (Part.readMember pool owner) (member m) (m.name, m.descriptor, spellings.map (·.2))
      (∃ x ∈ spellings, x.2.NestsTooDeep) := by
  let as := attributes (annotationAttributes m.annotations ++ parameterAttributes m.parameters)
  have hspells : SpellsUnless pool (do
      let count ← Read.u2
      Read.repeated (Attribute.read pool owner) count.toNat) as (spellings.map (·.2))
        (∃ x ∈ spellings, x.2.NestsTooDeep) := by
    show SpellsUnless pool _ (attributes _) _ _
    rw [hattributes]
    exact spellsUnless_attributes (fun x hx => (h x hx).grows) (fun x hx => (h x hx).spells) hlen
  have hgrows : Grows as := grows_memberAttributes m
  intro w hall
  let w' := ((text m.name).run w).2
  let w'' := ((text m.descriptor).run w').2
  have hall'' : pool.HasAll w'' := hall.of_grows (hgrows w'')
  have hall' : pool.HasAll w' := hall''.of_grows (grows_text m.descriptor w')
  have hname : pool.Has (.utf8 m.name) _ := has_intern hall'
  have hdescriptor : pool.Has (.utf8 m.descriptor) _ := has_intern hall''
  have hcounted := (hspells w'' hall).bind_pure (g := fun attributes => (m.name, m.descriptor, attributes)) rfl
  rw [bind_assoc] at hcounted
  show ReadsUnless _ (u2 1 ++ ((text m.name).run w).1 ++ ((text m.descriptor).run w').1 ++ (as.run w'').1) _ _
  rw [List.append_assoc, List.append_assoc]
  exact (reads_skip (u2 1)).bind_unless ((reads_index _ w).bind_unless (.lift_bind hname
    ((reads_index _ w').bind_unless (.lift_bind hdescriptor hcounted))))

theorem spellsUnless_field {m : MemberBlueprint} (h : HaveForm m.annotations) (hparameters : m.parameters = []) :
    SpellsUnless pool (Part.readField pool) (member m) (.field m.name (arranged m.annotations))
      (∃ u ∈ m.usages, nestingLimit < u.depth) := by
  have hlen := length_annotationSpellings_le m.annotations
  have hattributes : annotationAttributes m.annotations ++ parameterAttributes m.parameters =
      (annotationSpellings m.annotations).map (·.1) := by
    rw [hparameters, map_fst_annotationSpellings]
    exact List.append_nil _
  have husages : m.usages = m.annotations := by
    rw [MemberBlueprint.usages, hparameters]
    exact List.append_nil _
  rw [← flatMap_usages_annotationSpellings, husages]
  exact ((spellsUnless_member hattributes (by omega) (isSpellingUnless_annotations h)).map rfl).congr
    exists_annotationSpellings

theorem spellsUnless_method {m : MemberBlueprint} (h : HaveForm m.annotations)
    (hparameters : ParametersHaveForm m.parameters) :
    SpellsUnless pool (Part.readMethod pool) (member m)
      (.method m.key (arranged m.annotations) (arrangedParameters m.parameters))
      (∃ u ∈ m.usages, nestingLimit < u.depth) := by
  have hlen := length_annotationSpellings_le m.annotations
  have hlen' := length_parameterSpellings_le m.parameters
  let spellings := annotationSpellings m.annotations ++ parameterSpellings m.parameters
  have hattributes : annotationAttributes m.annotations ++ parameterAttributes m.parameters =
      spellings.map (·.1) := by
    rw [List.map_append, map_fst_annotationSpellings, map_fst_parameterSpellings]
  have husages : (spellings.map (·.2)).flatMap Attribute.usages = arranged m.annotations := by
    rw [List.map_append, List.flatMap_append, flatMap_usages_annotationSpellings,
      flatMap_usages_parameterSpellings, List.append_nil]
  have hmerged : Attribute.mergedParameters (spellings.map (·.2)) = arrangedParameters m.parameters := by
    rw [List.map_append, mergedParameters_annotationSpellings, mergedParameters_parameterSpellings]
  have hspellings : ∀ x ∈ spellings, IsSpellingUnless pool .method x :=
    List.forall_mem_append.2 ⟨isSpellingUnless_annotations h, isSpellingUnless_parameters hparameters⟩
  have hdeep : (∃ x ∈ spellings, x.2.NestsTooDeep) ↔ ∃ u ∈ m.usages, nestingLimit < u.depth := by
    simp only [spellings, MemberBlueprint.usages, List.mem_append, or_and_right, exists_or,
      exists_annotationSpellings, exists_parameterSpellings]
  have hcount : spellings.length ≤ 0xFFFF := by
    rw [List.length_append]
    omega
  rw [← husages, ← hmerged]
  exact ((spellsUnless_member hattributes hcount hspellings).map rfl).congr hdeep

end Emit

/-! ### The body -/

namespace Progress

variable {part : Read Part} {f g : Cursor → Progress} {bytes bytes' : Bytes} {parts parts' : List Part}
  {deep deep' : Prop}

/-- The bytes are read as the parts, unless they hold something too deep, where reading stops. -/
structure PassesUnless (f : Cursor → Progress) (bytes : Bytes) (parts : List Part) (deep : Prop) : Prop where
  passes : ¬ deep → Passes f bytes parts
  halts : deep → ∀ offset rest, (f ⟨offset, bytes ++ rest⟩).next = .error (.nestingTooDeep nestingLimit)

theorem PassesUnless.congr (h : PassesUnless f bytes parts deep) (hdeep : deep ↔ deep') :
    PassesUnless f bytes parts deep' :=
  ⟨fun hnot => h.passes (hdeep.not.2 hnot), fun hdeep' => h.halts (hdeep.2 hdeep')⟩

/-- Reading part by part meets the same fault as reading all parts in a row. -/
theorem next_run_of_repeated {n : Nat} {c c' : Cursor} {e : ParseError}
    (h : (Read.repeated part n).runAt c = (.error e, c')) : (run part n c).next = .error e := by
  induction n generalizing c with
  | zero => cases h
  | succ n ih =>
    rw [Read.repeated, runAt_bind] at h
    rw [run]
    cases hfirst : part.runAt c with
    | mk r d =>
      rw [hfirst] at h
      cases r with
      | error e' =>
        cases h
        rfl
      | ok p =>
        simp only [runAt_bind] at h
        cases hothers : (Read.repeated part n).runAt d with
        | mk r' d' =>
          rw [hothers] at h
          cases r' with
          | ok ps => cases h
          | error e' =>
            cases h
            exact ih hothers

theorem passesUnless_counted
    (h : ReadsUnless (do let count ← Read.u2; Read.repeated part count.toNat) bytes parts deep) :
    PassesUnless (counted part) bytes parts deep := by
  refine ⟨fun hnot => passes_counted (h.reads hnot), fun hdeep offset rest => ?_⟩
  rcases h.breaks hdeep offset rest with ⟨c, hrun⟩
  rw [runAt_bind] at hrun
  unfold counted
  cases hcount : Read.u2.runAt ⟨offset, bytes ++ rest⟩ with
  | mk r d =>
    rw [hcount] at hrun
    cases r with
    | error e =>
      cases hrun
      rfl
    | ok n => exact next_run_of_repeated hrun

theorem PassesUnless.andThen (hf : PassesUnless f bytes parts deep) (hg : PassesUnless g bytes' parts' deep') :
    PassesUnless (fun c => (f c).andThen g) (bytes ++ bytes') (parts ++ parts') (deep ∨ deep') := by
  refine ⟨fun hnot => ?_, fun hor offset rest => ?_⟩
  · rcases not_or.1 hnot with ⟨hfirst, hrest⟩
    exact (hf.passes hfirst).andThen (hg.passes hrest)
  · show ((f ⟨offset, bytes ++ bytes' ++ rest⟩).andThen g).next = _
    rw [List.append_assoc]
    by_cases hfirst : deep
    · unfold Progress.andThen
      rw [hf.halts hfirst]
    · rw [hf.passes hfirst]
      exact hg.halts (hor.resolve_left hfirst) _ _

end Progress

namespace Blueprint

open Emit

variable {b : Blueprint}

/-- How many there are of everything is within what a class file can say, and no usage repeats an element name.
How deep annotations nest is left open. -/
structure FitsFormat (b : Blueprint) : Prop where
  version : oldestMajor ≤ b.major ∧ b.major ≤ newestMajor
  superclass : b.HasSuperclass
  pool : (b.emit.run {}).2.Fits
  interfaceCount : b.interfaces.length ≤ 0xFFFF
  fieldCount : b.fields.length ≤ 0xFFFF
  methodCount : b.methods.length ≤ 0xFFFF
  annotations : HaveForm b.annotations
  fields : ∀ m ∈ b.fields, HaveForm m.annotations ∧ m.parameters = []
  methods : ∀ m ∈ b.methods, HaveForm m.annotations ∧ ParametersHaveForm m.parameters
  elements : ∀ u ∈ b.usages, u.repeatsName = false

theorem exists_usages {P : Usage → Prop} : (∃ u ∈ b.usages, P u) ↔
    ((∃ m ∈ b.fields, ∃ u ∈ m.usages, P u) ∨ ∃ m ∈ b.methods, ∃ u ∈ m.usages, P u) ∨ ∃ u ∈ b.annotations, P u := by
  constructor
  · rintro ⟨u, hu, hP⟩
    rcases List.mem_append.1 hu with hu | hu
    · exact .inr ⟨u, hu, hP⟩
    · rcases List.mem_flatMap.1 hu with ⟨m, hm, hu⟩
      exact .inl ((List.mem_append.1 hm).imp (fun hm => ⟨m, hm, u, hu, hP⟩) fun hm => ⟨m, hm, u, hu, hP⟩)
  · rintro ((⟨m, hm, u, hu, hP⟩ | ⟨m, hm, u, hu, hP⟩) | ⟨u, hu, hP⟩)
    · exact ⟨u, List.mem_append_right _ (List.mem_flatMap.2 ⟨m, List.mem_append_left _ hm, hu⟩), hP⟩
    · exact ⟨u, List.mem_append_right _ (List.mem_flatMap.2 ⟨m, List.mem_append_right _ hm, hu⟩), hP⟩
    · exact ⟨u, List.mem_append_left _ hu, hP⟩

theorem passesUnless_body (h : b.FitsFormat) {w : PoolWriter} (hall : pool.HasAll (b.emitBody.run w).2) :
    Progress.PassesUnless (readBody pool) (b.emitBody.run w).1 b.parts (∃ u ∈ b.usages, nestingLimit < u.depth) := by
  let w' := ((members b.fields).run w).2
  let w'' := ((members b.methods).run w').2
  have hall'' : pool.HasAll w'' :=
    hall.of_grows (grows_attributes (grows_annotationAttributes b.annotations) w'')
  have hall' : pool.HasAll w' := hall''.of_grows (grows_members b.methods w')
  have hfield : ∀ m ∈ b.fields, SpellsUnless pool (Part.readField pool) (member m) _ _ :=
    fun m hm => spellsUnless_field (h.fields m hm).1 (h.fields m hm).2
  have hmethod : ∀ m ∈ b.methods, SpellsUnless pool (Part.readMethod pool) (member m) _ _ :=
    fun m hm => spellsUnless_method (h.methods m hm).1 (h.methods m hm).2
  have hfields := spellsUnless_counted (fun m _ => grows_member m) hfield h.fieldCount w hall'
  have hmethods := spellsUnless_counted (fun m _ => grows_member m) hmethod h.methodCount w' hall''
  have hspellings : ∀ x ∈ annotationSpellings b.annotations, IsSpellingUnless pool .classItself x :=
    isSpellingUnless_annotations h.annotations
  have hlen := length_annotationSpellings_le b.annotations
  have hattributes := spellsUnless_attributes (fun x hx => (hspellings x hx).grows)
    (fun x hx => ((hspellings x hx).spells.map rfl : SpellsUnless pool (Part.readClassAttribute pool) _ _ _))
    (by omega) w'' (by rwa [map_fst_annotationSpellings])
  rw [map_fst_annotationSpellings] at hattributes
  refine (((Progress.passesUnless_counted hfields).andThen (Progress.passesUnless_counted hmethods)).andThen
    (Progress.passesUnless_counted hattributes)).congr ?_
  rw [exists_annotationSpellings, exists_usages]

theorem assemble_eq (b : Blueprint) :
    b.assemble = Bytes.bigEndian 4 Read.magicNumber.toNat ++ (Emit.u2 0 ++ (Emit.u2 b.major.toNat ++
      (Bytes.bigEndian 2 (b.emit.run {}).2.next.toNat ++ (b.emit.run {}).2.bytes ++
        (b.emitDeclaration.run {}).1))) ++ (b.emitBody.run (b.emitDeclaration.run {}).2).1 := by
  show Bytes.bigEndian 4 Read.magicNumber.toNat ++ Emit.u2 0 ++ Emit.u2 b.major.toNat ++
    Emit.u2 (b.emit.run {}).2.next.toNat ++ (b.emit.run {}).2.bytes ++
      ((b.emitDeclaration.run {}).1 ++ (b.emitBody.run (b.emitDeclaration.run {}).2).1) = _
  simp only [Emit.u2, List.append_assoc]

/-- What is assembled from a blueprint is a header, and a body that is read unless some usage nests too deep. -/
theorem reads_assembled (h : b.FitsFormat) :
    ∃ pool bytes bytes', b.assemble = bytes ++ bytes' ∧ Reads readHeader bytes (pool, b.header) ∧
      Progress.PassesUnless (readBody pool) bytes' b.parts (∃ u ∈ b.usages, nestingLimit < u.depth) := by
  let w := (b.emitDeclaration.run {}).2
  have hsound : (b.emit.run {}).2.Sound := (b.grows_emit {}).sound PoolWriter.sound_empty
  rcases hsound.reads h.pool with ⟨slots, hpool, hall⟩
  have hdeclaration : ConstantPool.HasAll ⟨.unusable :: slots⟩ w :=
    ConstantPool.HasAll.of_grows hall (b.grows_emitBody w)
  exact ⟨⟨.unusable :: slots⟩, _, _, b.assemble_eq,
    reads_header_of h.version h.superclass h.interfaceCount hpool rfl hdeclaration, passesUnless_body h hall⟩

/-- The limit is exact: what fits the format in every other respect is decoded if and only if no usage nests deeper,
and if one does, that is why the record is partial. -/
theorem decode_assembled_iff (h : b.FitsFormat) :
    ((∃ r, decode b.assemble = .ok r) ↔ ∀ u ∈ b.usages, u.depth ≤ nestingLimit) ∧
      ((∃ u ∈ b.usages, nestingLimit < u.depth) →
        ∃ r, decode b.assemble = .error (.incomplete r (.parse (.nestingTooDeep nestingLimit)))) := by
  rcases reads_assembled h with ⟨pool, bytes, bytes', hbytes, hheader, hbody⟩
  have hfails : (∃ u ∈ b.usages, nestingLimit < u.depth) →
      ∃ r, decode b.assemble = .error (.incomplete r (.parse (.nestingTooDeep nestingLimit))) := by
    intro hdeep
    have hrun := hheader 0 bytes'
    have hnext := hbody.halts hdeep (0 + bytes.length) []
    rw [List.append_nil] at hnext
    rw [hbytes]
    unfold decode
    rw [show Cursor.start (bytes ++ bytes') = ⟨0, bytes ++ bytes'⟩ from rfl, hrun]
    simp only [hnext]
    exact ⟨_, rfl⟩
  refine ⟨⟨fun hok u hu => ?_, fun hdepth => ?_⟩, hfails⟩
  · by_contra hnot
    rcases hok with ⟨r, hr⟩
    rcases hfails ⟨u, hu, Nat.lt_of_not_le hnot⟩ with ⟨r', hr'⟩
    nomatch hr.symm.trans hr'
  · have hnot : ¬ ∃ u ∈ b.usages, nestingLimit < u.depth := by
      rintro ⟨u, hu, hlt⟩
      exact Nat.not_le_of_gt hlt (hdepth u hu)
    have hdecode := decode_of_reads hheader (hbody.passes hnot) (repeatsName_parts_of h.elements) []
    rw [List.append_nil, ← hbytes] at hdecode
    exact ⟨_, hdecode⟩

end Blueprint

/-- The limit is exact. What fits the format in every other respect is decoded if and only if no usage nests deeper,
whatever stands before it; if one does, that is why the record is partial. Counting the levels up instead of down, on
any bytes, reads the same, never counts more than one level above the limit, and after every usage and every value
that is read the count is what it was before. -/
theorem nesting_limit_is_exact :
    (∀ b : Blueprint, b.FitsFormat →
      ((∃ r, decode b.assemble = .ok r) ↔ ∀ u ∈ b.usages, u.depth ≤ nestingLimit) ∧
      ((∃ u ∈ b.usages, nestingLimit < u.depth) →
        ∃ r, decode b.assemble = .error (.incomplete r (.parse (.nestingTooDeep nestingLimit))))) ∧
    ∀ (ctx : AttributeContext) (beyond : Counting ElementValue) (calls : Nat), nestingLimit < calls →
      Counting.Follows (Counting.usages ctx beyond calls) ctx.usages 0 ∧
      Counting.Follows (Counting.parameters ctx beyond calls) ctx.parameters 0 ∧
      ∀ depth ≤ nestingLimit,
        Counting.Follows (Counting.usage ctx beyond calls) (ctx.usage (nestingLimit - depth)) depth ∧
        Counting.Follows (Counting.value ctx beyond calls) (ctx.value (nestingLimit - depth)) depth := by
  refine ⟨fun b h => Blueprint.decode_assembled_iff h, fun ctx beyond calls hcalls => ?_⟩
  refine ⟨Counting.follows_usages beyond hcalls, Counting.follows_parameters beyond hcalls, fun depth hdepth => ?_⟩
  have henough : nestingLimit < depth + calls := by omega
  exact ⟨Counting.follows_usage beyond hdepth henough, Counting.follows_value beyond hdepth henough⟩

/-- An array in an array, and so on. -/
def arrays : Nat → ElementValue
  | 0 => .int 0
  | n + 1 => .array [arrays n]

/-- A usage in which one value nests `n` arrays, behind a value and a usage that nest as deep as they may. -/
def arraysForm (n : Nat) : Blueprint where
  name := "app/Form"
  annotations := [⟨"app.Deep", .runtime, [("all", arrays 63)]⟩]
  methods :=
    [{ name := "m", descriptor := "(I)V",
       parameters := [[⟨"app.Deep", .runtime, [("first", arrays 63), ("second", arrays n)]⟩]] }]

/-- The items of as many arrays inside one another as there are levels above the limit. -/
def nestedArrays : Bytes := (List.replicate (nestingLimit + 1) [Format.tag '[', 0, 1]).flatten

/-- One array less is decoded. Where one is too many, the count is one above the limit. -/
theorem nesting_limit_of_arraysForm :
    (∃ r, decode (arraysForm 63).assemble = .ok r) ∧
      (∃ r, decode (arraysForm 64).assemble = .error (.incomplete r (.parse (.nestingTooDeep nestingLimit)))) ∧
      ∃ g, (Counting.value ⟨⟨[]⟩, "RuntimeVisibleAnnotations", .runtime⟩ (throw (.unexpectedEof 0)) 65).runAt
        ⟨Cursor.start nestedArrays, 0, 0⟩ = (.error (.nestingTooDeep nestingLimit), g) ∧ g.deepest ≤ 65 := by
  have hfits : (arraysForm 63).FitsFormat := by constructor <;> decide +kernel
  have hfits' : (arraysForm 64).FitsFormat := by constructor <;> decide +kernel
  have hdepth : ∀ u ∈ (arraysForm 63).usages, u.depth ≤ nestingLimit := by decide +kernel
  have hdepth' : ∃ u ∈ (arraysForm 64).usages, nestingLimit < u.depth := by decide +kernel
  refine ⟨(nesting_limit_is_exact.1 (arraysForm 63) hfits).1.2 hdepth,
    (nesting_limit_is_exact.1 (arraysForm 64) hfits').2 hdepth', ?_⟩
  let ctx : AttributeContext := ⟨⟨[]⟩, "RuntimeVisibleAnnotations", .runtime⟩
  have hfault : (((ctx.value nestingLimit).runAt (Cursor.start nestedArrays)).1.map fun _ => ()) =
      .error (.nestingTooDeep nestingLimit) := by decide +kernel
  have hfollows := (nesting_limit_is_exact.2 ctx (throw (.unexpectedEof 0)) 65 (by decide)).2.2 0 (by decide)
  rcases hfollows.2 ⟨Cursor.start nestedArrays, 0, 0⟩ rfl with ⟨result, g, hrun, hread, hdeepest, -⟩
  have hresult : (ctx.value nestingLimit).runAt (Cursor.start nestedArrays) = (result, g.cursor) := hread
  rw [hresult] at hfault
  cases result with
  | ok v => nomatch hfault
  | error e =>
    cases Except.error.inj hfault
    exact ⟨g, hrun, hdeepest⟩

end ClassFile

end ClassCatalog
