import ClassCatalog.Proofs.ClassFile.Body
import ClassCatalog.Proofs.ClassFile.Record

/-!
# Class files there and back

What is assembled from a blueprint is decoded to a record of what the blueprint says
(`decode_assembled`), as long as the blueprint is within the limits of the format
(`Blueprint.WithinLimits`). The record says the same in its own way (`Blueprint.Describes`): names are
dotted, usages are `arranged`, and what stands on members is found under their names.
-/

namespace ClassCatalog.ClassFile

open Read

variable {pool : ConstantPool}

namespace MemberBlueprint

/-- What a method is found under. -/
def key (m : MemberBlueprint) : String := ClassRecord.methodKey m.name m.descriptor

/-- The usages on a member and on its parameters. -/
def usages (m : MemberBlueprint) : List Usage := m.annotations ++ m.parameters.flatten

end MemberBlueprint

namespace Blueprint

open Emit

variable {b : Blueprint}

/-- All usages, those on the class first. -/
def usages (b : Blueprint) : List Usage :=
  b.annotations ++ (b.fields ++ b.methods).flatMap MemberBlueprint.usages

/-- How many there are of everything, and how deep annotations nest, is within what a class file can
say. -/
structure WithinLimits (b : Blueprint) : Prop where
  version : oldestMajor ≤ b.major ∧ b.major ≤ newestMajor
  superclass : b.HasSuperclass
  pool : (b.emit.run {}).2.Fits
  interfaceCount : b.interfaces.length ≤ 0xFFFF
  fieldCount : b.fields.length ≤ 0xFFFF
  methodCount : b.methods.length ≤ 0xFFFF
  annotations : Annotates b.annotations
  fields : ∀ m ∈ b.fields, Annotates m.annotations ∧ m.parameters = []
  methods : ∀ m ∈ b.methods, Annotates m.annotations ∧ AnnotatesParameters m.parameters
  keys : (b.methods.map MemberBlueprint.key).Nodup
  elements : ∀ u ∈ b.usages, u.repeatsName = false

/-- The record says what the blueprint says, and no more. -/
structure Describes (b : Blueprint) (r : ClassRecord) : Prop where
  name : r.name = ClassName.ofInternal b.name
  superclass : r.superclass = b.superclass.map ClassName.ofInternal
  interfaces : r.interfaces = (b.interfaces.map ClassName.ofInternal).eraseDups
  modifiers : r.modifiers = ⟨b.access⟩
  classAnnotations : r.classAnnotations = arranged b.annotations
  fieldAnnotations (name : String) : r.fieldAnnotations.find? name =
    present ((b.fields.filter (·.name == name)).flatMap fun m => arranged m.annotations)
  methodAnnotations (key : String) : r.methodAnnotations.find? key =
    (b.methods.find? (·.key == key)).bind fun m => present (arranged m.annotations)
  parameterAnnotations (key : String) : r.parameterAnnotations.find? key =
    (b.methods.find? (·.key == key)).bind fun m => presentParameters (m.parameters.map arranged)
  isPartial : r.isPartial = false

/-- Only one record says what a blueprint says. -/
theorem Describes.unique {r r' : ClassRecord} (h : b.Describes r) (h' : b.Describes r') : r = r' := by
  have hfields : r.fieldAnnotations = r'.fieldAnnotations :=
    NameMap.ext_find? fun name => (h.fieldAnnotations name).trans (h'.fieldAnnotations name).symm
  have hmethods : r.methodAnnotations = r'.methodAnnotations :=
    NameMap.ext_find? fun key => (h.methodAnnotations key).trans (h'.methodAnnotations key).symm
  have hparameters : r.parameterAnnotations = r'.parameterAnnotations :=
    NameMap.ext_find? fun key => (h.parameterAnnotations key).trans (h'.parameterAnnotations key).symm
  obtain ⟨hname, hsuperclass, hinterfaces, hmodifiers, hclass, -, -, -, hpartial⟩ := h
  obtain ⟨hname', hsuperclass', hinterfaces', hmodifiers', hclass', -, -, -, hpartial'⟩ := h'
  cases r
  cases r'
  simp_all only

/-! ### Parts -/

/-- The parts that are read back. -/
def parts (b : Blueprint) : List Part :=
  b.fields.map (fun m => .field m.name (arranged m.annotations)) ++
    b.methods.map (fun m => .method m.key (arranged m.annotations) (arrangedParameters m.parameters)) ++
    (annotationSpellings b.annotations).map fun x => .classAttribute x.2.usages

theorem passes_body (h : b.WithinLimits) {w : PoolWriter} (hall : pool.HasAll (b.emitBody.run w).2) :
    Progress.Passes (readBody pool) (b.emitBody.run w).1 b.parts := by
  let w' := ((members b.fields).run w).2
  let w'' := ((members b.methods).run w').2
  have hall'' : pool.HasAll w'' :=
    hall.of_grows (grows_attributes (grows_annotationAttributes b.annotations) w'')
  have hall' : pool.HasAll w' := hall''.of_grows (grows_members b.methods w')
  have hfield : ∀ m ∈ b.fields, Spells pool (Part.readField pool) (member m) _ :=
    fun m hm => spells_field (h.fields m hm).1 (h.fields m hm).2
  have hmethod : ∀ m ∈ b.methods, Spells pool (Part.readMethod pool) (member m) _ :=
    fun m hm => spells_method (h.methods m hm).1 (h.methods m hm).2
  have hfields := spells_counted (fun m _ => grows_member m) hfield h.fieldCount w hall'
  have hmethods := spells_counted (fun m _ => grows_member m) hmethod h.methodCount w' hall''
  have hspellings : ∀ x ∈ annotationSpellings b.annotations, IsSpelling pool .classItself x :=
    isSpelling_annotations h.annotations
  have hlen := length_annotationSpellings_le b.annotations
  have hattributes := spells_attributes (fun x hx => (hspellings x hx).grows)
    (fun x hx => spells_classAttribute (hspellings x hx)) (by omega) w''
    (by rwa [map_fst_annotationSpellings])
  rw [map_fst_annotationSpellings] at hattributes
  exact ((Progress.passes_counted hfields).andThen (Progress.passes_counted hmethods)).andThen
    (Progress.passes_counted hattributes)

/-! ### Element names -/

theorem repeatsName_arranged {us : List Usage} (h : ∀ u ∈ us, u.repeatsName = false) :
    ∀ u ∈ arranged us, u.repeatsName = false := by
  intro u hu
  obtain ⟨retention, -, hu⟩ := List.mem_flatMap.1 hu
  obtain ⟨v, hv, rfl⟩ := List.mem_map.1 hu
  rw [Usage.repeatsName_keptAs]
  exact h v ((List.mem_filter.1 hv).1)

theorem repeatsName_arrangedParameters {ps : List (List Usage)}
    (h : ∀ us ∈ ps, ∀ u ∈ us, u.repeatsName = false) :
    ∀ us ∈ arrangedParameters ps, ∀ u ∈ us, u.repeatsName = false := by
  unfold arrangedParameters
  split
  · exact fun _ hus => nomatch hus
  · intro us hus
    obtain ⟨vs, hvs, rfl⟩ := List.mem_map.1 hus
    exact repeatsName_arranged (h vs hvs)

/-- No part gives two values to one element. -/
theorem repeatsName_parts_of (h : ∀ u ∈ b.usages, u.repeatsName = false) :
    ∀ part ∈ b.parts, part.repeatsName = false := by
  have hclass : ∀ u ∈ b.annotations, u.repeatsName = false :=
    fun u hu => h u (List.mem_append_left _ hu)
  have hmember : ∀ m ∈ b.fields ++ b.methods, ∀ u ∈ m.usages, u.repeatsName = false :=
    fun m hm u hu => h u (List.mem_append_right _ (List.mem_flatMap.2 ⟨m, hm, hu⟩))
  intro part hpart
  rw [Part.repeatsName_eq_false]
  obtain hpart | hpart := List.mem_append.1 hpart
  · obtain hpart | hpart := List.mem_append.1 hpart
    · obtain ⟨m, hm, rfl⟩ := List.mem_map.1 hpart
      have husages := hmember m (List.mem_append_left _ hm)
      exact repeatsName_arranged fun u hu => husages u (List.mem_append_left _ hu)
    · obtain ⟨m, hm, rfl⟩ := List.mem_map.1 hpart
      have husages := hmember m (List.mem_append_right _ hm)
      intro u hu
      obtain hu | hu := List.mem_append.1 hu
      · exact repeatsName_arranged (fun v hv => husages v (List.mem_append_left _ hv)) u hu
      · obtain ⟨us, hus, hu⟩ := List.mem_flatten.1 hu
        refine repeatsName_arrangedParameters (fun vs hvs v hv => ?_) us hus u hu
        exact husages v (List.mem_append_right _ (List.mem_flatten_of_mem hvs hv))
  · obtain ⟨x, hx, rfl⟩ := List.mem_map.1 hpart
    intro u hu
    refine repeatsName_arranged hclass u ?_
    rw [← flatMap_usages_annotationSpellings]
    exact List.mem_flatMap.2 ⟨x.2, List.mem_map_of_mem hx, hu⟩

theorem repeatsName_parts (h : b.WithinLimits) : ∀ part ∈ b.parts, part.repeatsName = false :=
  repeatsName_parts_of h.elements

/-! ### The record -/

theorem presentParameters_arrangedParameters (ps : List (List Usage)) :
    presentParameters (arrangedParameters ps) = presentParameters (ps.map arranged) := by
  unfold arrangedParameters
  split
  next h =>
    have hall : (ps.map arranged).all List.isEmpty = true := by
      rw [List.all_map, List.all_eq_true]
      intro us hus
      rw [List.isEmpty_iff.1 (List.all_eq_true.1 h us hus)]
      rfl
    rw [presentParameters, presentParameters, if_pos hall]
    rfl
  next => rfl

/-- The record of the parts says what the blueprint says. -/
theorem describes_record (h : b.WithinLimits) : b.Describes (assembleRecord b.header b.parts) := by
  have hparts := repeatsName_parts h
  have hfields : ∀ m ∈ b.fields, (Part.field m.name (arranged m.annotations)).repeatsName = false :=
    fun m hm => hparts _ (List.mem_append_left _ (List.mem_append_left _ (List.mem_map_of_mem hm)))
  have hmethods : ∀ m ∈ b.methods, (Part.method m.key (arranged m.annotations)
      (arrangedParameters m.parameters)).repeatsName = false :=
    fun m hm => hparts _ (List.mem_append_left _ (List.mem_append_right _ (List.mem_map_of_mem hm)))
  have hclass : ∀ x ∈ annotationSpellings b.annotations, (Part.classAttribute x.2.usages).repeatsName = false :=
    fun x hx => hparts _ (List.mem_append_right _ (List.mem_map_of_mem hx))
  have hrecord : assembleRecord b.header b.parts =
      { b.header with
        fieldAnnotations :=
          b.fields.foldl (fun m x => Part.addUsages m x.name (arranged x.annotations)) ∅
        methodAnnotations :=
          b.methods.foldl (fun m x => Part.addUsages m x.key (arranged x.annotations)) ∅
        parameterAnnotations :=
          b.methods.foldl (fun m x => Part.addParameters m x.key (arrangedParameters x.parameters)) ∅
        classAnnotations := arranged b.annotations } := by
    unfold assembleRecord parts
    rw [List.foldl_append, List.foldl_append, Part.foldl_addTo_fields hfields,
      Part.foldl_addTo_methods hmethods, Part.foldl_addTo_classAttributes hclass,
      ← flatMap_usages_annotationSpellings, List.flatMap_map]
    rfl
  rw [hrecord]
  have hempty : ∀ name, (∅ : NameMap (List Usage)).find? name = present [] := fun _ => rfl
  refine ⟨rfl, rfl, firstOccurrences_eq_eraseDups _, rfl, rfl, fun name => ?_, fun key => ?_,
    fun key => ?_, rfl⟩
  · exact Part.find?_foldl_addUsages b.fields MemberBlueprint.name (fun m => arranged m.annotations)
      (hempty name)
  · refine (Part.find?_foldl_addUsages b.methods MemberBlueprint.key (fun m => arranged m.annotations)
      (hempty key)).trans ?_
    rw [Part.filter_eq_of_nodup h.keys]
    cases b.methods.find? (·.key == key) with
    | none => rfl
    | some m => simp
  · refine (Part.find?_foldl_addParameters h.keys _ _ key).trans ?_
    simp only [presentParameters_arrangedParameters]
    exact Option.or_none

/-! ### The whole file -/

theorem reads_magic : Reads Read.magic (Bytes.bigEndian 4 Read.magicNumber.toNat) () := by
  refine (reads_u4 _).bind_nil ?_
  rw [UInt32.ofNat_toNat, if_neg (not_not_intro rfl)]
  exact .pure ()

/-- The header is read from what stands before the members, wherever the pool comes from. -/
theorem reads_header_of (hversion : oldestMajor ≤ b.major ∧ b.major ≤ newestMajor) (hsuperclass : b.HasSuperclass)
    (hlen : b.interfaces.length ≤ 0xFFFF) {poolBytes : Bytes} (hpool : Reads ConstantPool.read poolBytes pool)
    (hzero : pool.slots[0]? = some .unusable) (hall : pool.HasAll (b.emitDeclaration.run {}).2) :
    Reads readHeader (Bytes.bigEndian 4 Read.magicNumber.toNat ++ (Emit.u2 0 ++
      (Emit.u2 b.major.toNat ++ (poolBytes ++ (b.emitDeclaration.run {}).1)))) (pool, b.header) := by
  have hdeclaration := spells_declaration hsuperclass hlen hzero _ hall
  refine reads_magic.bind ((reads_u2 _).bind ((reads_u2 _).bind ?_))
  rw [UInt16.ofNat_toNat, if_neg (not_not_intro hversion)]
  exact hpool.bind (hdeclaration.bind_pure rfl)

theorem reads_header (h : b.WithinLimits) {poolBytes : Bytes} (hpool : Reads ConstantPool.read poolBytes pool)
    (hzero : pool.slots[0]? = some .unusable) (hall : pool.HasAll (b.emitDeclaration.run {}).2) :
    Reads readHeader (Bytes.bigEndian 4 Read.magicNumber.toNat ++ (Emit.u2 0 ++
      (Emit.u2 b.major.toNat ++ (poolBytes ++ (b.emitDeclaration.run {}).1)))) (pool, b.header) :=
  reads_header_of h.version h.superclass h.interfaceCount hpool hzero hall

end Blueprint

/-- A header and a body without faults make a record, whatever follows them. -/
theorem decode_of_reads {bytes bytes' : Bytes} {header : ClassRecord} {parts : List Part}
    (hheader : Reads readHeader bytes (pool, header)) (hbody : Progress.Passes (readBody pool) bytes' parts)
    (hparts : ∀ part ∈ parts, part.repeatsName = false) (rest : Bytes) :
    decode (bytes ++ bytes' ++ rest) = .ok (assembleRecord header parts) := by
  have hany : parts.any Part.repeatsName = false :=
    List.any_eq_false.2 fun part hpart => by rw [hparts part hpart]; decide
  have hrun := hheader 0 (bytes' ++ rest)
  unfold decode
  rw [List.append_assoc, show Cursor.start (bytes ++ (bytes' ++ rest)) = ⟨0, _⟩ from rfl, hrun]
  simp only [hbody (0 + bytes.length) rest, hany]
  rfl

/-- Within the limits of the format, what is assembled from a blueprint is decoded to the one record that
says what the blueprint says. -/
theorem decode_assembled {b : Blueprint} (h : b.WithinLimits) :
    ∃ r, decode b.assemble = .ok r ∧ b.Describes r ∧ ∀ r', b.Describes r' → r' = r := by
  let w := (b.emitDeclaration.run {}).2
  let w' := (b.emitBody.run w).2
  -- The pool is written in front of what asks for its constants, so it is the pool at the end.
  have hsound : w'.Sound := (b.grows_emit {}).sound PoolWriter.sound_empty
  obtain ⟨slots, hpool, hall⟩ := hsound.reads h.pool
  let pool : ConstantPool := ⟨.unusable :: slots⟩
  have hheader := Blueprint.reads_header h hpool rfl
    (ConstantPool.HasAll.of_grows hall (b.grows_emitBody w))
  have hbody := Blueprint.passes_body h hall
  have hbytes : b.assemble = Bytes.bigEndian 4 Read.magicNumber.toNat ++ (Emit.u2 0 ++
      (Emit.u2 b.major.toNat ++ (Bytes.bigEndian 2 w'.next.toNat ++ w'.bytes ++
        (b.emitDeclaration.run {}).1))) ++ (b.emitBody.run w).1 ++ [] := by
    show Bytes.bigEndian 4 Read.magicNumber.toNat ++ Emit.u2 0 ++ Emit.u2 b.major.toNat ++
      Emit.u2 w'.next.toNat ++ w'.bytes ++ ((b.emitDeclaration.run {}).1 ++ (b.emitBody.run w).1) = _
    simp only [Emit.u2, List.append_assoc, List.append_nil]
  have hdescribes := Blueprint.describes_record h
  refine ⟨_, ?_, hdescribes, fun r' h' => h'.unique hdescribes⟩
  rw [hbytes]
  exact decode_of_reads hheader hbody (Blueprint.repeatsName_parts h) []

/-- Usages of both kinds on a class, a field and a parameter, with a wide constant among the elements and
a nested usage that does not keep its retention. -/
def annotatedService : Blueprint where
  name := "app/Service"
  interfaces := ["app.Face", "app/Face", "app.Other"]
  annotations :=
    [⟨"app.Marker", .classFile, [("at", .long 1), ("ratio", .double 0x7FF8000000000001)]⟩,
      ⟨"app.Marker", .runtime, [("inner",
        .array [.nested ⟨"app.Inner", .classFile, [("type", .classLiteral "int[]")]⟩])]⟩]
  fields := [{ name := "count", descriptor := "I", annotations := [⟨"app.Marker", .runtime, []⟩] }]
  methods :=
    [{ name := "run", descriptor := "(II)V",
       parameters := [[], [⟨"app.Marker", .classFile, [("letter", .char 'é')]⟩]] }]

theorem decode_assembled_annotatedService :
    annotatedService.WithinLimits ∧
      ∃ r, decode annotatedService.assemble = .ok r ∧ annotatedService.Describes r := by
  have h : annotatedService.WithinLimits := by
    constructor <;> decide +kernel
  obtain ⟨r, hdecode, hdescribes, -⟩ := decode_assembled h
  exact ⟨h, r, hdecode, hdescribes⟩

end ClassCatalog.ClassFile
