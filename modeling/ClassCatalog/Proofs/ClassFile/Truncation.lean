import ClassCatalog.Proofs.ClassFile.Assemble
import ClassCatalog.Proofs.ClassFile.Takes

/-!
# Class files that are cut short or go on

A class file that gives a record is a header, a body and bytes that nobody looks at. Cut in the header
it gives nothing. Cut in the body it gives the parts before the cut (`Progress.Takes`), and as a part
only ever adds to a record (`ClassRecord.Begins`), what they make is the beginning of the record. The
usages on the parameters of a method are the exception: a later method with the same key puts its own in
their place.
-/

namespace ClassCatalog

/-! ### The beginning of a record -/

/-- Every list of `m` is the beginning of the list that `m'` has under the same name. -/
def NameMap.Begins (m m' : NameMap (List Usage)) : Prop :=
  ∀ name us, m.find? name = some us → ∃ us', m'.find? name = some us' ∧ us <+: us'

theorem NameMap.Begins.refl (m : NameMap (List Usage)) : m.Begins m :=
  fun _ us h => ⟨us, h, List.prefix_refl us⟩

theorem NameMap.Begins.trans {m m' m'' : NameMap (List Usage)} (h : m.Begins m') (h' : m'.Begins m'') :
    m.Begins m'' := by
  intro name us hus
  obtain ⟨us', hus', hle⟩ := h name us hus
  obtain ⟨us'', hus'', hle'⟩ := h' name us' hus'
  exact ⟨us'', hus'', hle.trans hle'⟩

namespace ClassRecord

/-- There are no usages yet. -/
structure IsBare (r : ClassRecord) : Prop where
  classAnnotations : r.classAnnotations = []
  fieldAnnotations : r.fieldAnnotations = ∅
  methodAnnotations : r.methodAnnotations = ∅
  parameterAnnotations : r.parameterAnnotations = ∅

/-- `r` declares the same class as `r'` and has the first of its annotations, parameters apart. -/
structure Begins (r r' : ClassRecord) : Prop where
  name : r.name = r'.name
  superclass : r.superclass = r'.superclass
  interfaces : r.interfaces = r'.interfaces
  modifiers : r.modifiers = r'.modifiers
  onClass : r.classAnnotations <+: r'.classAnnotations
  onFields : r.fieldAnnotations.Begins r'.fieldAnnotations
  onMethods : r.methodAnnotations.Begins r'.methodAnnotations

theorem Begins.refl (r : ClassRecord) : r.Begins r :=
  ⟨rfl, rfl, rfl, rfl, List.prefix_refl _, .refl _, .refl _⟩

theorem Begins.trans {r r' r'' : ClassRecord} (h : r.Begins r') (h' : r'.Begins r'') : r.Begins r'' where
  name := h.name.trans h'.name
  superclass := h.superclass.trans h'.superclass
  interfaces := h.interfaces.trans h'.interfaces
  modifiers := h.modifiers.trans h'.modifiers
  onClass := h.onClass.trans h'.onClass
  onFields := h.onFields.trans h'.onFields
  onMethods := h.onMethods.trans h'.onMethods

end ClassRecord

namespace ClassFile

open Read

namespace Part

/-- The key of a method. -/
def methodKey? : Part → Option String
  | method key _ _ => some key
  | _ => none

theorem begins_addUsages (m : NameMap (List Usage)) (name : String) (us : List Usage) :
    m.Begins (addUsages m name us) := by
  unfold addUsages
  split
  · exact .refl m
  · intro other kept hkept
    rw [NameMap.find?_insert]
    by_cases hname : other = name
    · subst hname
      rw [if_pos rfl, hkept]
      exact ⟨_, rfl, List.prefix_append kept us⟩
    · rw [if_neg hname]
      exact ⟨kept, hkept, List.prefix_refl kept⟩

theorem begins_addTo (r : ClassRecord) (part : Part) : r.Begins (addTo r part) := by
  have hrefl := ClassRecord.Begins.refl r
  cases part with
  | field name us => exact { hrefl with onFields := begins_addUsages _ name _ }
  | method key us ps =>
    simp only [addTo]
    split
    all_goals exact { hrefl with onMethods := begins_addUsages _ key _ }
  | classAttribute us => exact { hrefl with onClass := List.prefix_append _ _ }

theorem begins_foldl_addTo (parts : List Part) (r : ClassRecord) : r.Begins (parts.foldl addTo r) := by
  induction parts generalizing r with
  | nil => exact .refl r
  | cons part parts ih => exact (begins_addTo r part).trans (ih _)

theorem parameters_addTo {part : Part} {key : String} (h : part.methodKey? ≠ some key) (r : ClassRecord) :
    (addTo r part).parameterAnnotations.find? key = r.parameterAnnotations.find? key := by
  cases part with
  | field name us => rfl
  | method other us ps =>
    have hkey : key ≠ other := fun heq => h (congrArg some heq.symm)
    simp only [addTo]
    split
    · exact NameMap.find?_insert_of_ne _ hkey _
    · rfl
  | classAttribute us => rfl

/-- What is on the parameters of a method changes only when a method with its key is added. -/
theorem parameters_foldl_addTo {parts : List Part} {key : String} (h : key ∉ parts.filterMap methodKey?)
    (r : ClassRecord) :
    (parts.foldl addTo r).parameterAnnotations.find? key = r.parameterAnnotations.find? key := by
  induction parts generalizing r with
  | nil => rfl
  | cons part parts ih =>
    have hpart : part.methodKey? ≠ some key := by
      intro heq
      refine h (List.mem_filterMap.2 ⟨part, List.mem_cons_self .., heq⟩)
    have hparts : key ∉ parts.filterMap methodKey? := by
      intro hmem
      obtain ⟨other, hother, heq⟩ := List.mem_filterMap.1 hmem
      exact h (List.mem_filterMap.2 ⟨other, List.mem_cons_of_mem _ hother, heq⟩)
    rw [List.foldl_cons, ih hparts, parameters_addTo hpart]

end Part

/-! ### Parts before the cut -/

namespace Progress

variable {α : Type} {f g : Cursor → Progress} {bytes bytes' : Bytes} {parts parts' : List Part}

/-- Reads something, then the parts that it announces. -/
def after (p : Read α) (f : α → Cursor → Progress) (c : Cursor) : Progress :=
  match p.runAt c with
  | (.ok a, c) => f a c
  | (.error e, _) => ⟨[], .error e⟩

/-- The bytes are read as the parts, and with the last of them missing reading stops after some of the
parts. -/
structure Takes (f : Cursor → Progress) (bytes : Bytes) (parts : List Part) : Prop where
  passes : Passes f bytes parts
  stops (offset n : Nat) (hn : n < bytes.length) :
    ∃ ps e, f ⟨offset, bytes.take n⟩ = ⟨ps, .error e⟩ ∧ ps <+: parts

/-- All parts that are ever read are taken in this way. -/
structure Exact (f : Cursor → Progress) : Prop where
  takes (c c' : Cursor) (parts : List Part) (h : f c = ⟨parts, .ok c'⟩) :
    ∃ bytes, c.rest = bytes ++ c'.rest ∧ Takes f bytes parts

theorem Takes.after {p : Read α} {a : α} {f : α → Cursor → Progress} (hp : p.Takes bytes a)
    (hf : Takes (f a) bytes' parts) : Takes (Progress.after p f) (bytes ++ bytes') parts := by
  refine ⟨fun offset rest => ?_, fun offset n hn => ?_⟩
  · rw [Progress.after, List.append_assoc, hp.reads, List.length_append, ← Nat.add_assoc]
    exact hf.passes _ _
  · unfold Progress.after
    by_cases hlt : n < bytes.length
    · rw [List.take_append_of_le_length (by omega)]
      obtain ⟨e, he⟩ := hp.fails offset n hlt
      cases hrun : p.runAt ⟨offset, bytes.take n⟩ with
      | mk result c =>
        rw [hrun] at he
        subst he
        exact ⟨[], e, rfl, List.nil_prefix⟩
    · have htake : (bytes ++ bytes').take n = bytes ++ bytes'.take (n - bytes.length) := by
        rw [List.take_append, List.take_of_length_le (by omega)]
      rw [htake, hp.reads]
      refine hf.stops _ _ ?_
      rw [List.length_append] at hn
      omega

theorem Exact.after {p : Read α} {f : α → Cursor → Progress} (hp : p.Exact) (hf : ∀ a, Exact (f a)) :
    Exact (Progress.after p f) := by
  refine ⟨fun c c' parts h => ?_⟩
  unfold Progress.after at h
  cases hrun : p.runAt c with
  | mk result d =>
    rw [hrun] at h
    cases result with
    | error e => nomatch h
    | ok a =>
      obtain ⟨bytes, hbytes, htakes⟩ := hp.takes _ _ _ hrun
      obtain ⟨bytes', hbytes', htakes'⟩ := (hf a).takes _ _ _ h
      refine ⟨bytes ++ bytes', ?_, Takes.after htakes htakes'⟩
      rw [hbytes, hbytes', List.append_assoc]

theorem Exact.cons (p : Part) (hf : Exact f) : Exact fun c => ⟨p :: (f c).parts, (f c).next⟩ := by
  refine ⟨fun c c' parts h => ?_⟩
  obtain ⟨rfl, hnext⟩ := Progress.mk.inj h
  obtain ⟨bytes, hbytes, htakes⟩ := hf.takes c c' (f c).parts (by rw [← hnext])
  refine ⟨bytes, hbytes, fun offset rest => ?_, fun offset n hn => ?_⟩
  · simp only [htakes.passes offset rest]
  · obtain ⟨ps, e, hstop, hle⟩ := htakes.stops offset n hn
    refine ⟨p :: ps, e, ?_, List.cons_prefix_cons.2 ⟨rfl, hle⟩⟩
    simp only [hstop]

theorem run_succ (part : Read Part) (n : Nat) :
    run part (n + 1) = after part fun p c => ⟨p :: (run part n c).parts, (run part n c).next⟩ := by
  funext c
  rw [run, after]
  cases part.runAt c with
  | mk result d => cases result <;> rfl

theorem counted_eq_after (part : Read Part) : counted part = after u2 fun n => run part n.toNat := by
  funext c
  rw [counted, after]
  cases u2.runAt c with
  | mk result d => cases result <;> rfl

theorem exact_run {part : Read Part} (h : part.Exact) (n : Nat) : Exact (run part n) := by
  induction n with
  | zero =>
    refine ⟨fun c c' parts hrun => ?_⟩
    cases hrun
    exact ⟨[], rfl, fun _ _ => rfl, fun _ m hm => absurd hm (Nat.not_lt_zero m)⟩
  | succ n ih =>
    rw [run_succ]
    exact Exact.after h fun p => ih.cons p

theorem exact_counted {part : Read Part} (h : part.Exact) : Exact (counted part) := by
  rw [counted_eq_after]
  exact Exact.after exact_u2 fun n => exact_run h n.toNat

theorem Takes.andThen (hf : Takes f bytes parts) (hg : Takes g bytes' parts') :
    Takes (fun c => (f c).andThen g) (bytes ++ bytes') (parts ++ parts') := by
  refine ⟨hf.passes.andThen hg.passes, fun offset n hn => ?_⟩
  by_cases hlt : n < bytes.length
  · obtain ⟨ps, e, hstop, hle⟩ := hf.stops offset n hlt
    refine ⟨ps, e, ?_, hle.trans (List.prefix_append parts parts')⟩
    rw [List.take_append_of_le_length (by omega), hstop]
    rfl
  · have htake : (bytes ++ bytes').take n = bytes ++ bytes'.take (n - bytes.length) := by
      rw [List.take_append, List.take_of_length_le (by omega)]
    rw [List.length_append] at hn
    obtain ⟨ps, e, hstop, hle⟩ := hg.stops (offset + bytes.length) (n - bytes.length) (by omega)
    refine ⟨parts ++ ps, e, ?_, (List.prefix_append_right_inj parts).2 hle⟩
    rw [htake, hf.passes]
    show (⟨parts ++ (g _).parts, (g _).next⟩ : Progress) = _
    rw [hstop]

theorem Exact.andThen (hf : Exact f) (hg : Exact g) : Exact fun c => (f c).andThen g := by
  refine ⟨fun c c' parts h => ?_⟩
  cases hfirst : f c with
  | mk ps next =>
    rw [hfirst] at h
    cases next with
    | error e => nomatch h
    | ok d =>
      obtain ⟨rfl, hnext⟩ := Progress.mk.inj h
      obtain ⟨bytes, hbytes, htakes⟩ := hf.takes c d ps hfirst
      obtain ⟨bytes', hbytes', htakes'⟩ := hg.takes d c' (g d).parts (by rw [← hnext])
      refine ⟨bytes ++ bytes', ?_, htakes.andThen htakes'⟩
      rw [hbytes, hbytes', List.append_assoc]

end Progress

theorem exact_readBody (pool : ConstantPool) : Progress.Exact (readBody pool) :=
  ((Progress.exact_counted Part.exact_readField).andThen
    (Progress.exact_counted Part.exact_readMethod)).andThen
    (Progress.exact_counted Part.exact_readClassAttribute)

/-! ### The whole file -/

theorem eq_of_readDeclaration {pool : ConstantPool} {c c' : Cursor} {r : ClassRecord}
    (h : (readDeclaration pool).runAt c = (.ok r, c')) :
    ∃ name superclass interfaces modifiers, r = { name, superclass, interfaces, modifiers } := by
  obtain ⟨flags, _, -, h⟩ := eq_ok_of_runAt_bind h
  obtain ⟨thisIndex, _, -, h⟩ := eq_ok_of_runAt_bind h
  obtain ⟨superIndex, _, -, h⟩ := eq_ok_of_runAt_bind h
  obtain ⟨internal, _, -, h⟩ := eq_ok_of_runAt_bind h
  obtain ⟨superclass, _, -, h⟩ := eq_ok_of_runAt_bind h
  obtain ⟨count, _, -, h⟩ := eq_ok_of_runAt_bind h
  obtain ⟨interfaces, _, -, h⟩ := eq_ok_of_runAt_bind h
  cases h
  exact ⟨_, _, _, _, rfl⟩

/-- A header says what the class is, and nothing else. -/
theorem eq_of_readHeader {pool : ConstantPool} {header : ClassRecord} {c c' : Cursor}
    (h : readHeader.runAt c = (.ok (pool, header), c')) :
    ∃ name superclass interfaces modifiers, header = { name, superclass, interfaces, modifiers } := by
  obtain ⟨_, _, -, h⟩ := eq_ok_of_runAt_bind h
  obtain ⟨minor, _, -, h⟩ := eq_ok_of_runAt_bind h
  obtain ⟨major, _, -, h⟩ := eq_ok_of_runAt_bind h
  split at h
  · obtain ⟨_, _, hthrow, -⟩ := eq_ok_of_runAt_bind h
    nomatch hthrow
  · obtain ⟨_, _, -, h⟩ := eq_ok_of_runAt_bind h
    obtain ⟨declaration, _, hdeclaration, h⟩ := eq_ok_of_runAt_bind h
    cases h
    exact eq_of_readDeclaration hdeclaration

theorem isBare_readHeader {pool : ConstantPool} {header : ClassRecord} {c c' : Cursor}
    (h : readHeader.runAt c = (.ok (pool, header), c')) : header.IsBare := by
  obtain ⟨name, superclass, interfaces, modifiers, rfl⟩ := eq_of_readHeader h
  exact ⟨rfl, rfl, rfl, rfl⟩

/-- Nothing is said of parameters before the methods are read. -/
theorem parameters_readHeader {pool : ConstantPool} {header : ClassRecord} {c c' : Cursor}
    (h : readHeader.runAt c = (.ok (pool, header), c')) : header.parameterAnnotations = ∅ :=
  (isBare_readHeader h).parameterAnnotations

/-- What a file is made of that gives a record. -/
theorem eq_of_decode_eq_ok {bytes : Bytes} {r : ClassRecord} (h : decode bytes = .ok r) :
    ∃ pool header c parts c', readHeader.runAt (Cursor.start bytes) = (.ok (pool, header), c) ∧
      readBody pool c = ⟨parts, .ok c'⟩ ∧ parts.any Part.repeatsName = false ∧
      r = assembleRecord header parts := by
  unfold decode at h
  cases hheader : readHeader.runAt (Cursor.start bytes) with
  | mk result c =>
    rw [hheader] at h
    cases result with
    | error e => nomatch h
    | ok declared =>
      obtain ⟨pool, header⟩ := declared
      cases hbody : readBody pool c with
      | mk parts next =>
        simp only [hbody] at h
        cases next with
        | error e => nomatch h
        | ok c' =>
          cases hrepeats : parts.any Part.repeatsName with
          | true => simp [hrepeats] at h
          | false =>
            simp only [hrepeats] at h
            cases h
            exact ⟨pool, header, c, parts, c', rfl, hbody, hrepeats, rfl⟩

section

variable {pool : ConstantPool} {header : ClassRecord} {bytes bytes' : Bytes} {parts : List Part}

theorem decode_cut_in_header (hheader : readHeader.Takes bytes (pool, header)) {n : Nat}
    (hn : n < bytes.length) : ∃ fault, decode (bytes.take n) = .error (.malformed fault) := by
  obtain ⟨fault, hfault⟩ := hheader.fails 0 n hn
  refine ⟨fault, ?_⟩
  unfold decode Cursor.start
  cases hrun : readHeader.runAt ⟨0, bytes.take n⟩ with
  | mk result c =>
    rw [hrun] at hfault
    subst hfault
    rfl

/-- Cut in the body, a file gives the record of the parts before the cut. -/
theorem decode_cut_in_body (hheader : readHeader.Takes bytes (pool, header))
    (hbody : Progress.Takes (readBody pool) bytes' parts) {n : Nat} (hn : n < bytes'.length) :
    ∃ ps fault, ps <+: parts ∧ decode (bytes ++ bytes'.take n) =
      .error (.incomplete { assembleRecord header ps with isPartial := true } (.parse fault)) := by
  obtain ⟨ps, fault, hstop, hle⟩ := hbody.stops (0 + bytes.length) n hn
  refine ⟨ps, fault, hle, ?_⟩
  unfold decode Cursor.start
  rw [hheader.reads]
  simp only [hstop]

end

/-- A file that gives a record gives the same record with anything behind the body. Cut in the header it
is malformed, and cut in the body it gives a partial record, which is the beginning of the whole one. -/
theorem decode_cut_short {bytes : Bytes} {r : ClassRecord} (h : decode bytes = .ok r) :
    ∃ pool header behindHeader parts behindBody,
      readHeader.runAt (Cursor.start bytes) = (.ok (pool, header), behindHeader) ∧
      readBody pool behindHeader = ⟨parts, .ok behindBody⟩ ∧
      behindHeader.offset ≤ behindBody.offset ∧ behindBody.offset ≤ bytes.length ∧
      (∀ rest, decode (bytes.take behindBody.offset ++ rest) = .ok r) ∧
      (∀ n < behindHeader.offset, ∃ fault, decode (bytes.take n) = .error (.malformed fault)) ∧
      ∀ n, behindHeader.offset ≤ n → n < behindBody.offset →
        ∃ r' fault, decode (bytes.take n) = .error (.incomplete r' (.parse fault)) ∧
          r'.isPartial = true ∧ r'.Begins r ∧
          ((parts.filterMap Part.methodKey?).Nodup → ∀ key ps,
            r'.parameterAnnotations.find? key = some ps → r.parameterAnnotations.find? key = some ps) := by
  obtain ⟨pool, header, c, parts, c', hheader, hbody, hrepeats, rfl⟩ := eq_of_decode_eq_ok h
  obtain ⟨headerBytes, hrest, hheaderTakes⟩ := exact_readHeader.takes _ _ _ hheader
  obtain ⟨bodyBytes, hrest', hbodyTakes⟩ := (exact_readBody pool).takes _ _ _ hbody
  have hbytes : bytes = headerBytes ++ (bodyBytes ++ c'.rest) := by
    rw [← hrest']
    exact hrest
  -- Where the cursors are.
  have hc : c.offset = headerBytes.length := by
    have hrun := hheaderTakes.reads 0 (bodyBytes ++ c'.rest)
    rw [← hbytes] at hrun
    obtain ⟨-, hcursor⟩ := Prod.mk.inj (hheader.symm.trans hrun)
    rw [hcursor, Nat.zero_add]
  have hc' : c'.offset = headerBytes.length + bodyBytes.length := by
    have hrun := hbodyTakes.passes c.offset c'.rest
    rw [← hrest'] at hrun
    have hnext := congrArg Progress.next (hbody.symm.trans hrun)
    have hcursor : c' = ⟨c.offset + bodyBytes.length, c'.rest⟩ := Except.ok.inj hnext
    rw [hcursor, hc]
  have hlength : bytes.length = headerBytes.length + (bodyBytes.length + c'.rest.length) := by
    rw [hbytes, List.length_append, List.length_append]
  have htaken : bytes.take c'.offset = headerBytes ++ bodyBytes := by
    rw [hbytes, ← List.append_assoc, hc', ← List.length_append, List.take_left]
  have hparts : ∀ part ∈ parts, part.repeatsName = false := by
    intro part hpart
    simpa using List.any_eq_false.1 hrepeats part hpart
  refine ⟨pool, header, c, parts, c', hheader, hbody, by omega, by omega, fun rest => ?_, fun n hn => ?_,
    fun n hle hlt => ?_⟩
  · rw [htaken]
    exact decode_of_reads hheaderTakes.reads hbodyTakes.passes hparts rest
  · have hcut : bytes.take n = headerBytes.take n := by
      rw [hbytes, List.take_append_of_le_length (by omega)]
    rw [hcut]
    exact decode_cut_in_header hheaderTakes (by omega)
  · have hcut : bytes.take n = headerBytes ++ bodyBytes.take (n - headerBytes.length) := by
      rw [hbytes, List.take_append, List.take_of_length_le (by omega),
        List.take_append_of_le_length (by omega)]
    obtain ⟨before, fault, ⟨others, rfl⟩, hdecode⟩ :=
      decode_cut_in_body hheaderTakes hbodyTakes (n := n - headerBytes.length) (by omega)
    have hsplit : assembleRecord header (before ++ others) =
        others.foldl Part.addTo (assembleRecord header before) := List.foldl_append
    have hbegins : (assembleRecord header before).Begins (assembleRecord header (before ++ others)) := by
      rw [hsplit]
      exact Part.begins_foldl_addTo others _
    refine ⟨{ assembleRecord header before with isPartial := true }, fault, by rw [hcut, hdecode], rfl,
      { hbegins with }, fun hkeys key ps hfind => ?_⟩
    -- The method with these parameters is before the cut, so there is none with its key behind it.
    rw [List.filterMap_append, List.nodup_append] at hkeys
    obtain ⟨-, -, hdisjoint⟩ := hkeys
    have hkey : key ∈ before.filterMap Part.methodKey? := by
      by_contra hnot
      have hsame : (assembleRecord header before).parameterAnnotations.find? key = none := by
        unfold assembleRecord
        rw [Part.parameters_foldl_addTo hnot, parameters_readHeader hheader]
        rfl
      nomatch hsame.symm.trans hfind
    rw [hsplit, Part.parameters_foldl_addTo fun hmem => hdisjoint key hkey key hmem rfl]
    exact hfind

/-- Whether decoding has broken off in the body. -/
def isIncomplete : Except DecodeError ClassRecord → Bool
  | .error (.incomplete _ _) => true
  | _ => false

/-- Cut behind its field, a class file with a method on top gives a partial record. -/
theorem decode_cut_annotatedService :
    ∃ r, decode annotatedService.assemble = .ok r ∧ ∃ r' fault,
      decode (annotatedService.assemble.take 400) = .error (.incomplete r' (.parse fault)) ∧
        r'.isPartial = true ∧ r'.Begins r := by
  have hcut : isIncomplete (decode (annotatedService.assemble.take 400)) = true := by decide +kernel
  have hwhole : (decode annotatedService.assemble).isOk = true := by decide +kernel
  cases hdecode : decode annotatedService.assemble with
  | error e =>
    rw [hdecode] at hwhole
    cases hwhole
  | ok r =>
    obtain ⟨_, _, c, _, c', -, -, -, -, hgoesOn, hheader, hbody⟩ := decode_cut_short hdecode
    have hle : c.offset ≤ 400 := by
      by_contra hlt
      obtain ⟨fault, hfault⟩ := hheader 400 (by omega)
      rw [hfault] at hcut
      cases hcut
    have hlt : 400 < c'.offset := by
      by_contra hle'
      have hok := hgoesOn ((annotatedService.assemble.take 400).drop c'.offset)
      have htwice : annotatedService.assemble.take c'.offset =
          (annotatedService.assemble.take 400).take c'.offset := by
        rw [List.take_take, Nat.min_eq_left (by omega)]
      rw [htwice, List.take_append_drop] at hok
      rw [hok] at hcut
      cases hcut
    obtain ⟨r', fault, hincomplete, hpartial, hbegins, -⟩ := hbody 400 hle hlt
    exact ⟨r, rfl, r', fault, hincomplete, hpartial, hbegins⟩

end ClassFile

end ClassCatalog
