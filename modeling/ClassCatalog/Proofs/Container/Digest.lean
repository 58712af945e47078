import ClassCatalog.Container.Scripted
import ClassCatalog.Proofs.Cache.Loading
import ClassCatalog.Proofs.ClassFile.Truncation
import ClassCatalog.Proofs.Text.Utf8

/-!
# What the digest of a container tells apart

The digest of entries is the hash of their names and bytes, one behind the other. A zero byte ends a
name, but nothing ends the bytes of an entry: bytes that look like the next name can stand at the end of
a file just as well as in front of the next one (`digest_of_moved_boundary`). Whole class files end by
themselves, as no class file is the beginning of another, and entries that are whole class files can be
read back from what is hashed.
-/

namespace ClassCatalog

namespace Utf8

theorem zero_notMem_encodeChar {c : Char} (h : c ≠ '\x00') : (0 : UInt8) ∉ String.utf8EncodeChar c := by
  have hbounds := toNat_bounds c
  have hzero : c.toNat ≠ 0 := by
    intro hc
    exact h (Char.toNat_inj.1 hc)
  have hval : c.val.toNat = c.toNat := rfl
  unfold String.utf8EncodeChar
  simp only [hval]
  split
  · simp [← UInt8.toNat_inj]
    omega
  · split
    · simp [← UInt8.toNat_inj]
      omega
    · split
      · simp [← UInt8.toNat_inj]
        omega
      · simp [← UInt8.toNat_inj]
        omega

theorem zero_notMem_encode {s : String} (h : '\x00' ∉ s.toList) : (0 : UInt8) ∉ encode s := by
  intro hzero
  obtain ⟨c, hc, hzero⟩ := List.mem_flatMap.1 hzero
  have hne : c ≠ '\x00' := by
    rintro rfl
    exact h hc
  exact zero_notMem_encodeChar hne hzero

theorem encode_inj {s t : String} (h : encode s = encode t) : s = t := by
  have hdecode := decode_encode s
  rw [h, decode_encode] at hdecode
  exact (Except.ok.inj hdecode).symm

end Utf8

namespace ClassFile

/-- Whether a byte string is a class file with nothing behind it. -/
def isWhole (bytes : Bytes) : Bool :=
  match readHeader.runAt (Cursor.start bytes) with
  | (.ok (pool, _), c) =>
    match (readBody pool c).next with
    | .ok c' => c'.rest.isEmpty
    | .error _ => false
  | (.error _, _) => false

/-- A whole class file is a header and a body, and both can be told from what follows them. -/
theorem exists_takes_of_isWhole {bytes : Bytes} (h : isWhole bytes = true) :
    ∃ headerBytes bodyBytes declared parts, bytes = headerBytes ++ bodyBytes ∧
      readHeader.Takes headerBytes declared ∧ Progress.Takes (readBody declared.1) bodyBytes parts := by
  unfold isWhole at h
  cases hheader : readHeader.runAt (Cursor.start bytes) with
  | mk result c =>
    rw [hheader] at h
    cases result with
    | error e => nomatch h
    | ok declared =>
      cases hbody : readBody declared.1 c with
      | mk parts next =>
        simp only [hbody] at h
        cases next with
        | error e => nomatch h
        | ok c' =>
          obtain ⟨headerBytes, hrest, hheaderTakes⟩ := exact_readHeader.takes _ _ _ hheader
          obtain ⟨bodyBytes, hrest', hbodyTakes⟩ := (exact_readBody declared.1).takes _ _ _ hbody
          refine ⟨headerBytes, bodyBytes, declared, parts, ?_, hheaderTakes, hbodyTakes⟩
          have hbytes : bytes = headerBytes ++ c.rest := hrest
          rw [hbytes, hrest', List.isEmpty_iff.1 h, List.append_nil]

/-- No whole class file is the beginning of another. -/
theorem eq_of_isWhole {bytes bytes' rest rest' : Bytes} (h : isWhole bytes = true)
    (h' : isWhole bytes' = true) (heq : bytes ++ rest = bytes' ++ rest') :
    bytes = bytes' ∧ rest = rest' := by
  obtain ⟨head, body, declared, parts, rfl, hhead, hbody⟩ := exists_takes_of_isWhole h
  obtain ⟨head', body', declared', parts', rfl, hhead', hbody'⟩ := exists_takes_of_isWhole h'
  rw [List.append_assoc, List.append_assoc] at heq
  have hheader := hhead.reads 0 (body ++ rest)
  rw [heq, hhead'.reads] at hheader
  obtain ⟨hdeclared, hcursor⟩ := Prod.mk.inj hheader
  obtain rfl : declared' = declared := Except.ok.inj hdeclared
  obtain ⟨hoffset, hrest⟩ := Cursor.mk.inj hcursor
  have hparts := hbody.passes 0 rest
  rw [← hrest, hbody'.passes] at hparts
  obtain ⟨hoffset', hrest'⟩ := Cursor.mk.inj (Except.ok.inj (Progress.mk.inj hparts).2)
  obtain ⟨rfl, -⟩ := List.append_inj heq (by omega)
  obtain ⟨rfl, -⟩ := List.append_inj hrest (by omega)
  exact ⟨rfl, hrest'.symm⟩

end ClassFile

namespace ClassEntry

/-- A whole class file under a name in which no zero byte stands. -/
structure IsWhole (e : ClassEntry) : Prop where
  name : '\x00' ∉ e.name.toList
  bytes : ClassFile.isWhole e.bytes = true

/-- The first zero byte is where a name ends. -/
theorem eq_of_append_zero {name name' rest rest' : Bytes} (h : (0 : UInt8) ∉ name)
    (h' : (0 : UInt8) ∉ name') (heq : name ++ 0 :: rest = name' ++ 0 :: rest') :
    name = name' ∧ rest = rest' := by
  induction name generalizing name' with
  | nil =>
    cases name' with
    | nil => exact ⟨rfl, List.tail_eq_of_cons_eq heq⟩
    | cons b name' => exact absurd (List.head_eq_of_cons_eq heq ▸ List.mem_cons_self ..) h'
  | cons a name ih =>
    cases name' with
    | nil => exact absurd ((List.head_eq_of_cons_eq heq).symm ▸ List.mem_cons_self ..) h
    | cons b name' =>
      obtain ⟨rfl, htail⟩ := List.cons.inj heq
      obtain ⟨rfl, hrest⟩ := ih (fun hmem => h (List.mem_cons_of_mem _ hmem))
        (fun hmem => h' (List.mem_cons_of_mem _ hmem)) htail
      exact ⟨rfl, hrest⟩

theorem eq_of_digestBytes {x y : ClassEntry} (hx : x.IsWhole) (hy : y.IsWhole) {rest rest' : Bytes}
    (h : x.digestBytes ++ rest = y.digestBytes ++ rest') : x = y ∧ rest = rest' := by
  unfold digestBytes at h
  rw [List.append_assoc, List.append_assoc, List.cons_append, List.cons_append] at h
  obtain ⟨hname, hbytes⟩ :=
    eq_of_append_zero (Utf8.zero_notMem_encode hx.name) (Utf8.zero_notMem_encode hy.name) h
  obtain ⟨hbytes, hrest⟩ := ClassFile.eq_of_isWhole hx.bytes hy.bytes hbytes
  cases x
  cases y
  cases Utf8.encode_inj hname
  cases hbytes
  exact ⟨rfl, hrest⟩

/-- Whole class files can be read back from what is hashed of them. -/
theorem eq_of_flatMap_digestBytes {xs ys : List ClassEntry} (hxs : ∀ e ∈ xs, e.IsWhole)
    (hys : ∀ e ∈ ys, e.IsWhole) (h : xs.flatMap digestBytes = ys.flatMap digestBytes) : xs = ys := by
  induction xs generalizing ys with
  | nil =>
    cases ys with
    | nil => rfl
    | cons y ys =>
      rw [List.flatMap_nil, List.flatMap_cons, digestBytes, List.append_assoc] at h
      simp at h
  | cons x xs ih =>
    cases ys with
    | nil =>
      rw [List.flatMap_nil, List.flatMap_cons, digestBytes, List.append_assoc] at h
      simp at h
    | cons y ys =>
      obtain ⟨hx, hothers⟩ := List.forall_mem_cons.1 hxs
      obtain ⟨hy, hothers'⟩ := List.forall_mem_cons.1 hys
      rw [List.flatMap_cons, List.flatMap_cons] at h
      obtain ⟨rfl, hrest⟩ := eq_of_digestBytes hx hy h
      rw [ih hothers hothers' hrest]

end ClassEntry

namespace Loading

variable {ω : Type} {env : Environment ω} {settings : CacheSettings} {l : Location} {w : ω}
  {course : Enumeration} {current : Identity}

/-- A container that has no digest of its own is told by that of its entries. -/
theorem digest_of_identityOf (hpolicy : settings.identityPolicy = .contentDigest)
    (hown : env.ownDigest l w = none) (hread : Undisturbed env l w course)
    (h : identityOf env settings l w = .ok current) :
    current.digest = some (ClassEntry.digest course.entries) := by
  rw [identityOf_eq hread, hown] at h
  unfold identityFrom at h
  rw [hpolicy] at h
  cases hstat : env.stat l w with
  | error reason =>
    rw [hstat] at h
    nomatch h
  | ok stat =>
    rw [hstat] at h
    cases hfailure : course.failure with
    | some reason =>
      rw [hfailure] at h
      nomatch h
    | none =>
      rw [hfailure] at h
      cases h
      rfl

end Loading

namespace ClassEntry

/-- The contents of two containers whose entries are whole class files have one digest only if they are
the same. So the content is not replaced by another without a change of the identity. -/
theorem digest_separates {xs ys : List ClassEntry} (hxs : ∀ e ∈ xs, e.IsWhole) (hys : ∀ e ∈ ys, e.IsWhole)
    (hhash : Sha256.hexHash (xs.flatMap digestBytes) = Sha256.hexHash (ys.flatMap digestBytes) →
      xs.flatMap digestBytes = ys.flatMap digestBytes) :
    (digest xs = digest ys → xs = ys) ∧
      ∀ {ω : Type} (env : Environment ω) (settings : CacheSettings) (l : Location) (w w' : ω)
        (course course' : Enumeration) (current current' : Identity),
        settings.identityPolicy = .contentDigest → env.ownDigest l w = none → env.ownDigest l w' = none →
        Loading.Undisturbed env l w course → Loading.Undisturbed env l w' course' →
        course.entries = xs → course'.entries = ys →
        Loading.identityOf env settings l w = .ok current →
        Loading.identityOf env settings l w' = .ok current' → xs ≠ ys → current ≠ current' := by
  have hlists : digest xs = digest ys → xs = ys := by
    intro hdigest
    exact eq_of_flatMap_digestBytes hxs hys (hhash hdigest)
  refine ⟨hlists, ?_⟩
  rintro ω env settings l w w' course course' current current' hpolicy hown hown' hread hread' rfl rfl
    hcurrent hcurrent' hne rfl
  have hdigest := Loading.digest_of_identityOf hpolicy hown hread hcurrent
  rw [Loading.digest_of_identityOf hpolicy hown' hread' hcurrent'] at hdigest
  exact hne (hlists (Option.some.inj hdigest).symm)

/-- The class file of a class without members. -/
def plainClass (name : String) : Bytes := { name : ClassFile.Blueprint }.assemble

/-- A directory with one class file. -/
def replaceableWorld (name : String) : ScriptedWorld :=
  { containers := NameMap.empty.insert "d" { entries := [⟨"a.class", plainClass name⟩] } }

theorem identityOf_replaceableWorld (name : String) :
    Loading.identityOf ScriptedWorld.environment { identityPolicy := .contentDigest } (.directory "d")
        (replaceableWorld name) =
      .ok ⟨"d", ContainerStat.totalSize [(plainClass name).length], 0,
        some (digest [⟨"a.class", plainClass name⟩])⟩ := rfl

/-- One class file replaced by another of the same size. -/
theorem digest_separates_replaced :
    let xs : List ClassEntry := [⟨"a.class", plainClass "a.A"⟩]
    let ys : List ClassEntry := [⟨"a.class", plainClass "a.B"⟩]
    (∀ e ∈ xs ++ ys, e.IsWhole) ∧ digest xs ≠ digest ys ∧ ∃ current current',
      Loading.identityOf ScriptedWorld.environment { identityPolicy := .contentDigest } (.directory "d")
        (replaceableWorld "a.A") = .ok current ∧
      Loading.identityOf ScriptedWorld.environment { identityPolicy := .contentDigest } (.directory "d")
        (replaceableWorld "a.B") = .ok current' ∧
      current.size = current'.size ∧ current.lastModified = current'.lastModified ∧ current ≠ current' := by
  intro xs ys
  have hwhole : ∀ e ∈ xs ++ ys, e.IsWhole := by
    intro e he
    simp only [xs, ys, List.cons_append, List.nil_append, List.mem_cons, List.not_mem_nil, or_false] at he
    rcases he with rfl | rfl
    · exact ⟨by decide, by decide +kernel⟩
    · exact ⟨by decide, by decide +kernel⟩
  have hne : xs ≠ ys := by decide +kernel
  have hsize : (plainClass "a.A").length = (plainClass "a.B").length := by decide +kernel
  obtain ⟨hlists, hidentities⟩ := digest_separates
    (fun e he => hwhole e (List.mem_append_left ys he)) (fun e he => hwhole e (List.mem_append_right xs he))
    (fun heq => absurd heq (by decide +kernel))
  have hcurrent := identityOf_replaceableWorld "a.A"
  have hcurrent' := identityOf_replaceableWorld "a.B"
  refine ⟨hwhole, fun hdigest => hne (hlists hdigest), _, _, hcurrent, hcurrent', ?_, rfl, ?_⟩
  · rw [hsize]
  · exact hidentities ScriptedWorld.environment { identityPolicy := .contentDigest } (.directory "d")
      (replaceableWorld "a.A") (replaceableWorld "a.B") ⟨[.entry ⟨"a.class", plainClass "a.A"⟩], none⟩
      ⟨[.entry ⟨"a.class", plainClass "a.B"⟩], none⟩ _ _ rfl rfl rfl ⟨rfl, rfl⟩ ⟨rfl, rfl⟩ rfl rfl
      hcurrent hcurrent' hne

/-- Bytes that look like the name of an entry are hashed alike behind a class file and in front of one.
Here are three class files, the last of them once behind the second and once on its own. -/
theorem digest_of_moved_boundary :
    ¬ ∀ xs ys : List ClassEntry, xs.Pairwise (·.name < ·.name) → ys.Pairwise (·.name < ·.name) →
      (∀ e ∈ xs ++ ys, '\x00' ∉ e.name.toList ∧ isClass e.name = true) →
      (Sha256.hexHash (xs.flatMap digestBytes) = Sha256.hexHash (ys.flatMap digestBytes) →
        xs.flatMap digestBytes = ys.flatMap digestBytes) →
      digest xs = digest ys → xs = ys := by
  intro hseparates
  let xs : List ClassEntry :=
    [⟨"a.class", plainClass "a.A" ++ digestBytes ⟨"b.class", plainClass "b.B"⟩⟩,
      ⟨"c.class", plainClass "c.C"⟩]
  let ys : List ClassEntry :=
    [⟨"a.class", plainClass "a.A"⟩,
      ⟨"b.class", plainClass "b.B" ++ digestBytes ⟨"c.class", plainClass "c.C"⟩⟩]
  have hstream : xs.flatMap digestBytes = ys.flatMap digestBytes := by
    simp [xs, ys, digestBytes]
  have heq : xs = ys := by
    refine hseparates xs ys (by decide) (by decide) ?_ (fun _ => hstream) (congrArg Sha256.hexHash hstream)
    intro e he
    simp only [xs, ys, List.cons_append, List.nil_append, List.mem_cons, List.not_mem_nil, or_false] at he
    rcases he with rfl | rfl | rfl | rfl
    all_goals exact ⟨by decide, by decide⟩
  exact absurd (congrArg (List.map (·.name)) heq) (by decide)

end ClassEntry

end ClassCatalog
