import ClassCatalog.Proofs.ClassFile.Attribute

/-!
# Declarations and bodies there and back

The declaration of a class is read whole or not at all, like an attribute. The body is read part by
part: `Progress.Passes` says of a run of bytes that they are read as these parts, with no fault among
them.
-/

namespace ClassCatalog.ClassFile

open Read

variable {pool : ConstantPool}

/-! ### Parts in a row -/

namespace Progress

variable {part : Read Part} {f g : Cursor → Progress} {bytes bytes' : Bytes} {parts parts' : List Part}

theorem run_of_repeated {n : Nat} {c c' : Cursor} (h : (Read.repeated part n).runAt c = (.ok parts, c')) :
    run part n c = ⟨parts, .ok c'⟩ := by
  -- A part that is read as one of many is read as the same part alone, so no fault comes up.
  induction n generalizing c parts with
  | zero =>
    cases h
    rfl
  | succ n ih =>
    rw [Read.repeated, runAt_bind] at h
    rw [run]
    cases hfirst : part.runAt c with
    | mk r d =>
      rw [hfirst] at h
      cases r with
      | error e => nomatch h
      | ok p =>
        simp only [runAt_bind] at h
        cases hothers : (Read.repeated part n).runAt d with
        | mk r' d' =>
          rw [hothers] at h
          cases r' with
          | error e => nomatch h
          | ok ps =>
            cases h
            simp only [ih hothers]

/-- The bytes are read as the parts, whatever follows them. -/
def Passes (f : Cursor → Progress) (bytes : Bytes) (parts : List Part) : Prop :=
  ∀ offset rest, f ⟨offset, bytes ++ rest⟩ = ⟨parts, .ok ⟨offset + bytes.length, rest⟩⟩

theorem passes_counted
    (h : Reads (do let count ← Read.u2; Read.repeated part count.toNat) bytes parts) :
    Passes (counted part) bytes parts := by
  intro offset rest
  have hrun := h offset rest
  rw [runAt_bind] at hrun
  unfold counted
  cases hcount : Read.u2.runAt ⟨offset, bytes ++ rest⟩ with
  | mk r c =>
    rw [hcount] at hrun
    cases r with
    | error e => nomatch hrun
    | ok n => exact run_of_repeated hrun

theorem Passes.andThen (hf : Passes f bytes parts) (hg : Passes g bytes' parts') :
    Passes (fun c => (f c).andThen g) (bytes ++ bytes') (parts ++ parts') := by
  intro offset rest
  show (f ⟨offset, bytes ++ bytes' ++ rest⟩).andThen g = _
  rw [List.append_assoc, hf]
  show (⟨parts ++ (g _).parts, (g _).next⟩ : Progress) = _
  rw [hg, List.length_append, Nat.add_assoc]

end Progress

namespace Emit

/-! ### What is left in the pool -/

theorem grows_classIndex (dotted : String) : Grows (classIndex dotted) := grows_constant _

theorem grows_superclassIndex : (s : Option String) → Grows (superclassIndex s)
  | some dotted => grows_classIndex dotted
  | none => grows_pure _

theorem grows_member (m : MemberBlueprint) : Grows (member m) :=
  (grows_text _).bind fun _ => (grows_text _).bind fun _ => (grows_memberAttributes m).bind_pure _

theorem grows_members (ms : List MemberBlueprint) : Grows (members ms) := by
  refine (grows_all fun e he => ?_).bind_pure _
  obtain ⟨m, -, rfl⟩ := List.mem_map.1 he
  exact grows_member m

end Emit

namespace Blueprint

open Emit

variable {b : Blueprint}

theorem grows_interfaces (b : Blueprint) : Grows (all (b.interfaces.map classIndex)) := by
  refine grows_all fun e he => ?_
  obtain ⟨s, -, rfl⟩ := List.mem_map.1 he
  exact grows_classIndex s

theorem grows_emitDeclaration (b : Blueprint) : Grows b.emitDeclaration :=
  (grows_classIndex _).bind fun _ => (grows_superclassIndex _).bind fun _ => b.grows_interfaces.bind_pure _

theorem grows_emitBody (b : Blueprint) : Grows b.emitBody :=
  (grows_members _).bind fun _ => (grows_members _).bind fun _ =>
    (grows_attributes (grows_annotationAttributes _)).bind_pure _

theorem grows_emit (b : Blueprint) : Grows b.emit :=
  b.grows_emitDeclaration.bind fun _ => b.grows_emitBody.bind_pure _

/-! ### The declaration -/

/-- What is read of a class before its members. -/
def header (b : Blueprint) : ClassRecord :=
  { name := ClassName.ofInternal b.name, superclass := b.superclass.map ClassName.ofInternal,
    modifiers := ⟨b.access⟩, interfaces := firstOccurrences (b.interfaces.map ClassName.ofInternal) }

/-- The class has a superclass, or is one of those that need none. -/
def HasSuperclass (b : Blueprint) : Prop :=
  b.superclass.isSome = true ∨ ClassName.ofInternal b.name = ClassName.object ∨
    (⟨b.access⟩ : Modifiers).isModule = true

instance (b : Blueprint) : Decidable b.HasSuperclass := inferInstanceAs (Decidable (_ ∨ _ ∨ _))

/-- Nothing is found under index 0. -/
theorem index_ne_zero {internal : String} {i : UInt16} (hzero : pool.slots[0]? = some .unusable)
    (h : pool.className i = .ok internal) : i ≠ 0 := by
  rintro rfl
  obtain ⟨nameIndex, hslot, -⟩ := ConstantPool.className_eq_ok.1 h
  nomatch hzero.symm.trans hslot

theorem reads_superclassIndex (h : b.HasSuperclass) (hzero : pool.slots[0]? = some .unusable)
    {w : PoolWriter} (hall : pool.HasAll ((superclassIndex b.superclass).run w).2) :
    ∃ i, Reads Read.u2 ((superclassIndex b.superclass).run w).1 i ∧
      superclassAt pool b.header.name b.header.modifiers i = .ok b.header.superclass := by
  unfold superclassAt header
  cases hs : b.superclass with
  | some dotted =>
    rw [hs] at hall
    have hname : pool.className _ = .ok (ClassName.toInternal dotted) := has_intern hall
    refine ⟨_, reads_index _ w, ?_⟩
    rw [if_neg (index_ne_zero hzero hname), hname]
    exact congrArg (fun s => Except.ok (some s)) (ClassName.ofInternal_toInternal dotted)
  | none =>
    refine ⟨0, reads_u2 0, ?_⟩
    have hnone : ¬ (ClassName.ofInternal b.name ≠ ClassName.object ∧
        ¬ (⟨b.access⟩ : Modifiers).isModule = true) := by
      rintro ⟨hname, hmodule⟩
      obtain h | h | h := h
      · rw [hs] at h
        nomatch h
      · exact hname h
      · exact hmodule h
    rw [if_pos rfl, if_neg hnone]
    rfl

theorem spells_interface (dotted : String) :
    Spells pool (readInterface pool) (classIndex dotted) (ClassName.ofInternal dotted) := by
  intro w hall
  have hname : pool.className _ = .ok (ClassName.toInternal dotted) := has_intern hall
  rw [← ClassName.ofInternal_toInternal]
  exact (reads_index _ w).bind_nil (.lift_bind hname (.pure _))

theorem spells_declaration (h : b.HasSuperclass) (hlen : b.interfaces.length ≤ 0xFFFF)
    (hzero : pool.slots[0]? = some .unusable) :
    Spells pool (readDeclaration pool) b.emitDeclaration b.header := by
  intro w hall
  let w' := ((classIndex b.name).run w).2
  let w'' := ((superclassIndex b.superclass).run w').2
  have hall'' : pool.HasAll w'' := hall.of_grows (b.grows_interfaces w'')
  have hall' : pool.HasAll w' := hall''.of_grows (grows_superclassIndex b.superclass w')
  have hname : pool.className _ = .ok (ClassName.toInternal b.name) := has_intern hall'
  obtain ⟨i, hsuper, hsuperclass⟩ := reads_superclassIndex h hzero hall''
  have hinterfaces := spells_all (p := readInterface pool) (fun s _ => grows_classIndex s)
    (fun s (_ : s ∈ b.interfaces) => spells_interface s) w'' hall
  show Reads _ (u2 b.access.toNat ++ ((classIndex b.name).run w).1 ++
    ((superclassIndex b.superclass).run w').1 ++ u2 b.interfaces.length ++
    ((all (b.interfaces.map classIndex)).run w'').1) _
  simp only [List.append_assoc]
  refine (reads_u2 _).bind ((reads_index _ w).bind (hsuper.bind (.lift_bind hname ?_)))
  rw [UInt16.ofNat_toNat, ClassName.ofInternal_toInternal]
  refine .lift_bind hsuperclass (reads_count hlen fun count hn => ?_)
  rw [hn]
  exact hinterfaces.bind_pure rfl

end Blueprint

end ClassCatalog.ClassFile
