import ClassCatalog.ClassFile.Record
import ClassCatalog.Proofs.ClassFile.Reads

/-!
# Reads that are cut short

`Read.Takes p bytes a`: the bytes are read as `a` whatever follows them, and with the last of them
missing the read fails. A read is `Exact` if all that it ever reads is taken so: how much it takes is
settled by the bytes it takes, and it does not succeed with less. Readers put together of exact ones are
exact. The body of an attribute is cut out before it is read, so it does not matter here what is in it.
-/

namespace ClassCatalog.ClassFile

namespace Read

variable {α β : Type}

/-- Two reads in a row that succeed: how far the first one got. -/
theorem eq_ok_of_runAt_bind {p : Read α} {f : α → Read β} {c c' : Cursor} {b : β}
    (h : (p >>= f).runAt c = (.ok b, c')) :
    ∃ a d, p.runAt c = (.ok a, d) ∧ (f a).runAt d = (.ok b, c') := by
  rw [runAt_bind] at h
  cases hrun : p.runAt c with
  | mk r d =>
    rw [hrun] at h
    cases r with
    | error e => cases h
    | ok a => exact ⟨a, d, rfl, h⟩

structure Takes (p : Read α) (bytes : Bytes) (a : α) : Prop where
  reads : Reads p bytes a
  fails (offset n : Nat) (hn : n < bytes.length) :
    ∃ e, (p.runAt ⟨offset, bytes.take n⟩).1 = .error e

structure Exact (p : Read α) : Prop where
  takes (c c' : Cursor) (a : α) (h : p.runAt c = (.ok a, c')) :
    ∃ bytes, c.rest = bytes ++ c'.rest ∧ Takes p bytes a

theorem Takes.bind {p : Read α} {f : α → Read β} {bytes bytes' : Bytes} {a : α} {b : β}
    (hp : Takes p bytes a) (hf : Takes (f a) bytes' b) : Takes (p >>= f) (bytes ++ bytes') b := by
  refine ⟨hp.reads.bind hf.reads, fun offset n hn => ?_⟩
  rw [runAt_bind]
  by_cases hlt : n < bytes.length
  · -- The first read is cut short.
    obtain ⟨e, he⟩ := hp.fails offset n hlt
    rw [List.take_append_of_le_length (by omega)]
    refine ⟨e, ?_⟩
    revert he
    cases p.runAt ⟨offset, bytes.take n⟩ with
    | mk r c =>
      rintro rfl
      rfl
  · have htake : (bytes ++ bytes').take n = bytes ++ bytes'.take (n - bytes.length) := by
      rw [List.take_append, List.take_of_length_le (by omega)]
    rw [htake, hp.reads]
    refine hf.fails _ _ ?_
    rw [List.length_append] at hn
    omega

namespace Exact

theorem pure (a : α) : Exact (pure a) := by
  refine ⟨fun c c' b h => ?_⟩
  cases h
  exact ⟨[], rfl, .pure a, fun _ n hn => absurd hn (Nat.not_lt_zero n)⟩

theorem throw (e : ParseError) : Exact (throw e : Read α) := ⟨nofun⟩

theorem lift (x : Except ParseError α) : Exact (liftM x) := by
  cases x with
  | ok a => exact pure a
  | error e => exact throw e

theorem bind {p : Read α} {f : α → Read β} (hp : Exact p) (hf : ∀ a, Exact (f a)) :
    Exact (p >>= f) := by
  refine ⟨fun c c' b h => ?_⟩
  obtain ⟨a, d, hrun, h⟩ := eq_ok_of_runAt_bind h
  obtain ⟨bytes, hbytes, htakes⟩ := hp.takes _ _ _ hrun
  obtain ⟨bytes', hbytes', htakes'⟩ := (hf a).takes _ _ _ h
  refine ⟨bytes ++ bytes', ?_, htakes.bind htakes'⟩
  rw [hbytes, hbytes', List.append_assoc]

end Exact

theorem exact_slice (n : Nat) : Exact (slice n) := by
  refine ⟨fun c c' a h => ?_⟩
  rw [runAt_slice] at h
  cases hsplit : Bytes.splitAt? n c.rest with
  | none =>
    rw [hsplit] at h
    cases h
  | some split =>
    rw [hsplit] at h
    cases h
    obtain ⟨hrest, rfl⟩ := Bytes.splitAt?_eq_some_iff.1 hsplit
    refine ⟨split.1, hrest, reads_slice _, fun offset m hm => ?_⟩
    have hshort : Bytes.splitAt? split.1.length (split.1.take m) = none :=
      Bytes.splitAt?_eq_none_iff.2 (by rw [List.length_take]; omega)
    rw [runAt_slice, hshort]
    exact ⟨_, rfl⟩

theorem exact_skip (n : Nat) : Exact (skip n) := (exact_slice n).bind fun _ => .pure _

theorem exact_u1 : Exact u1 := (exact_slice 1).bind fun _ => .pure _

theorem exact_u2 : Exact u2 := (exact_slice 2).bind fun _ => .pure _

theorem exact_u4 : Exact u4 := (exact_slice 4).bind fun _ => .pure _

theorem exact_u8 : Exact u8 := exact_u4.bind fun _ => exact_u4.bind fun _ => .pure _

theorem exact_magic : Exact magic := by
  refine exact_u4.bind fun found => ?_
  split
  · exact .throw _
  · exact .pure _

theorem exact_repeated {item : Read α} (h : Exact item) (n : Nat) : Exact (repeated item n) := by
  induction n with
  | zero => exact .pure []
  | succ n ih => exact h.bind fun first => ih.bind fun others => .pure (first :: others)

end Read

open Read

/-! ### The header -/

theorem ConstantPool.exact_readConstant (index : Nat) : Exact (readConstant index) := by
  refine exact_u1.bind fun tag => ?_
  split
  case h_1 => exact exact_u2.bind fun _ => (exact_slice _).bind fun _ => .pure _
  case h_2 => exact exact_u4.bind fun _ => .pure _
  case h_3 => exact exact_u4.bind fun _ => .pure _
  case h_4 => exact exact_u8.bind fun _ => .pure _
  case h_5 => exact exact_u8.bind fun _ => .pure _
  case h_6 => exact exact_u2.bind fun _ => .pure _
  case h_18 => exact .throw _
  all_goals exact (exact_skip _).bind fun _ => .pure _

theorem ConstantPool.exact_readSlots (count index : Nat) : Exact (readSlots count index) := by
  fun_induction readSlots count index with
  | case1 index => exact .pure []
  | case2 count index ih ih' =>
    refine (exact_readConstant index).bind fun constant => ?_
    split
    · cases count with
      | zero => exact .pure _
      | succ count =>
        have hothers : (readSlots count (index + 2)).Exact := ih
        exact hothers.bind fun _ => .pure _
    · exact ih'.bind fun _ => .pure _

theorem ConstantPool.exact_read : Exact ConstantPool.read :=
  exact_u2.bind fun _ => (exact_readSlots _ 1).bind fun _ => .pure _

variable {pool : ConstantPool}

theorem exact_readInterface : Exact (readInterface pool) :=
  exact_u2.bind fun _ => .bind (.lift _) fun _ => .pure _

theorem exact_readDeclaration : Exact (readDeclaration pool) :=
  exact_u2.bind fun _ => exact_u2.bind fun _ => exact_u2.bind fun _ => .bind (.lift _) fun _ =>
    .bind (.lift _) fun _ => exact_u2.bind fun count =>
      (exact_repeated exact_readInterface count.toNat).bind fun _ => .pure _

theorem exact_readHeader : Exact readHeader := by
  refine exact_magic.bind fun _ => exact_u2.bind fun minor => exact_u2.bind fun major => ?_
  split
  · exact (Exact.throw _).bind fun _ =>
      ConstantPool.exact_read.bind fun _ => exact_readDeclaration.bind fun _ => .pure _
  · exact ConstantPool.exact_read.bind fun _ => exact_readDeclaration.bind fun _ => .pure _

/-! ### The parts of the body -/

theorem Attribute.exact_read (owner : Attribute.Owner) : Exact (Attribute.read pool owner) :=
  exact_u2.bind fun _ => .bind (.lift _) fun _ => exact_u4.bind fun length =>
    (exact_slice length.toNat).bind fun _ => .lift _

namespace Part

theorem exact_readMember (owner : Attribute.Owner) : Exact (readMember pool owner) :=
  (exact_skip 2).bind fun _ => exact_u2.bind fun _ => .bind (.lift _) fun _ => exact_u2.bind fun _ =>
    .bind (.lift _) fun _ => exact_u2.bind fun count =>
      (exact_repeated (Attribute.exact_read owner) count.toNat).bind fun _ => .pure _

theorem exact_readField : Exact (readField pool) := (exact_readMember .field).bind fun _ => .pure _

theorem exact_readMethod : Exact (readMethod pool) := (exact_readMember .method).bind fun _ => .pure _

theorem exact_readClassAttribute : Exact (readClassAttribute pool) :=
  (Attribute.exact_read .classItself).bind fun _ => .pure _

end Part

end ClassCatalog.ClassFile
