import ClassCatalog.Bytes.Numbers
import ClassCatalog.ClassFile.Cursor

/-!
# Readers and the bytes they take

`Reads p bytes a`: wherever `bytes` stand and whatever follows them, `p` reads them as `a` and stops
behind them. Readers that follow one another read what stands side by side, so what a writer puts
together piece by piece is read piece by piece.
-/

namespace ClassCatalog.ClassFile.Read

variable {α β : Type}

/-- `p` reads `bytes` as `a`, whatever follows them. -/
def Reads (p : Read α) (bytes : Bytes) (a : α) : Prop :=
  ∀ offset rest, p.runAt ⟨offset, bytes ++ rest⟩ = (.ok a, ⟨offset + bytes.length, rest⟩)

theorem runAt_bind (p : Read α) (f : α → Read β) (c : Cursor) :
    (p >>= f).runAt c =
      match p.runAt c with
      | (.ok a, c) => (f a).runAt c
      | (.error e, c) => (.error e, c) := by
  unfold runAt
  rw [ExceptT.run_bind, StateT.run_bind]
  cases p.run.run c with
  | mk r c => cases r <;> rfl

namespace Reads

variable {p : Read α} {f : α → Read β} {bytes bytes' : Bytes} {a : α} {b : β}

theorem pure (a : α) : Reads (pure a) [] a := fun _ _ => rfl

theorem bind (hp : Reads p bytes a) (hf : Reads (f a) bytes' b) :
    Reads (p >>= f) (bytes ++ bytes') b := by
  intro offset rest
  rw [runAt_bind, List.append_assoc, hp]
  show (f a).runAt _ = _
  rw [hf, List.length_append, Nat.add_assoc]

/-- The last steps of a reader read nothing more. -/
theorem bind_nil (hp : Reads p bytes a) (hf : Reads (f a) [] b) : Reads (p >>= f) bytes b := by
  have h := hp.bind hf
  rwa [List.append_nil] at h

/-- The last step of a reader: it gives what was read in another form. -/
theorem bind_pure {g : α → β} (hp : Reads p bytes a) (hg : g a = b) :
    Reads (p >>= fun x => Pure.pure (g x)) bytes b := hp.bind_nil (hg ▸ pure (g a))

theorem lift {x : Except ParseError α} (h : x = .ok a) : Reads (liftM x) [] a := by
  subst h
  exact fun _ _ => rfl

/-- What is looked up takes no bytes. -/
theorem lift_bind {x : Except ParseError α} (h : x = .ok a) (hf : Reads (f a) bytes b) :
    Reads (liftM x >>= f) bytes b := (lift h).bind hf

/-- The last step of a reader: what was read is looked up. -/
theorem bind_lift {look : α → Except ParseError β} (hp : Reads p bytes a) (h : look a = .ok b) :
    Reads (p >>= fun x => liftM (look x)) bytes b := hp.bind_nil (lift h)

end Reads

theorem runAt_slice (n : Nat) (c : Cursor) :
    (slice n).runAt c =
      match Bytes.splitAt? n c.rest with
      | some (taken, rest) => (.ok taken, ⟨c.offset + n, rest⟩)
      | none => (.error (.unexpectedEof c.offset), c) := rfl

theorem reads_slice (bytes : Bytes) : Reads (slice bytes.length) bytes bytes := by
  intro offset rest
  rw [runAt_slice, Bytes.splitAt?_append]

theorem reads_skip (bytes : Bytes) : Reads (skip bytes.length) bytes () :=
  (reads_slice bytes).bind_pure rfl

/-! ### Numbers -/

theorem reads_u1 (b : UInt8) : Reads u1 [b] b :=
  (reads_slice [b]).bind_pure (by simp [Bytes.ofBigEndian, Bytes.ofLittleEndian])

theorem reads_u2 (n : Nat) : Reads u2 (Bytes.bigEndian 2 n) (UInt16.ofNat n) := by
  have hslice := reads_slice (Bytes.bigEndian 2 n)
  rw [Bytes.length_bigEndian] at hslice
  refine hslice.bind_pure ?_
  rw [Bytes.ofBigEndian_bigEndian, ← UInt16.toNat_inj]
  simp

theorem reads_u4 (n : Nat) : Reads u4 (Bytes.bigEndian 4 n) (UInt32.ofNat n) := by
  have hslice := reads_slice (Bytes.bigEndian 4 n)
  rw [Bytes.length_bigEndian] at hslice
  refine hslice.bind_pure ?_
  rw [Bytes.ofBigEndian_bigEndian, ← UInt32.toNat_inj]
  simp

/-- Two halves make the number. -/
theorem ofHalves (n : UInt64) :
    (UInt32.ofNat (n.toNat / 2 ^ 32)).toUInt64 <<< 32 ||| (UInt32.ofNat n.toNat).toUInt64 = n := by
  have hn := n.toNat_lt
  have hlow : (UInt32.ofNat n.toNat).toUInt64.toNat = n.toNat % 2 ^ 32 := by simp
  have hhigh : ((UInt32.ofNat (n.toNat / 2 ^ 32)).toUInt64 <<< 32).toNat = (n.toNat / 2 ^ 32) <<< 32 := by
    simp [UInt64.toNat_shiftLeft, Nat.shiftLeft_eq]
    omega
  rw [← UInt64.toNat_inj, UInt64.toNat_or, hhigh, hlow,
    ← Nat.shiftLeft_add_eq_or_of_lt (Nat.mod_lt _ (by decide)), Nat.shiftLeft_eq]
  omega

theorem reads_u8 (n : UInt64) : Reads u8 (Bytes.bigEndian 8 n.toNat) n := by
  rw [show (8 : Nat) = 4 + 4 from rfl, Bytes.bigEndian_add]
  refine (reads_u4 _).bind ((reads_u4 _).bind_pure ?_)
  exact ofHalves n

/-! ### Repetition -/

theorem reads_repeated_cons {item : Read α} {bytes bytes' : Bytes} {a : α} {as : List α} {n : Nat}
    (h : Reads item bytes a) (hs : Reads (repeated item n) bytes' as) :
    Reads (repeated item (n + 1)) (bytes ++ bytes') (a :: as) :=
  h.bind (hs.bind_pure rfl)

end ClassCatalog.ClassFile.Read
