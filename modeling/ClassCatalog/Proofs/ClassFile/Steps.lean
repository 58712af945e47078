import ClassCatalog.Proofs.ClassFile.Reads

/-!
# Steps of a cursor

`Step`: a read of the lowest level, with lengths of 64 bits, and what it gives of the bytes it takes.
Where there are bytes enough a step takes its width (`Step.runAt_enough`). Where there are too few it
moves nothing and blames the place where it is, but for the number of eight bytes: that one is taken in
two halves, and if only the second is missing it stops between them (`Step.runAt_short`). After any steps
a cursor stands at a place of its byte string (`Cursor.In.after`).
-/

namespace ClassCatalog.ClassFile

/-- What a step gives. -/
inductive Given where
  | nothing
  | number (n : Nat)
  | bytes (taken : Bytes)
  deriving DecidableEq, Repr

/-- A read of the lowest level. -/
inductive Step where
  | magic
  | u1
  | u2
  | u4
  | u8
  | slice (n : UInt64)
  | skip (n : UInt64)
  deriving DecidableEq, Repr

namespace Step

/-- How many bytes a step takes. -/
def width : Step → UInt64
  | magic => 4
  | u1 => 1
  | u2 => 2
  | u4 => 4
  | u8 => 8
  | slice n => n
  | skip n => n

def read : Step → Read Given
  | magic => do
    Read.magic
    return .nothing
  | u1 => do
    let n ← Read.u1
    return .number n.toNat
  | u2 => do
    let n ← Read.u2
    return .number n.toNat
  | u4 => do
    let n ← Read.u4
    return .number n.toNat
  | u8 => do
    let n ← Read.u8
    return .number n.toNat
  | slice n => do
    let taken ← Read.slice n.toNat
    return .bytes taken
  | skip n => do
    Read.skip n.toNat
    return .nothing

/-- What a step gives of the bytes it takes, or the fault that it finds in them. -/
def given : Step → Bytes → Except ParseError Given
  | magic, taken =>
    if Bytes.ofBigEndian taken = 0xCAFEBABE then .ok .nothing
    else .error (.invalidMagic (UInt32.ofNat (Bytes.ofBigEndian taken)))
  | slice _, taken => .ok (.bytes taken)
  | skip _, _ => .ok .nothing
  | _, taken => .ok (.number (Bytes.ofBigEndian taken))

end Step

/-- The cursor stands at a place of a byte string. -/
structure Cursor.In (bytes : Bytes) (c : Cursor) : Prop where
  le : c.offset ≤ bytes.length
  rest : c.rest = bytes.drop c.offset

/-- Where steps one after the other leave a cursor, whatever they give. -/
def Cursor.after (c : Cursor) (steps : List Step) : Cursor :=
  steps.foldl (fun c s => (s.read.runAt c).2) c

/-- The cursor behind the next `n` bytes. -/
def Cursor.behind (c : Cursor) (n : Nat) : Cursor := ⟨c.offset + n, c.rest.drop n⟩

namespace Step

open Read

variable {α : Type} {c : Cursor} {s : Step} {bytes : Bytes}

theorem given_ne_unexpectedEof (s : Step) (taken : Bytes) (offset : Nat) :
    s.given taken ≠ .error (.unexpectedEof offset) := by
  cases s with
  | magic =>
    rw [given]
    split <;> simp
  | _ => simp [given]

/-! ### Bytes enough -/

theorem runAt_of_reads {p : Read α} {a : α} {n : Nat} (hn : n ≤ c.rest.length)
    (h : Reads p (c.rest.take n) a) : p.runAt c = (.ok a, c.behind n) := by
  have hrun := h c.offset (c.rest.drop n)
  rwa [List.take_append_drop, List.length_take, Nat.min_eq_left hn] at hrun

/-- A number is read from the bytes that it is written in. -/
theorem reads_number {p : Read α} {ofNat : Nat → α} {toNat : α → Nat} {width : Nat} {taken : Bytes}
    (hlength : taken.length = width)
    (h : ∀ n < 256 ^ width, Reads p (Bytes.bigEndian width n) (ofNat n) ∧ toNat (ofNat n) = n) :
    Reads (p >>= fun a => pure (Given.number (toNat a))) taken (.number (Bytes.ofBigEndian taken)) := by
  subst hlength
  obtain ⟨hreads, hexact⟩ := h _ (Bytes.ofBigEndian_lt taken)
  rw [Bytes.bigEndian_ofBigEndian] at hreads
  exact hreads.bind_pure (by rw [hexact])

/-- Any four bytes are those of a number. -/
theorem reads_u4_of_length {taken : Bytes} (hlength : taken.length = 4) :
    Reads Read.u4 taken (UInt32.ofNat (Bytes.ofBigEndian taken)) := by
  have h := reads_u4 (Bytes.ofBigEndian taken)
  rwa [← hlength, Bytes.bigEndian_ofBigEndian] at h

theorem reads_u8_exact {n : Nat} (h : n < 256 ^ 8) :
    Reads Read.u8 (Bytes.bigEndian 8 n) (UInt64.ofNat n) ∧ (UInt64.ofNat n).toNat = n := by
  have hexact : (UInt64.ofNat n).toNat = n := UInt64.toNat_ofNat_of_lt' h
  have hreads := reads_u8 (UInt64.ofNat n)
  rw [hexact] at hreads
  exact ⟨hreads, hexact⟩

theorem runAt_magic (h : 4 ≤ c.rest.length) :
    magic.read.runAt c = (magic.given (c.rest.take 4), c.behind 4) := by
  have hlength : (c.rest.take 4).length = 4 := by rw [List.length_take, Nat.min_eq_left h]
  have hlt := Bytes.ofBigEndian_lt (c.rest.take 4)
  rw [hlength] at hlt
  have hmagic : UInt32.ofNat (Bytes.ofBigEndian (c.rest.take 4)) = magicNumber ↔
      Bytes.ofBigEndian (c.rest.take 4) = 0xCAFEBABE := by
    rw [← UInt32.toNat_inj, UInt32.toNat_ofNat_of_lt' hlt]
    rfl
  rw [read, Read.magic, runAt_bind, runAt_bind, runAt_of_reads h (reads_u4_of_length hlength), given]
  by_cases heq : Bytes.ofBigEndian (c.rest.take 4) = 0xCAFEBABE
  · rw [if_pos heq]
    simp only [hmagic.2 heq]
    rfl
  · rw [if_neg heq]
    simp only [ne_eq, hmagic, heq]
    rfl

/-- Where there are bytes enough, a step takes as many as it is wide. -/
theorem runAt_enough (h : s.width.toNat ≤ c.rest.length) :
    s.read.runAt c = (s.given (c.rest.take s.width.toNat), c.behind s.width.toNat) := by
  have hlength : (c.rest.take s.width.toNat).length = s.width.toNat := by
    rw [List.length_take, Nat.min_eq_left h]
  have hslice := reads_slice (c.rest.take s.width.toNat)
  rw [hlength] at hslice
  cases s with
  | magic => exact runAt_magic h
  | u1 =>
    exact runAt_of_reads h (reads_number hlength fun n hn =>
      ⟨reads_u1 (UInt8.ofNat n), UInt8.toNat_ofNat_of_lt' hn⟩)
  | u2 =>
    exact runAt_of_reads h (reads_number hlength fun n hn =>
      ⟨reads_u2 n, UInt16.toNat_ofNat_of_lt' hn⟩)
  | u4 => exact runAt_of_reads h (reads_number hlength fun n hn =>
      ⟨reads_u4 n, UInt32.toNat_ofNat_of_lt' hn⟩)
  | u8 => exact runAt_of_reads h (reads_number hlength fun n hn => reads_u8_exact hn)
  | slice n => exact runAt_of_reads h (hslice.bind_pure rfl)
  | skip n => exact runAt_of_reads h ((hslice.bind_pure rfl).bind_pure rfl)

/-! ### Too few bytes -/

theorem runAt_slice_short {n : Nat} (h : c.rest.length < n) :
    (Read.slice n).runAt c = (.error (.unexpectedEof c.offset), c) := by
  rw [runAt_slice, Bytes.splitAt?_eq_none_iff.2 h]

/-- What begins with a read that fails fails so. -/
theorem runAt_bind_error {β : Type} {p : Read α} {f : α → Read β} {c' : Cursor} {e : ParseError}
    (h : p.runAt c = (.error e, c')) : (p >>= f).runAt c = (.error e, c') := by
  rw [runAt_bind, h]

theorem runAt_u4_short (h : c.rest.length < 4) :
    Read.u4.runAt c = (.error (.unexpectedEof c.offset), c) :=
  runAt_bind_error (runAt_slice_short h)

/-- Where the bytes end under a step: between its halves, if it has halves and there is one. -/
def stop (s : Step) (c : Cursor) : Cursor :=
  if s = u8 ∧ 4 ≤ c.rest.length then c.behind 4 else c

theorem runAt_u8_short (h : c.rest.length < 8) :
    Read.u8.runAt c = (.error (.unexpectedEof (stop u8 c).offset), stop u8 c) := by
  unfold stop
  by_cases hhalf : 4 ≤ c.rest.length
  · have hfour := runAt_of_reads hhalf (reads_u4_of_length (by rw [List.length_take, Nat.min_eq_left hhalf]))
    have hrest : (c.behind 4).rest.length < 4 := by
      show (c.rest.drop 4).length < 4
      rw [List.length_drop]
      omega
    rw [if_pos ⟨rfl, hhalf⟩, Read.u8, runAt_bind, hfour]
    exact runAt_bind_error (runAt_u4_short hrest)
  · rw [if_neg (by simp [hhalf])]
    exact runAt_bind_error (runAt_u4_short (by omega))

/-- Where there are too few bytes, a step stops with a fault at the place where it stops. -/
theorem runAt_short (h : c.rest.length < s.width.toNat) :
    s.read.runAt c = (.error (.unexpectedEof (s.stop c).offset), s.stop c) := by
  cases s with
  | magic => exact runAt_bind_error (runAt_bind_error (runAt_u4_short h))
  | u1 => exact runAt_bind_error (runAt_bind_error (runAt_slice_short h))
  | u2 => exact runAt_bind_error (runAt_bind_error (runAt_slice_short h))
  | u4 => exact runAt_bind_error (runAt_u4_short h)
  | u8 => exact runAt_bind_error (runAt_u8_short h)
  | slice n => exact runAt_bind_error (runAt_slice_short h)
  | skip n => exact runAt_bind_error (runAt_bind_error (runAt_slice_short h))

end Step

/-! ### Runs -/

namespace Cursor

variable {bytes : Bytes} {c : Cursor}

theorem In.start (bytes : Bytes) : (Cursor.start bytes).In bytes := ⟨Nat.zero_le _, rfl⟩

theorem In.length_rest (h : c.In bytes) : c.rest.length = bytes.length - c.offset := by
  rw [h.rest, List.length_drop]

theorem In.behind (h : c.In bytes) {n : Nat} (hn : n ≤ c.rest.length) : (c.behind n).In bytes := by
  have hlength := h.length_rest
  have hle := h.le
  refine ⟨?_, ?_⟩
  · show c.offset + n ≤ bytes.length
    omega
  · show c.rest.drop n = bytes.drop (c.offset + n)
    rw [h.rest, List.drop_drop]

/-- One step leads from place to place. -/
theorem In.step (h : c.In bytes) (s : Step) : (s.read.runAt c).2.In bytes := by
  by_cases henough : s.width.toNat ≤ c.rest.length
  · rw [Step.runAt_enough henough]
    exact h.behind henough
  · rw [Step.runAt_short (Nat.lt_of_not_le henough), Step.stop]
    split
    next hhalf => exact h.behind hhalf.2
    next => exact h

theorem In.after (h : c.In bytes) (steps : List Step) : (c.after steps).In bytes := by
  unfold Cursor.after
  induction steps generalizing c with
  | nil => exact h
  | cons s steps ih => exact ih (h.step s)

/-- A step that succeeds has bytes enough. -/
theorem In.of_ok {s : Step} {g : Given} {c' : Cursor} (h : c.In bytes) (hrun : s.read.runAt c = (.ok g, c')) :
    c.offset + s.width.toNat ≤ bytes.length ∧ c' = c.behind s.width.toNat ∧
      s.given ((bytes.drop c.offset).take s.width.toNat) = .ok g := by
  have hlength := h.length_rest
  have hle := h.le
  by_cases henough : s.width.toNat ≤ c.rest.length
  · rw [Step.runAt_enough henough, h.rest] at hrun
    obtain ⟨hgiven, rfl⟩ := Prod.mk.inj hrun
    exact ⟨by omega, rfl, hgiven⟩
  · rw [Step.runAt_short (Nat.lt_of_not_le henough)] at hrun
    cases hrun

/-- A step that meets the end has too few bytes. -/
theorem In.of_unexpectedEof {s : Step} {offset : Nat} {c' : Cursor} (h : c.In bytes)
    (hrun : s.read.runAt c = (.error (.unexpectedEof offset), c')) :
    bytes.length < c.offset + s.width.toNat ∧ c' = s.stop c ∧ offset = c'.offset := by
  have hlength := h.length_rest
  by_cases henough : s.width.toNat ≤ c.rest.length
  · rw [Step.runAt_enough henough] at hrun
    exact absurd (Prod.mk.inj hrun).1 (Step.given_ne_unexpectedEof _ _ _)
  · rw [Step.runAt_short (Nat.lt_of_not_le henough)] at hrun
    cases hrun
    exact ⟨by omega, rfl, rfl⟩

/-- A step stops where it began, or between the halves of eight bytes. -/
theorem In.stop (h : c.In bytes) (s : Step) :
    s.stop c = c ∨ s = .u8 ∧ c.offset + 4 ≤ bytes.length ∧ (s.stop c).offset = c.offset + 4 := by
  have hlength := h.length_rest
  have hle := h.le
  unfold Step.stop
  split
  next hhalf => exact .inr ⟨hhalf.1, by omega, rfl⟩
  next => exact .inl rfl

end Cursor

/-- After any steps the cursor is within its bytes. Where there are bytes enough a step gives what they say,
and one that succeeds moves the cursor by the width, which does not leave the bytes nor wrap around. A step
meets the end exactly if its width goes beyond it; it then blames the place where the cursor is, which is
where it was, but for the number of eight bytes of which only the second half is missing. -/
theorem reads_at_the_end (bytes : Bytes) (before : List Step) (s : Step) :
    let c := (Cursor.start bytes).after before
    let width := s.width.toNat
    c.offset ≤ bytes.length ∧ c.rest = bytes.drop c.offset ∧
    (c.offset + width ≤ bytes.length →
      (s.read.runAt c).1 = s.given ((bytes.drop c.offset).take width)) ∧
    (∀ g c', s.read.runAt c = (.ok g, c') →
      c'.offset = c.offset + width ∧ c'.offset ≤ bytes.length ∧
      (bytes.length < 2 ^ 64 → (UInt64.ofNat c.offset + s.width).toNat = c'.offset) ∧
      s.given ((bytes.drop c.offset).take width) = .ok g) ∧
    (∀ offset c', s.read.runAt c = (.error (.unexpectedEof offset), c') →
      offset = c'.offset ∧
      (c' = c ∨ s = .u8 ∧ c.offset + 4 ≤ bytes.length ∧ c'.offset = c.offset + 4)) ∧
    ((∃ offset, (s.read.runAt c).1 = .error (.unexpectedEof offset)) ↔ bytes.length < c.offset + width) := by
  intro c width
  have hin : c.In bytes := (Cursor.In.start bytes).after before
  have hlength := hin.length_rest
  have hle := hin.le
  refine ⟨hle, hin.rest, fun henough => ?_, fun g c' hrun => ?_, fun offset c' hrun => ?_,
    ⟨?_, fun hshort => ?_⟩⟩
  · rw [Step.runAt_enough (by omega), hin.rest]
  · obtain ⟨hwithin, rfl, hgiven⟩ := hin.of_ok hrun
    refine ⟨rfl, hwithin, fun haddressable => ?_, hgiven⟩
    have hoffset : (UInt64.ofNat c.offset).toNat = c.offset :=
      UInt64.toNat_ofNat_of_lt' (show c.offset < 2 ^ 64 by omega)
    rw [UInt64.toNat_add, hoffset]
    exact Nat.mod_eq_of_lt (by omega)
  · obtain ⟨-, rfl, hoffset⟩ := hin.of_unexpectedEof hrun
    exact ⟨hoffset, hin.stop s⟩
  · rintro ⟨offset, hfault⟩
    exact (hin.of_unexpectedEof (Prod.ext hfault rfl)).1
  · rw [Step.runAt_short (by omega)]
    exact ⟨_, rfl⟩

/-- Of eight bytes four are there: they are taken all the same, and the fault blames the place behind
them. -/
theorem half_of_eight_is_taken :
    let c := Cursor.start [0, 0, 0, 0]
    Step.u8.read.runAt c = (.error (.unexpectedEof 4), ⟨4, []⟩) ∧ c.offset = 0 ∧ c.rest.length = 4 := by
  decide

end ClassCatalog.ClassFile
