import Mathlib.Data.List.Induction
import ClassCatalog.Proofs.ClassFile.Pool

/-!
# The numbering of constants

`PoolEntry`: a constant of any kind as it stands in a class file. It starts at the slot behind all that
the constants before it take (`StartsAt`), and the table that is read has its content there and nothing
that can be found anywhere else (`getElem?_of_startsAt`, `startsAt_of_getElem?`). Lookups of a kind find
what they are for where such a constant starts and blame every other index (`Finds`).
-/

namespace ClassCatalog.ClassFile

/-- The kinds of constants that no one looks up. -/
inductive PassedKind where
  | string
  | fieldRef
  | methodRef
  | interfaceMethodRef
  | nameAndType
  | methodHandle
  | methodType
  | dynamic
  | invokeDynamic
  | moduleName
  | packageName
  deriving DecidableEq, Repr

namespace PassedKind

def tag : PassedKind → UInt8
  | string => 8
  | fieldRef => 9
  | methodRef => 10
  | interfaceMethodRef => 11
  | nameAndType => 12
  | methodHandle => 15
  | methodType => 16
  | dynamic => 17
  | invokeDynamic => 18
  | moduleName => 19
  | packageName => 20

/-- How many bytes follow the tag. -/
def size : PassedKind → Nat
  | string | methodType | moduleName | packageName => 2
  | methodHandle => 3
  | fieldRef | methodRef | interfaceMethodRef | nameAndType | dynamic | invokeDynamic => 4

end PassedKind

/-- A constant as it stands in a class file. -/
inductive PoolEntry where
  /-- A text whose length fits into two bytes; the bytes need not be well formed. -/
  | utf8 (bytes : { bytes : Bytes // bytes.length < 0x10000 })
  | integer (value : Int32)
  | float (bits : UInt32)
  | long (value : Int64)
  | double (bits : UInt64)
  | classRef (nameIndex : UInt16)
  | passed (kind : PassedKind) (body : { body : Bytes // body.length = kind.size })

namespace PoolEntry

def encode : PoolEntry → Bytes
  | utf8 bytes => 1 :: Bytes.bigEndian 2 bytes.1.length ++ bytes.1
  | integer value => 3 :: Bytes.bigEndian 4 value.toUInt32.toNat
  | float bits => 4 :: Bytes.bigEndian 4 bits.toNat
  | long value => 5 :: Bytes.bigEndian 8 value.toUInt64.toNat
  | double bits => 6 :: Bytes.bigEndian 8 bits.toNat
  | classRef nameIndex => 7 :: Bytes.bigEndian 2 nameIndex.toNat
  | passed kind body => kind.tag :: body.1

/-- How many slots a constant takes. -/
def slots : PoolEntry → Nat
  | long _ => 2
  | double _ => 2
  | _ => 1

def text? : PoolEntry → Option String
  | utf8 bytes => some (ModifiedUtf8.decode bytes.1)
  | _ => none

def integer? : PoolEntry → Option Int32
  | integer value => some value
  | _ => none

def float? : PoolEntry → Option UInt32
  | float bits => some bits
  | _ => none

def long? : PoolEntry → Option Int64
  | long value => some value
  | _ => none

def double? : PoolEntry → Option UInt64
  | double bits => some bits
  | _ => none

/-- How many slots constants take one after the other. -/
def slotCount (constants : List PoolEntry) : Nat := (constants.map slots).sum

/-- The constant starts at slot `i`, the first slot having number 1. -/
def StartsAt (constants : List PoolEntry) (i : Nat) (e : PoolEntry) : Prop :=
  ∃ before after, constants = before ++ e :: after ∧ i = slotCount before + 1

/-- A lookup finds what the constant that starts at an index has for it, and blames every other
index. -/
structure Finds {α : Type} (constants : List PoolEntry) (look : UInt16 → Except ParseError α)
    (value? : PoolEntry → Option α) : Prop where
  found (i : UInt16) (e : PoolEntry) (a : α) (hstart : StartsAt constants i.toNat e)
    (hvalue : value? e = some a) : look i = .ok a
  missing (i : UInt16) (h : ∀ e, StartsAt constants i.toNat e → value? e = none) :
    look i = .error (.invalidConstantIndex i)

/-- What the first slot of a constant holds. -/
def constant : PoolEntry → Constant
  | utf8 bytes => .utf8 (ModifiedUtf8.decode bytes.1)
  | integer value => .integer value
  | float bits => .float bits
  | long value => .long value
  | double bits => .double bits
  | classRef nameIndex => .classRef nameIndex
  | passed _ _ => .other

open Read ConstantPool

variable {constants rest : List PoolEntry} {e e' : PoolEntry} {i : Nat}

/-! ### Where constants start -/

theorem slots_pos (e : PoolEntry) : 0 < e.slots := by
  unfold slots
  split <;> decide

theorem slotCount_cons (e : PoolEntry) (rest : List PoolEntry) :
    slotCount (e :: rest) = e.slots + slotCount rest := List.sum_cons

theorem slotCount_append (before after : List PoolEntry) :
    slotCount (before ++ after) = slotCount before + slotCount after := by
  simp [slotCount]

/-- The first constant starts at slot 1, and the others as far behind it as it is wide. -/
theorem startsAt_cons : StartsAt (e :: rest) i e' ↔
    (i = 1 ∧ e' = e) ∨ ∃ j, i = e.slots + j ∧ StartsAt rest j e' := by
  constructor
  · rintro ⟨before, after, hsplit, rfl⟩
    cases before with
    | nil =>
      obtain ⟨rfl, rfl⟩ := List.cons.inj hsplit
      exact .inl ⟨rfl, rfl⟩
    | cons first before =>
      obtain ⟨rfl, rfl⟩ := List.cons.inj hsplit
      exact .inr ⟨_, by rw [slotCount_cons, Nat.add_assoc], before, after, rfl, rfl⟩
  · rintro (⟨rfl, rfl⟩ | ⟨j, rfl, before, after, rfl, rfl⟩)
    · exact ⟨[], rest, rfl, rfl⟩
    · exact ⟨e :: before, after, rfl, by rw [slotCount_cons, Nat.add_assoc]⟩

theorem StartsAt.pos (h : StartsAt constants i e) : 0 < i := by
  obtain ⟨before, after, -, rfl⟩ := h
  exact Nat.succ_pos _

/-- A constant ends within the table. -/
theorem StartsAt.end_le (h : StartsAt constants i e) : i + e.slots ≤ slotCount constants + 1 := by
  obtain ⟨before, after, rfl, rfl⟩ := h
  rw [slotCount_append, slotCount_cons]
  omega

/-- No constant starts within another one. -/
theorem StartsAt.apart {i' : Nat} (h : StartsAt constants i e) (h' : StartsAt constants i' e')
    (hle : i ≤ i') (hlt : i' < i + e.slots) : i' = i ∧ e' = e := by
  induction constants generalizing i i' with
  | nil =>
    obtain ⟨before, after, hsplit, -⟩ := h
    simp at hsplit
  | cons first rest ih =>
    rcases startsAt_cons.1 h with ⟨rfl, rfl⟩ | ⟨j, rfl, hj⟩
    · rcases startsAt_cons.1 h' with ⟨rfl, rfl⟩ | ⟨j', rfl, hj'⟩
      · exact ⟨rfl, rfl⟩
      · have hpos := hj'.pos
        omega
    · have hpos := hj.pos
      rcases startsAt_cons.1 h' with ⟨rfl, rfl⟩ | ⟨j', rfl, hj'⟩
      · have hslots := slots_pos e'
        omega
      · obtain ⟨rfl, rfl⟩ := ih hj hj' (by omega) (by omega)
        exact ⟨rfl, rfl⟩

/-! ### What the slots hold -/

/-- The slots of a pool of these constants. -/
def filled (constants : List PoolEntry) : List Constant :=
  .unusable :: constants.flatMap fun e => slotsOf e.constant

theorem length_slotsOf (e : PoolEntry) : (slotsOf e.constant).length = e.slots := by cases e <;> rfl

theorem length_filled (constants : List PoolEntry) : (filled constants).length = slotCount constants + 1 := by
  rw [filled, List.length_cons, List.length_flatMap, slotCount]
  simp only [length_slotsOf]

theorem getElem?_of_startsAt (h : StartsAt constants i e) : (filled constants)[i]? = some e.constant := by
  obtain ⟨before, after, rfl, rfl⟩ := h
  have hbefore := length_filled before
  have hsplit : filled (before ++ e :: after) =
      filled before ++ (slotsOf e.constant ++ after.flatMap fun e => slotsOf e.constant) := by
    simp [filled]
  rw [hsplit, ← hbefore, List.getElem?_append_right (Nat.le_refl _), Nat.sub_self, slotsOf]
  split <;> rfl

/-- Of the slots of a constant only the first holds anything. -/
theorem eq_of_getElem?_slotsOf {c d : Constant} {k : Nat} (h : (slotsOf c)[k]? = some d)
    (hd : d ≠ .unusable) : k = 0 ∧ c = d := by
  unfold slotsOf at h
  match k with
  | 0 => split at h <;> exact ⟨rfl, Option.some.inj h⟩
  | 1 =>
    split at h
    · exact absurd (Option.some.inj h).symm hd
    · cases h
  | k + 2 => split at h <;> cases h

theorem StartsAt.append (h : StartsAt constants i e) (more : List PoolEntry) :
    StartsAt (constants ++ more) i e := by
  obtain ⟨before, after, rfl, rfl⟩ := h
  exact ⟨before, after ++ more, by simp, rfl⟩

/-- What can be found in a slot is the content of the constant that starts there. -/
theorem startsAt_of_getElem? {c : Constant} (h : (filled constants)[i]? = some c) (hc : c ≠ .unusable) :
    ∃ e, StartsAt constants i e ∧ e.constant = c := by
  induction constants using List.reverseRecOn with
  | nil =>
    cases i with
    | zero => exact absurd (Option.some.inj h).symm hc
    | succ i => simp [filled] at h
  | append_singleton before last ih =>
    have hlength := length_filled before
    have hsplit : filled (before ++ [last]) = filled before ++ slotsOf last.constant := by simp [filled]
    rw [hsplit, List.getElem?_append] at h
    split at h
    · obtain ⟨e, hstart, he⟩ := ih h
      exact ⟨e, hstart.append _, he⟩
    · obtain ⟨hfirst, hlast⟩ := eq_of_getElem?_slotsOf h hc
      exact ⟨last, ⟨before, [], rfl, by omega⟩, hlast⟩

/-! ### Reading -/

theorem reads_passed (kind : PassedKind) {body : Bytes} (hbody : body.length = kind.size) (index : Nat) :
    Reads (readConstant index) (kind.tag :: body) .other := by
  have hskip := reads_skip body
  rw [hbody] at hskip
  cases kind <;> exact (reads_u1 _).bind (hskip.bind_pure rfl)

/-- Any constant is read from its encoding. -/
theorem reads_encode (e : PoolEntry) (index : Nat) : Reads (readConstant index) e.encode e.constant := by
  cases e with
  | utf8 bytes => exact reads_text index bytes.2
  | integer value => exact reads_integer index value
  | float bits => exact reads_float index bits
  | long value => exact reads_long index value
  | double bits => exact reads_double index bits
  | classRef nameIndex => exact reads_classRef index nameIndex
  | passed kind body => exact reads_passed kind body.2 index

theorem reads_constants (hslots : slotCount constants < 0xFFFF) :
    Reads ConstantPool.read (Bytes.bigEndian 2 (slotCount constants + 1) ++ constants.flatMap encode)
      ⟨filled constants⟩ := by
  have htable : Readable (constants.map fun e => (e.constant, e.encode)) := by
    intro entry hentry
    obtain ⟨e, -, rfl⟩ := List.mem_map.1 hentry
    exact reads_encode e
  have hlayout : layout (constants.map fun e => (e.constant, e.encode)) =
      constants.flatMap fun e => slotsOf e.constant := by
    rw [layout, List.flatMap_map]
  have hlength : (constants.flatMap fun e => slotsOf e.constant).length = slotCount constants :=
    Nat.succ.inj (length_filled constants)
  have hread := reads_read htable (by rw [hlayout, hlength]; omega)
  rwa [hlayout, hlength, List.flatMap_map] at hread

/-! ### Looking up -/

theorem finds_lookup {α : Type} {select : Constant → Option α} {value? : PoolEntry → Option α}
    (hselect : ∀ e, select e.constant = value? e) (hunusable : select .unusable = none) :
    Finds constants (ConstantPool.lookup ⟨filled constants⟩ select) value? := by
  refine ⟨fun i e a hstart hvalue => ?_, fun i h => ?_⟩
  · exact lookup_eq_ok.2 ⟨_, getElem?_of_startsAt hstart, (hselect e).trans hvalue⟩
  · have hnone : (filled constants)[i.toNat]?.bind select = none := by
      cases hslot : (filled constants)[i.toNat]? with
      | none => rfl
      | some c =>
        by_cases hc : c = .unusable
        · rw [hc]
          exact hunusable
        · obtain ⟨e, hstart, rfl⟩ := startsAt_of_getElem? hslot hc
          exact (hselect e).trans (h e hstart)
    unfold ConstantPool.lookup
    rw [hnone]

theorem className_of_startsAt {i nameIndex : UInt16} (h : StartsAt constants i.toNat (.classRef nameIndex)) :
    ConstantPool.className ⟨filled constants⟩ i = ConstantPool.utf8 ⟨filled constants⟩ nameIndex := by
  unfold ConstantPool.className ConstantPool.lookup
  dsimp only
  rw [getElem?_of_startsAt h]
  rfl

theorem className_eq_error {i : UInt16} (h : ∀ nameIndex, ¬ StartsAt constants i.toNat (.classRef nameIndex)) :
    ConstantPool.className ⟨filled constants⟩ i = .error (.invalidConstantIndex i) := by
  unfold ConstantPool.className ConstantPool.lookup
  dsimp only
  cases hslot : (filled constants)[i.toNat]? with
  | none => rfl
  | some c =>
    cases c with
    | classRef nameIndex =>
      obtain ⟨e, hstart, he⟩ := startsAt_of_getElem? hslot (by simp)
      cases e with
      | classRef nameIndex' => exact absurd hstart (h nameIndex')
      | _ => cases he
    | _ => rfl

/-- Constants that take no more slots than can be counted, written behind the number of the slots, are read
with all that follows them left alone. Each is found under the number of its first slot, by the lookup for
its kind, the name of a class in the text that it refers to and nowhere else; all other lookups blame the
index that leads nowhere. Nothing starts at slot 0, in the second slot of a constant or behind the last. -/
theorem constants_are_numbered (constants : List PoolEntry) (hslots : slotCount constants ≤ 65534) :
    ∃ pool : ConstantPool,
      Reads ConstantPool.read (Bytes.bigEndian 2 (slotCount constants + 1) ++ constants.flatMap encode)
        pool ∧
      pool.size = slotCount constants + 1 ∧
      (Finds constants pool.utf8 text? ∧ Finds constants pool.integer integer? ∧
        Finds constants pool.float float? ∧ Finds constants pool.long long? ∧
        Finds constants pool.double double?) ∧
      (∀ i nameIndex, StartsAt constants i.toNat (.classRef nameIndex) →
        pool.className i = pool.utf8 nameIndex) ∧
      (∀ i, (∀ nameIndex, ¬ StartsAt constants i.toNat (.classRef nameIndex)) →
        pool.className i = .error (.invalidConstantIndex i)) ∧
      ∀ i e, StartsAt constants i e → 0 < i ∧ i + e.slots ≤ pool.size ∧
        ∀ i' e', StartsAt constants i' e' → i ≤ i' → i' < i + e.slots → i' = i ∧ e' = e := by
  refine ⟨⟨filled constants⟩, reads_constants (Nat.lt_succ_of_le hslots), length_filled constants,
    ⟨?_, ?_, ?_, ?_, ?_⟩, fun _ _ => className_of_startsAt, fun _ => className_eq_error,
    fun i e hstart => ?_⟩
  iterate 5 exact finds_lookup (by rintro (_ | _ | _ | _ | _ | _ | _) <;> rfl) rfl
  have hend : i + e.slots ≤ (filled constants).length := by
    rw [length_filled]
    exact hstart.end_le
  exact ⟨hstart.pos, hend, fun i' e' hstart' => hstart.apart hstart'⟩

/-- A text, a number of two slots, a class of that name, a class that is named by the number, and a method
handle. -/
def fiveConstants : List PoolEntry :=
  [.utf8 ⟨[0x61, 0x2F, 0x42], by decide⟩, .long 42, .classRef 1, .classRef 2,
    .passed .methodHandle ⟨[1, 0, 1], rfl⟩]

/-- The second slot of the number counts for all constants behind it. -/
theorem fiveConstants_are_numbered :
    slotCount fiveConstants ≤ 65534 ∧ ∃ pool : ConstantPool,
      Reads ConstantPool.read (Bytes.bigEndian 2 7 ++ fiveConstants.flatMap encode) pool ∧
      pool.size = 7 ∧ pool.long 2 = .ok 42 ∧ pool.long 3 = .error (.invalidConstantIndex 3) ∧
      pool.className 4 = .ok "a/B" ∧ pool.className 5 = .error (.invalidConstantIndex 2) ∧
      pool.className 6 = .error (.invalidConstantIndex 6) := by
  obtain ⟨pool, hreads, hsize, ⟨htexts, -, -, hlongs, -⟩, hclasses, hothers, happart⟩ :=
    constants_are_numbered fiveConstants (by decide)
  have hlong : StartsAt fiveConstants 2 (.long 42) := ⟨[_], _, rfl, rfl⟩
  have hclass : StartsAt fiveConstants 4 (.classRef 1) := ⟨[_, _], _, rfl, rfl⟩
  have hwrong : StartsAt fiveConstants 5 (.classRef 2) := ⟨[_, _, _], _, rfl, rfl⟩
  have hhandle : StartsAt fiveConstants 6 (.passed .methodHandle ⟨[1, 0, 1], rfl⟩) :=
    ⟨[_, _, _, _], _, rfl, rfl⟩
  have hname : pool.utf8 1 = .ok "a/B" := htexts.found 1 _ _ ⟨[], _, rfl, rfl⟩ (by decide +kernel)
  have hnoName : pool.utf8 2 = .error (.invalidConstantIndex 2) := by
    refine htexts.missing 2 fun e he => ?_
    obtain ⟨-, rfl⟩ := (happart _ _ hlong).2.2 _ _ he (by decide) (by decide)
    rfl
  refine ⟨by decide, pool, hreads, hsize, hlongs.found 2 _ _ hlong rfl, ?_,
    (hclasses 4 1 hclass).trans hname, (hclasses 5 2 hwrong).trans hnoName, ?_⟩
  · refine hlongs.missing 3 fun e he => ?_
    exact absurd ((happart _ _ hlong).2.2 _ _ he (by decide) (by decide)).1 (by decide)
  · refine hothers 6 fun nameIndex he => ?_
    exact absurd ((happart _ _ hhandle).2.2 _ _ he (by decide) (by decide)).2 (by simp)

end PoolEntry

end ClassCatalog.ClassFile
