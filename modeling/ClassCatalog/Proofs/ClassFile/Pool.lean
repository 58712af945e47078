import ClassCatalog.ClassFile.ConstantPool
import ClassCatalog.ClassFile.PoolWriter
import ClassCatalog.Proofs.ClassFile.Reads
import ClassCatalog.Proofs.Text.ModifiedUtf8

/-!
# The constants that are written are the constants that are found

While constants are written, `PoolWriter.Sound` holds: as long as no text is too long and there are
slots left, the bytes so far are a table of constants in which every constant asked for is found
under the index that was handed out for it. A constant that is written later changes no slot that is
filled, so it is enough to look at the table when all is written.
-/

namespace ClassCatalog.ClassFile

open Read

namespace ConstantPool

/-! ### Reading the table -/

/-- The slots that a constant fills. -/
def slotsOf (c : Constant) : List Constant := if c.isWide then [c, .unusable] else [c]

/-- The slots that constants fill one after the other. -/
def layout (table : List (Constant × Bytes)) : List Constant := table.flatMap fun e => slotsOf e.1

/-- Each of the constants is read from its bytes. -/
def Readable (table : List (Constant × Bytes)) : Prop :=
  ∀ e ∈ table, ∀ index, Reads (readConstant index) e.2 e.1

theorem reads_readSlots {table : List (Constant × Bytes)} (h : Readable table) (index : Nat) :
    Reads (readSlots (layout table).length index) (table.flatMap (·.2)) (layout table) := by
  induction table generalizing index with
  | nil => exact .pure []
  | cons e table ih =>
    have hread := h e (List.mem_cons_self ..)
    have hrest := ih fun e' he' => h e' (List.mem_cons_of_mem _ he')
    rw [List.flatMap_cons, show layout (e :: table) = slotsOf e.1 ++ layout table from List.flatMap_cons,
      slotsOf]
    cases hw : e.1.isWide with
    | true =>
      show Reads (readSlots ((layout table).length + 2) index) _ (e.1 :: .unusable :: layout table)
      rw [readSlots]
      refine (hread index).bind ?_
      simp only [hw, if_true]
      exact (hrest (index + 2)).bind_pure rfl
    | false =>
      show Reads (readSlots ((layout table).length + 1) index) _ (e.1 :: layout table)
      rw [readSlots]
      refine (hread index).bind ?_
      simp only [hw]
      exact (hrest (index + 1)).bind_pure rfl

theorem reads_read {table : List (Constant × Bytes)} (h : Readable table)
    (hcount : (layout table).length + 1 < 0x10000) :
    Reads read (Bytes.bigEndian 2 ((layout table).length + 1) ++ table.flatMap (·.2))
      ⟨.unusable :: layout table⟩ := by
  refine (reads_u2 _).bind ?_
  have hn : (UInt16.ofNat ((layout table).length + 1)).toNat - 1 = (layout table).length := by
    rw [UInt16.toNat_ofNat', Nat.mod_eq_of_lt hcount, Nat.add_sub_cancel]
  rw [hn]
  exact (reads_readSlots h 1).bind_pure rfl

/-! ### Constants of each kind -/

variable (index : Nat)

/-- Any bytes of a text, if not too many, are read as the text that they stand for. -/
theorem reads_text {bytes : Bytes} (h : bytes.length < 0x10000) :
    Reads (readConstant index) (1 :: Bytes.bigEndian 2 bytes.length ++ bytes)
      (.utf8 (ModifiedUtf8.decode bytes)) := by
  have hslice := reads_slice bytes
  rw [← show (UInt16.ofNat bytes.length).toNat = bytes.length from UInt16.toNat_ofNat_of_lt' h] at hslice
  exact (reads_u1 1).bind ((reads_u2 _).bind (hslice.bind_pure rfl))

theorem reads_utf8 {text : String} (h : (ModifiedUtf8.encode text).length < 0x10000) :
    Reads (readConstant index) (PoolWriter.encodeText text) (.utf8 text) := by
  have hread := reads_text index h
  rwa [ModifiedUtf8.decode_encode] at hread

theorem reads_integer (v : Int32) :
    Reads (readConstant index) (3 :: Bytes.bigEndian 4 v.toUInt32.toNat) (.integer v) :=
  (reads_u1 3).bind ((reads_u4 _).bind_pure (by simp))

theorem reads_float (bits : UInt32) :
    Reads (readConstant index) (4 :: Bytes.bigEndian 4 bits.toNat) (.float bits) :=
  (reads_u1 4).bind ((reads_u4 _).bind_pure (by simp))

theorem reads_long (v : Int64) :
    Reads (readConstant index) (5 :: Bytes.bigEndian 8 v.toUInt64.toNat) (.long v) :=
  (reads_u1 5).bind ((reads_u8 _).bind_pure (by simp))

theorem reads_double (bits : UInt64) :
    Reads (readConstant index) (6 :: Bytes.bigEndian 8 bits.toNat) (.double bits) :=
  (reads_u1 6).bind ((reads_u8 _).bind_pure rfl)

theorem reads_classRef (nameIndex : UInt16) :
    Reads (readConstant index) (7 :: Bytes.bigEndian 2 nameIndex.toNat) (.classRef nameIndex) :=
  (reads_u1 7).bind ((reads_u2 _).bind_pure (by simp))

/-! ### Finding constants -/

/-- The constant of a key is found under an index. -/
def Has (pool : ConstantPool) : PoolKey → UInt16 → Prop
  | .utf8 text, i => pool.utf8 i = .ok text
  | .classRef internal, i => pool.className i = .ok internal
  | .integer v, i => pool.integer i = .ok v
  | .float bits, i => pool.float i = .ok bits
  | .long v, i => pool.long i = .ok v
  | .double bits, i => pool.double i = .ok bits

variable {pool : ConstantPool} {i : UInt16}

theorem lookup_eq_ok {α : Type} {select : Constant → Option α} {a : α} :
    pool.lookup select i = .ok a ↔ ∃ c, pool.slots[i.toNat]? = some c ∧ select c = some a := by
  unfold lookup
  cases pool.slots[i.toNat]? with
  | none => simp
  | some c => cases hc : select c <;> simp [hc]

theorem className_eq_ok {internal : String} :
    pool.className i = .ok internal ↔
      ∃ nameIndex, pool.slots[i.toNat]? = some (.classRef nameIndex) ∧
        pool.utf8 nameIndex = .ok internal := by
  unfold className lookup
  cases pool.slots[i.toNat]? with
  | none => exact ⟨nofun, fun ⟨_, h, _⟩ => nomatch h⟩
  | some c =>
    cases c with
    | classRef nameIndex => exact ⟨fun h => ⟨nameIndex, rfl, h⟩, fun ⟨_, h, h'⟩ => by cases h; exact h'⟩
    | _ => exact ⟨nofun, fun ⟨_, h, _⟩ => nomatch h⟩

theorem slot_append {c : Constant} (h : pool.slots[i.toNat]? = some c) (more : List Constant) :
    (pool.slots ++ more)[i.toNat]? = some c := by
  rw [List.getElem?_append_left (List.getElem?_eq_some_iff.1 h).1, h]

theorem lookup_append {α : Type} {select : Constant → Option α} {a : α}
    (h : pool.lookup select i = .ok a) (more : List Constant) :
    (ConstantPool.mk (pool.slots ++ more)).lookup select i = .ok a := by
  obtain ⟨c, hslot, hc⟩ := lookup_eq_ok.1 h
  exact lookup_eq_ok.2 ⟨c, slot_append hslot more, hc⟩

/-- What is found is still found when slots are added. -/
theorem Has.append {key : PoolKey} (h : pool.Has key i) (more : List Constant) :
    (ConstantPool.mk (pool.slots ++ more)).Has key i := by
  cases key with
  | classRef internal =>
    obtain ⟨nameIndex, hslot, hname⟩ := className_eq_ok.1 h
    exact className_eq_ok.2 ⟨nameIndex, slot_append hslot more, lookup_append hname more⟩
  | _ => exact lookup_append h more

end ConstantPool

/-! ### Writing constants -/

/-- A text that is not too long to be written. -/
def PoolKey.fits : PoolKey → Bool
  | .utf8 text => (ModifiedUtf8.encode text).length ≤ 0xFFFF
  | _ => true

namespace PoolWriter

open ConstantPool

variable {w w' w'' : PoolWriter}

/-- The next free slot, not cut to the width of an index. -/
def slotCount (w : PoolWriter) : Nat := (w.seen.map fun e => e.1.slots.toNat).sum + 1

/-- What has been written is within the limits of the format. -/
structure Fits (w : PoolWriter) : Prop where
  slots : w.slotCount ≤ 0xFFFF
  texts : ∀ e ∈ w.seen, e.1.fits = true

instance (w : PoolWriter) : Decidable w.Fits :=
  decidable_of_iff (w.slotCount ≤ 0xFFFF ∧ ∀ e ∈ w.seen, e.1.fits = true)
    ⟨fun h => ⟨h.1, h.2⟩, fun h => ⟨h.slots, h.texts⟩⟩

/-- The table that has been written, and that everything asked for is found in it. -/
structure Holds (w : PoolWriter) (table : List (Constant × Bytes)) : Prop where
  readable : Readable table
  bytes : w.bytes = table.flatMap (·.2)
  slotCount : w.slotCount = (layout table).length + 1
  next : w.next.toNat = w.slotCount
  found : ∀ e ∈ w.seen, ConstantPool.Has ⟨.unusable :: layout table⟩ e.1 e.2

/-- Within the limits of the format, what has been written is a table in which everything asked for is
found. -/
def Sound (w : PoolWriter) : Prop := w.Fits → ∃ table, w.Holds table

theorem sound_empty : Sound {} := fun _ => ⟨[], nofun, rfl, rfl, rfl, nofun⟩

theorem slotCount_append (w : PoolWriter) (key : PoolKey) (encoding : Bytes) :
    (w.append key encoding).2.slotCount = w.slotCount + key.slots.toNat := by
  simp only [slotCount, append, List.map_cons, List.sum_cons]
  omega

/-- A later writer has handed out all that an earlier one has, and stays sound. -/
structure Grows (w w' : PoolWriter) : Prop where
  seen : w.seen <:+ w'.seen
  sound : w.Sound → w'.Sound

namespace Grows

theorem refl (w : PoolWriter) : Grows w w := ⟨List.suffix_rfl, id⟩

theorem trans (h : Grows w w') (h' : Grows w' w'') : Grows w w'' :=
  ⟨h.seen.trans h'.seen, fun hs => h'.sound (h.sound hs)⟩

end Grows

theorem Fits.of_suffix (h : w'.Fits) (hseen : w.seen <:+ w'.seen) : w.Fits := by
  refine ⟨Nat.le_trans ?_ h.slots, fun e he => h.texts e (hseen.subset he)⟩
  obtain ⟨newer, hnewer⟩ := hseen
  rw [slotCount, slotCount, ← hnewer, List.map_append, List.sum_append]
  omega

/-- Writing a constant that is found in the next slot keeps a writer sound. -/
theorem sound_append (h : w.Sound) {key : PoolKey} {encoding : Bytes} {c : Constant}
    (hread : key.fits = true → ∀ index, Reads (readConstant index) encoding c)
    (hslots : (slotsOf c).length = key.slots.toNat)
    (hhas : ∀ pool : ConstantPool, pool.slots[w.next.toNat]? = some c →
      (∀ e ∈ w.seen, pool.Has e.1 e.2) → pool.Has key w.next) :
    (w.append key encoding).2.Sound := by
  intro hfits
  have hsuffix : w.seen <:+ (w.append key encoding).2.seen := List.suffix_cons ..
  obtain ⟨table, htable⟩ := h (hfits.of_suffix hsuffix)
  have hcount := slotCount_append w key encoding
  have hlayout : layout (table ++ [(c, encoding)]) = layout table ++ slotsOf c := by
    simp [layout]
  have hold : ∀ e ∈ w.seen,
      ConstantPool.Has ⟨.unusable :: layout (table ++ [(c, encoding)])⟩ e.1 e.2 := by
    rw [hlayout]
    exact fun e he => (htable.found e he).append (slotsOf c)
  refine ⟨table ++ [(c, encoding)], ?_, ?_, ?_, ?_, ?_⟩
  · intro e he
    obtain he | he := List.mem_append.1 he
    · exact htable.readable e he
    · rw [List.mem_singleton.1 he]
      exact hread (hfits.texts (key, w.next) (List.mem_cons_self ..))
  · rw [append, htable.bytes, List.flatMap_append, List.flatMap_singleton]
  · rw [hcount, htable.slotCount, hlayout, List.length_append, hslots]
    omega
  · have hlimit := hfits.slots
    show (w.next + key.slots).toNat = _
    rw [UInt16.toNat_add, htable.next, Nat.mod_eq_of_lt (by omega), hcount]
  · intro e he
    obtain rfl | he := List.mem_cons.1 he
    · refine hhas _ ?_ hold
      -- The index handed out is that of the slot behind all that were filled before.
      have hnext : w.next.toNat = (Constant.unusable :: layout table).length :=
        htable.next.trans htable.slotCount
      rw [hlayout, hnext, ← List.cons_append, List.getElem?_append_right (Nat.le_refl _), Nat.sub_self]
      unfold slotsOf
      split <;> rfl
    · exact hold e he

theorem Grows.append (w : PoolWriter) {key : PoolKey} {encoding : Bytes} {c : Constant}
    (hread : key.fits = true → ∀ index, Reads (readConstant index) encoding c)
    (hslots : (slotsOf c).length = key.slots.toNat)
    (hhas : ∀ pool : ConstantPool, pool.slots[w.next.toNat]? = some c →
      (∀ e ∈ w.seen, pool.Has e.1 e.2) → pool.Has key w.next) :
    w.Grows (w.append key encoding).2 :=
  ⟨List.suffix_cons .., fun h => sound_append h hread hslots hhas⟩

theorem mem_seen_of_index? {key : PoolKey} {i : UInt16} (h : w.index? key = some i) :
    (key, i) ∈ w.seen := by
  obtain ⟨e, hfind, rfl⟩ := Option.map_eq_some_iff.1 h
  have hkey : e.1 = key := by simpa using List.find?_some hfind
  exact hkey ▸ List.mem_of_find?_eq_some hfind

theorem grows_append_utf8 (w : PoolWriter) (text : String) :
    w.Grows (w.append (.utf8 text) (encodeText text)).2 :=
  .append w (fun hfits => fun index => reads_utf8 index (Nat.lt_succ_of_le (of_decide_eq_true hfits))) rfl
    fun _ hslot _ => lookup_eq_ok.2 ⟨_, hslot, rfl⟩

theorem grows_utf8 (w : PoolWriter) (text : String) : w.Grows (w.utf8 text).2 := by
  unfold utf8
  cases w.index? (.utf8 text) with
  | some i => exact .refl w
  | none => exact grows_append_utf8 w text

theorem mem_seen_utf8 (w : PoolWriter) (text : String) : (.utf8 text, (w.utf8 text).1) ∈ (w.utf8 text).2.seen := by
  unfold utf8
  cases h : w.index? (.utf8 text) with
  | some i => exact mem_seen_of_index? h
  | none => exact List.mem_cons_self ..

/-- Whatever constant is asked for, a writer stays sound. -/
theorem grows_intern (w : PoolWriter) (key : PoolKey) : w.Grows (w.intern key).2 := by
  unfold intern
  cases w.index? key with
  | some i => exact .refl w
  | none =>
    cases key with
    | utf8 text => exact grows_append_utf8 w text
    | classRef internal =>
      refine (grows_utf8 w internal).trans (.append _ (fun _ index => reads_classRef index _) rfl ?_)
      exact fun pool hslot hold => className_eq_ok.2 ⟨_, hslot, hold _ (mem_seen_utf8 w internal)⟩
    | integer v =>
      exact .append w (fun _ index => reads_integer index v) rfl
        fun _ hslot _ => lookup_eq_ok.2 ⟨_, hslot, rfl⟩
    | float bits =>
      exact .append w (fun _ index => reads_float index bits) rfl
        fun _ hslot _ => lookup_eq_ok.2 ⟨_, hslot, rfl⟩
    | long v =>
      exact .append w (fun _ index => reads_long index v) rfl
        fun _ hslot _ => lookup_eq_ok.2 ⟨_, hslot, rfl⟩
    | double bits =>
      exact .append w (fun _ index => reads_double index bits) rfl
        fun _ hslot _ => lookup_eq_ok.2 ⟨_, hslot, rfl⟩

theorem mem_seen_intern (w : PoolWriter) (key : PoolKey) :
    (key, (w.intern key).1) ∈ (w.intern key).2.seen := by
  unfold intern
  cases h : w.index? key with
  | some i => exact mem_seen_of_index? h
  | none => cases key <;> exact List.mem_cons_self ..

/-- Behind the number of the next slot, what has been written is read as the table. -/
theorem Holds.reads {table : List (Constant × Bytes)} (h : w.Holds table) (hfits : w.Fits) :
    Reads read (Bytes.bigEndian 2 w.next.toNat ++ w.bytes) ⟨.unusable :: layout table⟩ := by
  have hlimit := hfits.slots
  rw [h.next, h.bytes, h.slotCount]
  exact reads_read h.readable (by rw [← h.slotCount]; omega)

/-- Within the limits of the format, the pool is read from what has been written, behind the number of
the next slot, and everything asked for is found in it. -/
theorem Sound.reads (h : w.Sound) (hfits : w.Fits) :
    ∃ slots, Reads read (Bytes.bigEndian 2 w.next.toNat ++ w.bytes) ⟨.unusable :: slots⟩ ∧
      ∀ e ∈ w.seen, ConstantPool.Has ⟨.unusable :: slots⟩ e.1 e.2 := by
  obtain ⟨table, htable⟩ := h hfits
  exact ⟨layout table, htable.reads hfits, htable.found⟩

end PoolWriter

end ClassCatalog.ClassFile
