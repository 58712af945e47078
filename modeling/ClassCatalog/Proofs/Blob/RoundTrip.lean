import ClassCatalog.Proofs.Blob.Frame
import ClassCatalog.Proofs.Blob.Reads

/-!
# Stored indexes are restored

`decode_blob_of_index`: decoding what `encode` writes gives the index back, with floats as bits, so
no two indexes are stored as one byte string. The content is the mutual recursion of element values
and usages (`reads_value`): a reader is given as many levels as there are bytes, every level of
nesting writes at least the four bytes of its kind, and so the levels last. Records, identities and
indexes are rows of pieces whose readers are known from `Reads`.
-/

namespace ClassCatalog.Blob

namespace Get

/-! ### Element values and usages -/

theorem reads_retention (r : Retention) : Reads retention (putRetention r) r := by
  cases r with
  | runtime => exact (reads_choice (n := 0) (by decide) (by decide)).bind_pure rfl
  | classFile => exact (reads_choice (n := 1) (by decide) (by decide)).bind_pure rfl

@[simp] theorem length_putU64 (n : Nat) : (putU64 n).length = 8 := Bytes.length_littleEndian 8 n

@[simp] theorem length_putChoice (n : Nat) : (putChoice n).length = 4 :=
  Bytes.length_littleEndian 4 n

/-- Every value is written with its kind in front. -/
theorem four_le_length_putValue (v : ElementValue) : 4 ≤ (putValue v).length := by
  cases v <;> simp only [putValue, List.length_append, length_putChoice] <;> omega

theorem length_le_putItems (items : List ElementValue) : items.length ≤ (putItems items).length := by
  induction items with
  | nil => simp
  | cons v items ih =>
    have hv := four_le_length_putValue v
    rw [putItems, List.length_append, List.length_cons]
    omega

theorem length_le_putElements (elements : List (String × ElementValue)) :
    elements.length ≤ (putElements elements).length := by
  induction elements with
  | nil => simp
  | cons e elements ih =>
    have hv := four_le_length_putValue e.2
    rw [putElements, List.length_append, List.length_append, List.length_cons]
    omega

mutual

/-- A value is read back if there are as many levels as bytes. -/
theorem reads_value : ∀ (v : ElementValue) (levels : Nat), (putValue v).length ≤ levels →
    Reads (value levels) (putValue v) v
  | v, 0, hlevels => absurd (four_le_length_putValue v) (by omega)
  | .byte v, levels + 1, _ =>
    (reads_choice (n := 0) (by decide) (by decide)).bind
      ((reads_byte v.toUInt8).bind_pure (by rw [Int8.toInt8_toUInt8]))
  | .char v, levels + 1, _ =>
    (reads_choice (n := 1) (by decide) (by decide)).bind ((reads_char v).bind_pure rfl)
  | .short v, levels + 1, _ =>
    (reads_choice (n := 2) (by decide) (by decide)).bind
      ((reads_number _ v.toUInt16.toNat_lt).bind_pure
        (by rw [UInt16.ofNat_toNat, Int16.toInt16_toUInt16]))
  | .int v, levels + 1, _ =>
    (reads_choice (n := 3) (by decide) (by decide)).bind
      ((reads_number _ v.toUInt32.toNat_lt).bind_pure
        (by rw [UInt32.ofNat_toNat, Int32.toInt32_toUInt32]))
  | .long v, levels + 1, _ =>
    (reads_choice (n := 4) (by decide) (by decide)).bind
      ((reads_number _ v.toUInt64.toNat_lt).bind_pure
        (by rw [UInt64.ofNat_toNat, Int64.toInt64_toUInt64]))
  | .float bits, levels + 1, _ =>
    (reads_choice (n := 5) (by decide) (by decide)).bind
      ((reads_number _ bits.toNat_lt).bind_pure (by rw [UInt32.ofNat_toNat]))
  | .double bits, levels + 1, _ =>
    (reads_choice (n := 6) (by decide) (by decide)).bind
      ((reads_number _ bits.toNat_lt).bind_pure (by rw [UInt64.ofNat_toNat]))
  | .boolean v, levels + 1, _ =>
    (reads_choice (n := 7) (by decide) (by decide)).bind ((reads_bool v).bind_pure rfl)
  | .string v, levels + 1, _ =>
    (reads_choice (n := 8) (by decide) (by decide)).bind ((reads_string v).bind_pure rfl)
  | .enum typeName constant, levels + 1, _ => by
    rw [putValue, List.append_assoc]
    exact (reads_choice (n := 9) (by decide) (by decide)).bind
      ((reads_string typeName).bind ((reads_string constant).bind_pure rfl))
  | .classLiteral typeName, levels + 1, _ =>
    (reads_choice (n := 10) (by decide) (by decide)).bind ((reads_string typeName).bind_pure rfl)
  | .nested usage, levels + 1, hlevels => by
    rw [putValue, List.length_append, length_putChoice] at hlevels
    exact (reads_choice (n := 11) (by decide) (by decide)).bind
      ((reads_usageWith usage levels (by omega)).bind_pure rfl)
  | .array items, levels + 1, hlevels => by
    rw [putValue, List.length_append, List.length_append, length_putChoice, length_putU64]
      at hlevels
    refine Reads.of_short fun hlen => ?_
    have hcount := length_le_putItems items
    rw [putValue, List.length_append, List.length_append] at hlen
    rw [putValue, List.append_assoc]
    refine (reads_choice (n := 12) (by decide) (by decide)).bind ?_
    have hitems := (reads_u64 (n := items.length) (by omega)).bind
      (reads_items items levels (by omega))
    exact hitems.bind_pure rfl

theorem reads_usageWith : ∀ (u : Usage) (levels : Nat), (putUsage u).length ≤ levels →
    Reads (usageWith (value levels)) (putUsage u) u
  | ⟨typeName, retention, elements⟩, levels, hlevels => by
    rw [putUsage, List.length_append] at hlevels
    refine Reads.of_short fun hlen => ?_
    have hcount := length_le_putElements elements
    rw [putUsage, List.length_append] at hlen
    rw [putUsage, List.append_assoc, List.append_assoc]
    refine (reads_string typeName).bind ((reads_retention retention).bind ?_)
    have helements := (reads_u64 (n := elements.length) (by omega)).bind
      (reads_elements elements levels (by omega))
    exact helements.bind_pure rfl

theorem reads_items : ∀ (items : List ElementValue) (levels : Nat),
    (putItems items).length ≤ levels →
    Reads (repeated (value levels) items.length) (putItems items) items
  | [], _, _ => Reads.pure []
  | v :: items, levels, hlevels => by
    rw [putItems, List.length_append] at hlevels
    exact (reads_value v levels (by omega)).bind
      ((reads_items items levels (by omega)).bind_pure rfl)

theorem reads_elements : ∀ (elements : List (String × ElementValue)) (levels : Nat),
    (putElements elements).length ≤ levels →
    Reads (repeated (pair string (value levels)) elements.length) (putElements elements) elements
  | [], _, _ => Reads.pure []
  | (name, v) :: elements, levels, hlevels => by
    rw [putElements, List.length_append, List.length_append] at hlevels
    exact ((reads_string name).bind ((reads_value v levels (by omega)).bind_pure rfl)).bind
      ((reads_elements elements levels (by omega)).bind_pure rfl)

end

/-- A usage at the head of an input is read back: the input has at least as many bytes. -/
theorem reads_usage (u : Usage) : Reads usage (putUsage u) u := by
  intro hlen rest
  have h := reads_usageWith u (putUsage u ++ rest).length (by simp)
  exact h hlen rest

theorem putUsage_ne_nil (u : Usage) : putUsage u ≠ [] := by
  obtain ⟨typeName, retention, elements⟩ := u
  simp [putUsage, putString, putU64, Bytes.littleEndian]

theorem putList_ne_nil {α : Type} (put : α → Bytes) (items : List α) : putList put items ≠ [] := by
  simp [putList, putU64, Bytes.littleEndian]

theorem putString_ne_nil (s : String) : putString s ≠ [] := by
  simp [putString, putU64, Bytes.littleEndian]

theorem reads_usages (us : List Usage) : Reads (list usage) (putList putUsage us) us :=
  reads_list (fun u _ => putUsage_ne_nil u) fun u _ => reads_usage u

/-! ### Records and indexes -/

theorem reads_record (r : ClassRecord) : Reads record (putRecord r) r := by
  have hflags := reads_number 2 r.modifiers.bits.toNat_lt
  simp only [putRecord, List.append_assoc]
  refine (reads_string r.name).bind ((reads_option reads_string r.superclass).bind
    ((reads_list (fun s _ => putString_ne_nil s) fun s _ => reads_string s).bind
    (hflags.bind ((reads_usages r.classAnnotations).bind
    ((reads_map reads_usages r.fieldAnnotations).bind
    ((reads_map reads_usages r.methodAnnotations).bind
    ((reads_map (fun ps => reads_list (fun us _ => putList_ne_nil putUsage us)
      fun us _ => reads_usages us) r.parameterAnnotations).bind
    ((reads_bool r.isPartial).bind_pure ?_))))))))
  rw [UInt16.ofNat_toNat]

theorem reads_identity (i : Identity) : Reads identity (putIdentity i) i := by
  simp only [putIdentity, List.append_assoc]
  refine (reads_string i.path).bind ((reads_u64 i.size.toNat_lt).bind
    ((reads_u64 i.lastModified.toNat_lt).bind
    ((reads_option reads_string i.digest).bind_pure ?_)))
  rw [UInt64.ofNat_toNat, UInt64.ofNat_toNat]

theorem reads_index (index : Index) : Reads Get.index (putIndex index) index := by
  simp only [putIndex, List.append_assoc]
  refine (reads_identity index.identity).bind ((reads_map reads_record index.classes).bind
    ((reads_bool index.incomplete).bind ((reads_list ?_ ?_).bind_pure rfl)))
  · intro failure _
    simp [putPair, putString, putU64, Bytes.littleEndian]
  · exact fun failure _ => reads_pair (reads_string failure.1) (reads_string failure.2)

end Get

/-! ### The frame -/

theorem decode_encode {index : Index} (h : (encode index).length < addressable) :
    decode (encode index) = .ok index := by
  have hpayload : (putIndex index).length < addressable := by
    simp only [encode, List.length_append] at h
    omega
  have hread := Get.reads_index index hpayload []
  rw [List.append_nil] at hread
  exact decode_eq_ok_iff.2 ⟨putIndex index, [], rfl, hread⟩

/-- An index whose blob fits into memory is restored from it, whatever it holds. Hence no other
index is stored as the same bytes. -/
theorem decode_blob_of_index (index : Index) (h : (encode index).length < addressable) :
    decode (encode index) = .ok index ∧ ∀ other, encode other = encode index → other = index := by
  refine ⟨decode_encode h, fun other hother => ?_⟩
  have hsame : (.ok other : Except BlobError Index) = .ok index := by
    rw [← decode_encode h, ← hother, decode_encode (hother ▸ h)]
  exact Except.ok.inj hsame

/-- A partial record with a NaN and a negative zero in an annotation inside an array. -/
theorem decode_blob_of_nested_nan :
    let usage : Usage := ⟨"a.A", .classFile, [("v", .array [.float 0x7FC00001,
      .nested ⟨"a.B", .runtime, [("w", .double 0x8000000000000000), ("c", .char 'é')]⟩])]⟩
    let record : ClassRecord := { name := "a.C", classAnnotations := [usage], isPartial := true }
    let index : Index :=
      { identity := ⟨"a.jar", 1, 2, some "ab"⟩, classes := NameMap.empty.insert "a.C" record,
        incomplete := true, failures := [("a/C.class", "unexpected end")] }
    (encode index).length < addressable ∧ decode (encode index) = .ok index :=
  have h : _ := by decide +kernel
  ⟨h, (decode_blob_of_index _ h).1⟩

end ClassCatalog.Blob
