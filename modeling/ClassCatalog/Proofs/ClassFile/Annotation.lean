import ClassCatalog.Proofs.Annotation.Retained
import ClassCatalog.Proofs.ClassFile.Descriptor
import ClassCatalog.Proofs.ClassFile.Emit

/-!
# Annotations there and back

`Spells pool p e a`: what the emitter `e` writes, the reader `p` reads as `a`, in a pool where all is
found that the emitter has asked for. Element values and usages are spelled by induction on their
nesting (`spells_value`). What does not survive is the retention of a nested usage: it is kept as long
as the usage around it (`Usage.keptAs`).
-/

namespace ClassCatalog

mutual

/-- How deep annotations and arrays nest in a value. -/
def ElementValue.depth : ElementValue → Nat
  | .nested usage => usage.depth
  | .array items => itemsDepth items + 1
  | _ => 0

/-- How deep annotations and arrays nest in a usage, itself included. -/
def Usage.depth : Usage → Nat
  | ⟨_, _, elements⟩ => elementsDepth elements + 1

/-- The depth of the deepest item. -/
def itemsDepth : List ElementValue → Nat
  | [] => 0
  | value :: rest => max value.depth (itemsDepth rest)

/-- The depth of the value of some element, of the deepest one. -/
def elementsDepth : List (String × ElementValue) → Nat
  | [] => 0
  | (_, value) :: rest => max value.depth (elementsDepth rest)

end

mutual

/-- Whether a value has a form in class files: its type names are names of types, its characters take
one unit and its counts two bytes. -/
def ElementValue.isWritable : ElementValue → Bool
  | .char c => c.toNat ≤ 0xFFFF
  | .enum typeName _ => ClassFile.Descriptor.isTypeName typeName
  | .classLiteral typeName => ClassFile.Descriptor.isTypeName typeName
  | .nested usage => usage.isWritable
  | .array items => items.length ≤ 0xFFFF && itemsWritable items
  | _ => true

/-- Whether a usage has a form in class files. -/
def Usage.isWritable : Usage → Bool
  | ⟨typeName, _, elements⟩ =>
    ClassFile.Descriptor.isTypeName typeName && elements.length ≤ 0xFFFF && elementsWritable elements

/-- Whether every item has a form in class files. -/
def itemsWritable : List ElementValue → Bool
  | [] => true
  | value :: rest => value.isWritable && itemsWritable rest

/-- Whether the value of every element has a form in class files. -/
def elementsWritable : List (String × ElementValue) → Bool
  | [] => true
  | (_, value) :: rest => value.isWritable && elementsWritable rest

end

namespace ClassFile

open Read

/-- Everything that was asked for is found in the pool. -/
def ConstantPool.HasAll (pool : ConstantPool) (w : PoolWriter) : Prop :=
  ∀ e ∈ w.seen, pool.Has e.1 e.2

theorem ConstantPool.HasAll.of_grows {pool : ConstantPool} {w w' : PoolWriter} (h : pool.HasAll w')
    (hw : w.Grows w') : pool.HasAll w :=
  fun e he => h e (hw.seen.subset he)

namespace Emit

variable {α β : Type} {pool : ConstantPool}

/-- What is written is read as `a`, if all is found in the pool that was asked for. -/
def Spells (pool : ConstantPool) (p : Read α) (e : Emit) (a : α) : Prop :=
  ∀ w : PoolWriter, pool.HasAll (e.run w).2 → Reads p (e.run w).1 a

/-- The index of a constant. -/
theorem reads_index (key : PoolKey) (w : PoolWriter) :
    Reads Read.u2 ((constant key).run w).1 (w.intern key).1 := by
  have hread := reads_u2 (w.intern key).1.toNat
  rwa [UInt16.ofNat_toNat] at hread

theorem has_intern {key : PoolKey} {w : PoolWriter} (hall : pool.HasAll ((constant key).run w).2) :
    pool.Has key (w.intern key).1 := hall _ (w.mem_seen_intern key)

/-- The index of a constant, and what is found under it. -/
theorem spells_constant {key : PoolKey} {look : UInt16 → Except ParseError α} {a : α}
    (h : ∀ i, pool.Has key i → look i = .ok a) :
    Spells pool (do let index ← Read.u2; look index) (constant key) a :=
  fun w hall => (reads_index key w).bind_lift (h _ (has_intern hall))

/-- A reader's result in another form. -/
theorem Spells.map {p : Read α} {e : Emit} {a : α} {b : β} {g : α → β} (h : Spells pool p e a)
    (hg : g a = b) : Spells pool (do let x ← p; return g x) e b :=
  fun w hall => (h w hall).bind_pure hg

variable {ctx : AttributeContext}

theorem spells_text (s : String) : Spells ctx.pool ctx.text (text s) s := spells_constant fun _ h => h

theorem spells_integer (v : Int32) : Spells ctx.pool ctx.integer (constant (.integer v)) v :=
  spells_constant fun _ h => h

theorem spells_typeName {name : String} (h : Descriptor.isTypeName name = true) :
    Spells ctx.pool ctx.typeName (typeName name) name := by
  exact fun w hall => (spells_text _ w hall).bind_lift (Descriptor.typeName_ofTypeName h)

/-! ### Values -/

theorem charOfLowBits_toInt32 {c : Char} (h : c.toNat ≤ 0xFFFF) :
    AttributeContext.charOfLowBits (UInt32.ofNat c.toNat).toInt32 = c := by
  have hn : (UInt32.ofNat c.toNat).toInt32.toUInt32.toNat % 0x10000 = c.toNat := by
    simp
    omega
  have hvalid : c.toNat.isValidChar := c.valid
  unfold AttributeContext.charOfLowBits
  simp only [hn, if_pos hvalid, Char.ofNat_toNat]

theorem depth_usage_pos (u : Usage) : 0 < u.depth := by
  cases u
  exact Nat.succ_pos _

/-- A value in which nothing nests is a tag and an index or two. -/
theorem spells_flat {v : ElementValue} (hwrite : v.isWritable = true) (hflat : v.depth = 0)
    (usage items : Read ElementValue) : Spells ctx.pool (ctx.valueWith usage items) (value v) v := by
  intro w hall
  cases v with
  | byte v => exact (reads_u1 _).bind ((spells_integer _).map (by simp) w hall)
  | char c =>
    have hc := charOfLowBits_toInt32 (of_decide_eq_true hwrite)
    exact (reads_u1 _).bind ((spells_integer _).map (by rw [hc]) w hall)
  | short v => exact (reads_u1 _).bind ((spells_integer _).map (by simp) w hall)
  | int v => exact (reads_u1 _).bind ((spells_integer _).map rfl w hall)
  | boolean v => exact (reads_u1 _).bind ((spells_integer _).map (by cases v <;> rfl) w hall)
  | long v =>
    have hlong : ctx.pool.long (w.intern (.long v)).1 = .ok v := has_intern hall
    exact (reads_u1 _).bind ((reads_index _ w).bind_nil (.lift_bind hlong (.pure _)))
  | float bits =>
    have hfloat : ctx.pool.float (w.intern (.float bits)).1 = .ok bits := has_intern hall
    exact (reads_u1 _).bind ((reads_index _ w).bind_nil (.lift_bind hfloat (.pure _)))
  | double bits =>
    have hdouble : ctx.pool.double (w.intern (.double bits)).1 = .ok bits := has_intern hall
    exact (reads_u1 _).bind ((reads_index _ w).bind_nil (.lift_bind hdouble (.pure _)))
  | string s => exact (reads_u1 _).bind ((spells_text _).map rfl w hall)
  | enum typeName c =>
    have hc : ctx.pool.Has (.utf8 c) _ := has_intern hall
    have ht : ctx.pool.Has (.utf8 (Descriptor.ofTypeName typeName)) _ :=
      has_intern (hall.of_grows (grows_text c _))
    refine (reads_u1 _).bind ((reads_index _ w).bind ((reads_index _ _).bind_nil ?_))
    exact .lift_bind ht (.lift_bind (Descriptor.typeName_ofTypeName hwrite) (.lift_bind hc (.pure _)))
  | classLiteral name => exact (reads_u1 _).bind ((spells_typeName hwrite).map rfl w hall)
  | nested u => exact absurd hflat (Nat.ne_of_gt (depth_usage_pos u))
  | array vs => nomatch hflat

theorem spells_value_flat {v : ElementValue} (hwrite : v.isWritable = true) (hflat : v.depth = 0)
    (levels : Nat) : Spells ctx.pool (ctx.value levels) (value v) v := by
  cases levels <;> exact spells_flat hwrite hflat _ _

/-- A count, and what is read by it. -/
theorem reads_count {n : Nat} (h : n ≤ 0xFFFF) {f : UInt16 → Read α} {bytes : Bytes} {a : α}
    (hf : ∀ count, count.toNat = n → Reads (f count) bytes a) :
    Reads (Read.u2 >>= f) (u2 n ++ bytes) a := by
  refine (reads_u2 n).bind (hf _ ?_)
  rw [UInt16.toNat_ofNat', Nat.mod_eq_of_lt (by omega)]

mutual

theorem spells_value : (v : ElementValue) → (levels : Nat) → v.isWritable = true → v.depth ≤ levels →
    Spells ctx.pool (ctx.value levels) (value v) (v.keptAs ctx.retention)
  | .byte _, levels, hwrite, _ | .char _, levels, hwrite, _ | .short _, levels, hwrite, _
  | .int _, levels, hwrite, _ | .boolean _, levels, hwrite, _ | .long _, levels, hwrite, _
  | .float _, levels, hwrite, _ | .double _, levels, hwrite, _ | .string _, levels, hwrite, _
  | .enum _ _, levels, hwrite, _ | .classLiteral _, levels, hwrite, _ =>
    spells_value_flat hwrite rfl levels
  | .nested u, 0, _, hdepth => absurd hdepth (Nat.not_le_of_gt (depth_usage_pos u))
  | .nested u, levels + 1, hwrite, hdepth => fun w hall =>
    (reads_u1 _).bind ((spells_usage u (levels + 1) hwrite hdepth).map rfl w hall)
  | .array vs, levels + 1, hwrite, hdepth => fun w hall => by
    obtain ⟨hcount, hitems⟩ := Bool.and_eq_true_iff.1 hwrite
    refine (reads_u1 _).bind (reads_count (of_decide_eq_true hcount) fun count hn => ?_)
    rw [hn]
    exact (spells_items vs levels hitems (Nat.le_of_succ_le_succ hdepth) w hall).bind_pure rfl

theorem spells_usage : (u : Usage) → (levels : Nat) → u.isWritable = true → u.depth ≤ levels →
    Spells ctx.pool (ctx.usage levels) (usage u) (u.keptAs ctx.retention)
  | ⟨name, _, es⟩, levels + 1, hwrite, hdepth => fun w hall => by
    obtain ⟨hhead, helements⟩ := Bool.and_eq_true_iff.1 hwrite
    obtain ⟨hname, hcount⟩ := Bool.and_eq_true_iff.1 hhead
    have hread : Reads ctx.typeName _ name :=
      spells_typeName hname w (hall.of_grows (grows_elements es _))
    show Reads _ (((typeName name).run w).1 ++ u2 es.length ++
      ((elements es).run ((typeName name).run w).2).1) _
    rw [List.append_assoc]
    refine hread.bind (reads_count (of_decide_eq_true hcount) fun count hn => ?_)
    rw [hn]
    exact (spells_elements es levels helements (Nat.le_of_succ_le_succ hdepth) _ hall).bind_pure rfl

theorem spells_items : (vs : List ElementValue) → (levels : Nat) → itemsWritable vs = true →
    itemsDepth vs ≤ levels →
    Spells ctx.pool (Read.repeated (ctx.value levels) vs.length) (items vs) (itemsKeptAs ctx.retention vs)
  | [], _, _, _ => fun _ _ => .pure []
  | v :: vs, levels, hwrite, hdepth => fun w hall => by
    obtain ⟨hv, hvs⟩ := Bool.and_eq_true_iff.1 hwrite
    obtain ⟨hdv, hdvs⟩ := Nat.max_le.1 hdepth
    exact reads_repeated_cons (spells_value v levels hv hdv w (hall.of_grows (grows_items vs _)))
      (spells_items vs levels hvs hdvs _ hall)

theorem spells_elements : (es : List (String × ElementValue)) → (levels : Nat) →
    elementsWritable es = true → elementsDepth es ≤ levels →
    Spells ctx.pool (Read.repeated (do
      let name ← ctx.text
      let v ← ctx.value levels
      return (name, v)) es.length) (elements es) (elementsKeptAs ctx.retention es)
  | [], _, _, _ => fun _ _ => .pure []
  | (name, v) :: es, levels, hwrite, hdepth => fun w hall => by
    obtain ⟨hv, hes⟩ := Bool.and_eq_true_iff.1 hwrite
    obtain ⟨hdv, hdes⟩ := Nat.max_le.1 hdepth
    have hall' : ctx.pool.HasAll ((value v).run ((text name).run w).2).2 :=
      hall.of_grows (grows_elements es _)
    have hname : Reads ctx.text _ name := spells_text name w (hall'.of_grows (grows_value v _))
    have hvalue := spells_value v levels hv hdv _ hall'
    exact reads_repeated_cons (hname.bind (hvalue.bind_pure rfl)) (spells_elements es levels hes hdes _ hall)

end

end Emit

end ClassFile

end ClassCatalog
