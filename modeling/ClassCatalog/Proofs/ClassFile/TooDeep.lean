import Mathlib.Order.MinMax
import ClassCatalog.Proofs.ClassFile.Attribute

/-!
# Annotations that nest too deep

What nests deeper than a reader goes stops it with one fault, wherever it stands (`Read.Breaks`). A usage is read
back unless it nests too deep, and then the reader stops; so is a list of usages, an attribute or a member with a
usage that does (`Read.ReadsUnless`). What stands before the usage is read first, however deep it nests itself.
-/

namespace ClassCatalog.ClassFile

namespace Read

variable {α β : Type} {p : Read α} {f : α → Read β} {bytes bytes' : Bytes} {a : α} {b : β} {e : ParseError}
  {deep deep' : Prop}

/-- `p` meets the fault in the bytes, whatever follows them. -/
def Breaks (p : Read α) (bytes : Bytes) (e : ParseError) : Prop :=
  ∀ offset rest, ∃ c, p.runAt ⟨offset, bytes ++ rest⟩ = (.error e, c)

namespace Breaks

theorem throw (e : ParseError) (bytes : Bytes) : Breaks (throw e : Read α) bytes e := fun _ _ => ⟨_, rfl⟩

theorem lift {x : Except ParseError α} (h : x = .error e) (bytes : Bytes) : Breaks (liftM x : Read α) bytes e := by
  subst h
  exact throw e bytes

theorem append (h : Breaks p bytes e) (bytes' : Bytes) : Breaks p (bytes ++ bytes') e := by
  intro offset rest
  rw [List.append_assoc]
  exact h offset (bytes' ++ rest)

/-- What would be read next is not. -/
theorem bind (h : Breaks p bytes e) (f : α → Read β) : Breaks (p >>= f) bytes e := by
  intro offset rest
  rcases h offset rest with ⟨c, hc⟩
  exact ⟨c, by rw [runAt_bind, hc]⟩

end Breaks

/-- The fault stands behind what is read. -/
theorem Reads.bind_breaks (hp : Reads p bytes a) (hf : Breaks (f a) bytes' e) :
    Breaks (p >>= f) (bytes ++ bytes') e := by
  intro offset rest
  rcases hf (offset + bytes.length) rest with ⟨c, hc⟩
  refine ⟨c, ?_⟩
  rw [runAt_bind, List.append_assoc, hp]
  exact hc

theorem Breaks.lift_bind {x : Except ParseError α} (h : x = .ok a) (hf : Breaks (f a) bytes e) :
    Breaks (liftM x >>= f) bytes e := (Reads.lift h).bind_breaks hf

/-- The last step of a reader: what was read is at fault. -/
theorem Reads.bind_lift_breaks {look : α → Except ParseError β} (hp : Reads p bytes a) (h : look a = .error e) :
    Breaks (p >>= fun x => liftM (look x)) bytes e := by
  have hlast := hp.bind_breaks (f := fun x => liftM (look x)) (.lift h [])
  rwa [List.append_nil] at hlast

theorem breaks_repeated_head {n : Nat} (h : Breaks p bytes e) (bytes' : Bytes) :
    Breaks (repeated p (n + 1)) (bytes ++ bytes') e := (h.bind _).append bytes'

theorem breaks_repeated_tail {n : Nat} (hp : Reads p bytes a) (h : Breaks (repeated p n) bytes' e) :
    Breaks (repeated p (n + 1)) (bytes ++ bytes') e := hp.bind_breaks (h.bind _)

/-- `p` reads the bytes as `a`, unless they hold something too deep, where it stops. -/
structure ReadsUnless (p : Read α) (bytes : Bytes) (a : α) (deep : Prop) : Prop where
  reads : ¬ deep → Reads p bytes a
  breaks : deep → Breaks p bytes (.nestingTooDeep nestingLimit)

theorem ReadsUnless.congr (h : ReadsUnless p bytes a deep) (hdeep : deep ↔ deep') : ReadsUnless p bytes a deep' :=
  ⟨fun hnot => h.reads (hdeep.not.2 hnot), fun hdeep' => h.breaks (hdeep.2 hdeep')⟩

theorem Reads.bind_unless (hp : Reads p bytes a) (hf : ReadsUnless (f a) bytes' b deep) :
    ReadsUnless (p >>= f) (bytes ++ bytes') b deep :=
  ⟨fun hnot => hp.bind (hf.reads hnot), fun hdeep => hp.bind_breaks (hf.breaks hdeep)⟩

theorem ReadsUnless.lift_bind {x : Except ParseError α} (h : x = .ok a) (hf : ReadsUnless (f a) bytes b deep) :
    ReadsUnless (liftM x >>= f) bytes b deep := (Reads.lift h).bind_unless hf

theorem ReadsUnless.bind_pure (h : ReadsUnless p bytes a deep) {g : α → β} (hg : g a = b) :
    ReadsUnless (do let x ← p; return g x) bytes b deep :=
  ⟨fun hnot => (h.reads hnot).bind_pure hg, fun hdeep => (h.breaks hdeep).bind _⟩

/-- Reading in a row stops at the first that is too deep. -/
theorem ReadsUnless.repeated_cons {n : Nat} {as : List α} (h : ReadsUnless p bytes a deep)
    (hs : ReadsUnless (repeated p n) bytes' as deep') :
    ReadsUnless (repeated p (n + 1)) (bytes ++ bytes') (a :: as) (deep ∨ deep') := by
  refine ⟨fun hnot => ?_, fun hor => ?_⟩
  · rcases not_or.1 hnot with ⟨hfirst, hrest⟩
    exact reads_repeated_cons (h.reads hfirst) (hs.reads hrest)
  · by_cases hfirst : deep
    · exact breaks_repeated_head (h.breaks hfirst) bytes'
    · exact breaks_repeated_tail (h.reads hfirst) (hs.breaks (hor.resolve_left hfirst))

end Read

open Read

namespace Emit

variable {α β γ : Type} {pool : ConstantPool} {ctx : AttributeContext}

/-! ### Values -/

/-- What is written stops the reader, if all is found in the pool that was asked for. -/
def Fails (pool : ConstantPool) (p : Read α) (e : Emit) : Prop :=
  ∀ w : PoolWriter, pool.HasAll (e.run w).2 → Breaks p (e.run w).1 (.nestingTooDeep nestingLimit)

theorem breaks_count {n : Nat} (h : n ≤ 0xFFFF) {f : UInt16 → Read α} {bytes : Bytes} {e : ParseError}
    (hf : ∀ count, count.toNat = n → Breaks (f count) bytes e) : Breaks (Read.u2 >>= f) (u2 n ++ bytes) e := by
  refine (reads_u2 n).bind_breaks (hf _ ?_)
  rw [UInt16.toNat_ofNat', Nat.mod_eq_of_lt (by omega)]

mutual

theorem fails_value : (v : ElementValue) → (levels : Nat) → v.isWritable = true → levels < v.depth →
    Fails ctx.pool (ctx.value levels) (value v)
  | .byte _, _, _, hdeep | .char _, _, _, hdeep | .short _, _, _, hdeep | .int _, _, _, hdeep
  | .boolean _, _, _, hdeep | .long _, _, _, hdeep | .float _, _, _, hdeep | .double _, _, _, hdeep
  | .string _, _, _, hdeep | .enum _ _, _, _, hdeep | .classLiteral _, _, _, hdeep =>
    absurd hdeep (Nat.not_lt_zero _)
  | .nested _, 0, _, _ => fun _ _ => (reads_u1 (UInt8.ofNat '@'.toNat)).bind_breaks (.throw _ _)
  | .nested u, levels + 1, hwrite, hdeep => fun w hall =>
    (reads_u1 (UInt8.ofNat '@'.toNat)).bind_breaks ((fails_usage u (levels + 1) hwrite hdeep w hall).bind _)
  | .array _, 0, _, _ => fun _ _ => (reads_u1 (UInt8.ofNat '['.toNat)).bind_breaks (.throw _ _)
  | .array vs, levels + 1, hwrite, hdeep => fun w hall => by
    obtain ⟨hcount, hitems⟩ := Bool.and_eq_true_iff.1 hwrite
    refine (reads_u1 (UInt8.ofNat '['.toNat)).bind_breaks
      (breaks_count (of_decide_eq_true hcount) fun count hn => ?_)
    rw [hn]
    exact (fails_items vs levels hitems (Nat.lt_of_succ_lt_succ hdeep) w hall).bind _

/-- A usage that nests deeper than the reader goes stops it. -/
theorem fails_usage : (u : Usage) → (levels : Nat) → u.isWritable = true → levels < u.depth →
    Fails ctx.pool (ctx.usage levels) (usage u)
  | _, 0, _, _ => fun _ _ => .throw _ _
  | ⟨name, _, es⟩, levels + 1, hwrite, hdeep => fun w hall => by
    obtain ⟨hhead, helements⟩ := Bool.and_eq_true_iff.1 hwrite
    obtain ⟨hname, hcount⟩ := Bool.and_eq_true_iff.1 hhead
    have hread : Reads ctx.typeName _ name := spells_typeName hname w (hall.of_grows (grows_elements es _))
    show Breaks _ (((typeName name).run w).1 ++ u2 es.length ++
      ((elements es).run ((typeName name).run w).2).1) _
    rw [List.append_assoc]
    refine hread.bind_breaks (breaks_count (of_decide_eq_true hcount) fun count hn => ?_)
    rw [hn]
    exact (fails_elements es levels helements (Nat.lt_of_succ_lt_succ hdeep) _ hall).bind _

theorem fails_items : (vs : List ElementValue) → (levels : Nat) → itemsWritable vs = true →
    levels < itemsDepth vs → Fails ctx.pool (Read.repeated (ctx.value levels) vs.length) (items vs)
  | [], _, _, hdeep => absurd hdeep (Nat.not_lt_zero _)
  | v :: vs, levels, hwrite, hdeep => fun w hall => by
    obtain ⟨hv, hvs⟩ := Bool.and_eq_true_iff.1 hwrite
    have hall' : ctx.pool.HasAll ((value v).run w).2 := hall.of_grows (grows_items vs _)
    by_cases hfirst : levels < v.depth
    · exact breaks_repeated_head (fails_value v levels hv hfirst w hall') _
    · have hread := spells_value v levels hv (Nat.le_of_not_lt hfirst) w hall'
      have hrest : levels < itemsDepth vs := (lt_max_iff.1 hdeep).resolve_left hfirst
      exact breaks_repeated_tail hread (fails_items vs levels hvs hrest _ hall)

theorem fails_elements : (es : List (String × ElementValue)) → (levels : Nat) → elementsWritable es = true →
    levels < elementsDepth es → Fails ctx.pool (Read.repeated (do
      let name ← ctx.text
      let v ← ctx.value levels
      return (name, v)) es.length) (elements es)
  | [], _, _, hdeep => absurd hdeep (Nat.not_lt_zero _)
  | (name, v) :: es, levels, hwrite, hdeep => fun w hall => by
    obtain ⟨hv, hes⟩ := Bool.and_eq_true_iff.1 hwrite
    have hall' : ctx.pool.HasAll ((value v).run ((text name).run w).2).2 := hall.of_grows (grows_elements es _)
    have hname : Reads ctx.text _ name := spells_text name w (hall'.of_grows (grows_value v _))
    by_cases hfirst : levels < v.depth
    · exact breaks_repeated_head (hname.bind_breaks ((fails_value v levels hv hfirst _ hall').bind _)) _
    · have hread := spells_value v levels hv (Nat.le_of_not_lt hfirst) _ hall'
      have hrest : levels < elementsDepth es := (lt_max_iff.1 hdeep).resolve_left hfirst
      exact breaks_repeated_tail (hname.bind (hread.bind_pure rfl)) (fails_elements es levels hes hrest _ hall)

end

/-! ### Lists -/

/-- What is written is read as `a`, or stops the reader if it is too deep. -/
def SpellsUnless (pool : ConstantPool) (p : Read α) (e : Emit) (a : α) (deep : Prop) : Prop :=
  ∀ w : PoolWriter, pool.HasAll (e.run w).2 → ReadsUnless p (e.run w).1 a deep

variable {p : Read α} {e : γ → Emit} {f : γ → α} {deep : γ → Prop} {l : List γ}

theorem SpellsUnless.congr {e : Emit} {a : α} {deep deep' : Prop} (h : SpellsUnless pool p e a deep)
    (hdeep : deep ↔ deep') : SpellsUnless pool p e a deep' := fun w hall => (h w hall).congr hdeep

/-- A reader's result in another form. -/
theorem SpellsUnless.map {e : Emit} {a : α} {b : β} {g : α → β} {deep : Prop} (h : SpellsUnless pool p e a deep)
    (hg : g a = b) : SpellsUnless pool (do let x ← p; return g x) e b deep :=
  fun w hall => (h w hall).bind_pure hg

theorem spellsUnless_all (hgrows : ∀ x ∈ l, Grows (e x))
    (h : ∀ x ∈ l, SpellsUnless pool p (e x) (f x) (deep x)) :
    SpellsUnless pool (Read.repeated p l.length) (all (l.map e)) (l.map f) (∃ x ∈ l, deep x) := by
  induction l with
  | nil => exact fun _ _ => ⟨fun _ => .pure [], fun ⟨_, hx, _⟩ => nomatch hx⟩
  | cons x l ih =>
    have hgrows' : ∀ y ∈ l, Grows (e y) := fun y hy => hgrows y (List.mem_cons_of_mem _ hy)
    have hrest : Grows (all (l.map e)) := by
      refine grows_all fun e' he' => ?_
      obtain ⟨y, hy, rfl⟩ := List.mem_map.1 he'
      exact hgrows' y hy
    intro w hall
    refine (ReadsUnless.repeated_cons (h x (List.mem_cons_self ..) w (hall.of_grows (hrest _)))
      (ih hgrows' (fun y hy => h y (List.mem_cons_of_mem _ hy)) _ hall)).congr ?_
    simp

/-- A count, and as many items. -/
theorem spellsUnless_counted (hgrows : ∀ x ∈ l, Grows (e x))
    (h : ∀ x ∈ l, SpellsUnless pool p (e x) (f x) (deep x)) (hlen : l.length ≤ 0xFFFF) :
    SpellsUnless pool (do let count ← Read.u2; Read.repeated p count.toNat)
      (do let bytes ← all (l.map e); return u2 l.length ++ bytes) (l.map f) (∃ x ∈ l, deep x) := by
  intro w hall
  have hcount : (UInt16.ofNat l.length).toNat = l.length := by
    rw [UInt16.toNat_ofNat', Nat.mod_eq_of_lt (by omega)]
  refine (reads_u2 l.length).bind_unless ?_
  rw [hcount]
  exact spellsUnless_all hgrows h w hall

/-! ### Usages -/

theorem spellsUnless_usage {u : Usage} (hwrite : u.isWritable = true) :
    SpellsUnless ctx.pool (ctx.usage nestingLimit) (usage u) (u.keptAs ctx.retention) (nestingLimit < u.depth) :=
  fun w hall => ⟨fun hnot => spells_usage u nestingLimit hwrite (Nat.le_of_not_lt hnot) w hall,
    fun hdeep => fails_usage u nestingLimit hwrite hdeep w hall⟩

theorem spellsUnless_usages {us : List Usage} (hcount : us.length ≤ 0xFFFF)
    (hwrite : ∀ u ∈ us, u.isWritable = true) :
    SpellsUnless ctx.pool ctx.usages (usages us) (us.map (Usage.keptAs ctx.retention))
      (∃ u ∈ us, nestingLimit < u.depth) :=
  spellsUnless_counted (fun u _ => grows_usage u) (fun u hu => spellsUnless_usage (hwrite u hu)) hcount

theorem spellsUnless_parameterUsages {ps : List (List Usage)} (hlen : ps.length ≤ 0xFF)
    (hcount : ∀ us ∈ ps, (kept ctx.retention us).length ≤ 0xFFFF)
    (hwrite : ∀ us ∈ ps, ∀ u ∈ us, u.isWritable = true) :
    SpellsUnless ctx.pool ctx.parameters (parameterUsages ctx.retention ps)
      (ps.map fun us => (kept ctx.retention us).map (Usage.keptAs ctx.retention))
      (∃ us ∈ ps, ∃ u ∈ kept ctx.retention us, nestingLimit < u.depth) := by
  intro w hall
  have hn : (UInt8.ofNat ps.length).toNat = ps.length := by
    rw [UInt8.toNat_ofNat', Nat.mod_eq_of_lt (by omega)]
  show ReadsUnless _ ([UInt8.ofNat ps.length] ++
    ((all (ps.map fun us => usages (kept ctx.retention us))).run w).1) _ _
  refine (reads_u1 _).bind_unless ?_
  rw [hn]
  refine spellsUnless_all (fun us _ => grows_usages _) (fun us hus => ?_) w hall
  exact spellsUnless_usages (hcount us hus) fun u hu => hwrite us hus u (List.mem_filter.1 hu).1

/-! ### Attributes -/

theorem body_of_breaks {p : Read α} {bytes : Bytes} (h : Breaks p bytes (.nestingTooDeep nestingLimit)) :
    ctx.body p bytes = .error (.nestingTooDeep nestingLimit) := by
  rcases h 0 [] with ⟨c, hrun⟩
  rw [List.append_nil] at hrun
  unfold AttributeContext.body
  rw [show Cursor.start bytes = ⟨0, bytes⟩ from rfl, hrun]
  rfl

/-- An attribute is read as what its body holds, unless the body holds something too deep. -/
theorem spellsUnless_namedAttribute {owner : Attribute.Owner} {name : String} {body : Emit} {p : Read α} {a : α}
    {g : α → Attribute} {deep : Prop} (hmeasured : Measured body) (hsize : size body < 2 ^ 32)
    (hbody : ∀ bytes, Attribute.ofBody ctx.pool owner name bytes = (ctx.body p bytes).map g)
    (hread : SpellsUnless ctx.pool p body a deep) :
    SpellsUnless ctx.pool (Attribute.read ctx.pool owner) (namedAttribute name body) (g a) deep := by
  intro w hall
  refine ⟨fun hnot => ?_, fun hdeep => ?_⟩
  · refine spells_namedAttribute hmeasured hsize (fun w hall => ?_) w hall
    rw [hbody, body_of_reads ((hread w hall).reads hnot)]
    rfl
  have hlen : (UInt32.ofNat (body.run w).1.length).toNat = (body.run w).1.length := by
    rw [UInt32.toNat_ofNat', hmeasured.length_eq, Nat.mod_eq_of_lt hsize]
  have hname : ctx.pool.Has (.utf8 name) _ := has_intern hall
  have hfault : Attribute.ofBody ctx.pool owner name (body.run w).1 = .error (.nestingTooDeep nestingLimit) := by
    rw [hbody, body_of_breaks ((hread w (hall.of_grows (grows_text name _))).breaks hdeep)]
    rfl
  have hslice := reads_slice (body.run w).1
  rw [← hlen] at hslice
  show Breaks _ (((text name).run (body.run w).2).1 ++ Bytes.bigEndian 4 (body.run w).1.length ++
    (body.run w).1) _
  rw [List.append_assoc]
  exact (reads_index (.utf8 name) _).bind_breaks
    (.lift_bind hname ((reads_u4 _).bind_breaks (hslice.bind_lift_breaks hfault)))

/-- The usages on an item have a form in class files and their number one in attributes, however deep they nest. -/
structure HaveForm (us : List Usage) : Prop where
  writable : ∀ u ∈ us, u.isWritable = true
  count (retention : Retention) : (kept retention us).length ≤ 0xFFFF
  size (retention : Retention) : size (usages (kept retention us)) < 2 ^ 32

/-- The same of the usages on the parameters of a method. -/
structure ParametersHaveForm (ps : List (List Usage)) : Prop where
  length : ps.length ≤ 0xFF
  writable : ∀ us ∈ ps, ∀ u ∈ us, u.isWritable = true
  count (retention : Retention) : ∀ us ∈ ps, (kept retention us).length ≤ 0xFFFF
  size (retention : Retention) : size (parameterUsages retention ps) < 2 ^ 32

instance (us : List Usage) : Decidable (HaveForm us) :=
  decidable_of_iff ((∀ u ∈ us, u.isWritable = true) ∧
      ∀ retention, (kept retention us).length ≤ 0xFFFF ∧ Emit.size (usages (kept retention us)) < 2 ^ 32)
    ⟨fun h => ⟨h.1, fun r => (h.2 r).1, fun r => (h.2 r).2⟩, fun h => ⟨h.writable, fun r => ⟨h.count r, h.size r⟩⟩⟩

instance (ps : List (List Usage)) : Decidable (ParametersHaveForm ps) :=
  decidable_of_iff (ps.length ≤ 0xFF ∧ (∀ us ∈ ps, ∀ u ∈ us, u.isWritable = true) ∧
      ∀ retention, (∀ us ∈ ps, (kept retention us).length ≤ 0xFFFF) ∧
        Emit.size (parameterUsages retention ps) < 2 ^ 32)
    ⟨fun h => ⟨h.1, h.2.1, fun r => (h.2.2 r).1, fun r => (h.2.2 r).2⟩,
      fun h => ⟨h.length, h.writable, fun r => ⟨h.count r, h.size r⟩⟩⟩

variable {owner : Attribute.Owner}

theorem spellsUnless_annotations {us : List Usage} (h : HaveForm us) (retention : Retention) :
    SpellsUnless pool (Attribute.read pool owner)
      (namedAttribute (AttributeKind.annotationsName retention) (usages (kept retention us)))
      (.annotations ((kept retention us).map (Usage.keptAs retention)))
      (∃ u ∈ kept retention us, nestingLimit < u.depth) := by
  let ctx : AttributeContext := ⟨pool, AttributeKind.annotationsName retention, retention⟩
  have hread : SpellsUnless ctx.pool ctx.usages (usages (kept retention us)) _ _ :=
    spellsUnless_usages (h.count retention) fun u hu => h.writable u (List.mem_filter.1 hu).1
  exact spellsUnless_namedAttribute (measured_usages _) (h.size retention)
    (ofBody_annotations ctx owner rfl) hread

theorem spellsUnless_parameterAnnotations {ps : List (List Usage)} (h : ParametersHaveForm ps)
    (retention : Retention) :
    SpellsUnless pool (Attribute.read pool .method)
      (namedAttribute (AttributeKind.parameterAnnotationsName retention) (parameterUsages retention ps))
      (.parameterAnnotations (ps.map fun us => (kept retention us).map (Usage.keptAs retention)))
      (∃ us ∈ ps, ∃ u ∈ kept retention us, nestingLimit < u.depth) := by
  let ctx : AttributeContext := ⟨pool, AttributeKind.parameterAnnotationsName retention, retention⟩
  have hread : SpellsUnless ctx.pool ctx.parameters (parameterUsages retention ps) _ _ :=
    spellsUnless_parameterUsages h.length (h.count retention) h.writable
  exact spellsUnless_namedAttribute (measured_parameterUsages _ _) (h.size retention)
    (ofBody_parameterAnnotations ctx rfl) hread

end Emit

end ClassCatalog.ClassFile
