import ClassCatalog.Proofs.ClassFile.Takes

/-!
# What the bytes of an attribute hold

The format of annotations, said without a reader. `HoldsValue` and `HoldsUsage` relate bytes to what stands in
them, with every element, and `Attribute.Holds` says which attributes hold annotations and on which items.
Whatever a reader gives is what the bytes it takes hold (`Read.Gives`), so the contents of an attribute are
never anything but what its body holds (`Attribute.holds_of_ofBody`).
-/

namespace ClassCatalog.ClassFile

namespace Format

/-- The bytes are those of the items, one after the other. -/
inductive InRow {α : Type} (P : Bytes → α → Prop) : Bytes → List α → Prop
  | nil : InRow P [] []
  | cons {bytes rest : Bytes} {a : α} {as : List α} (head : P bytes a) (tail : InRow P rest as) :
    InRow P (bytes ++ rest) (a :: as)

/-- The two bytes of an index or a count. -/
def word (n : UInt16) : Bytes := Bytes.bigEndian 2 n.toNat

/-- A count of two bytes, then as many items. -/
inductive Counted {α : Type} (P : Bytes → α → Prop) : Bytes → List α → Prop
  | mk {count : UInt16} {bytes : Bytes} {as : List α} (row : InRow P bytes as)
    (length : as.length = count.toNat) : Counted P (word count ++ bytes) as

def tag (c : Char) : UInt8 := UInt8.ofNat c.toNat

end Format

open Format

mutual

/-- The bytes hold the value: a tag, then the indices of constants or what nests in it. -/
inductive HoldsValue (ctx : AttributeContext) : Bytes → ElementValue → Prop
  | byte {i v} (h : ctx.pool.integer i = .ok v) : HoldsValue ctx (tag 'B' :: word i) (.byte v.toInt8)
  | char {i v} (h : ctx.pool.integer i = .ok v) :
    HoldsValue ctx (tag 'C' :: word i) (.char (AttributeContext.charOfLowBits v))
  | int {i v} (h : ctx.pool.integer i = .ok v) : HoldsValue ctx (tag 'I' :: word i) (.int v)
  | short {i v} (h : ctx.pool.integer i = .ok v) : HoldsValue ctx (tag 'S' :: word i) (.short v.toInt16)
  | boolean {i v} (h : ctx.pool.integer i = .ok v) : HoldsValue ctx (tag 'Z' :: word i) (.boolean (v ≠ 0))
  | long {i v} (h : ctx.pool.long i = .ok v) : HoldsValue ctx (tag 'J' :: word i) (.long v)
  | float {i v} (h : ctx.pool.float i = .ok v) : HoldsValue ctx (tag 'F' :: word i) (.float v)
  | double {i v} (h : ctx.pool.double i = .ok v) : HoldsValue ctx (tag 'D' :: word i) (.double v)
  | string {i s} (h : ctx.pool.utf8 i = .ok s) : HoldsValue ctx (tag 's' :: word i) (.string s)
  | enum {i j descriptor typeName constant} (hdescriptor : ctx.pool.utf8 i = .ok descriptor)
    (htype : Descriptor.typeName descriptor = .ok typeName) (hconstant : ctx.pool.utf8 j = .ok constant) :
    HoldsValue ctx (tag 'e' :: (word i ++ word j)) (.enum typeName constant)
  | classLiteral {i descriptor typeName} (hdescriptor : ctx.pool.utf8 i = .ok descriptor)
    (htype : Descriptor.typeName descriptor = .ok typeName) :
    HoldsValue ctx (tag 'c' :: word i) (.classLiteral typeName)
  | nested {bytes u} (h : HoldsUsage ctx bytes u) : HoldsValue ctx (tag '@' :: bytes) (.nested u)
  | array {bytes vs} (h : Counted (HoldsValue ctx) bytes vs) : HoldsValue ctx (tag '[' :: bytes) (.array vs)

/-- The bytes hold the usage: its type, then its elements. -/
inductive HoldsUsage (ctx : AttributeContext) : Bytes → Usage → Prop
  | mk {i descriptor typeName bytes es} (hdescriptor : ctx.pool.utf8 i = .ok descriptor)
    (htype : Descriptor.typeName descriptor = .ok typeName) (h : Counted (HoldsElement ctx) bytes es) :
    HoldsUsage ctx (word i ++ bytes) ⟨typeName, ctx.retention, es⟩

/-- The bytes hold the element: its name, then its value. -/
inductive HoldsElement (ctx : AttributeContext) : Bytes → String × ElementValue → Prop
  | mk {i name bytes v} (hname : ctx.pool.utf8 i = .ok name) (h : HoldsValue ctx bytes v) :
    HoldsElement ctx (word i ++ bytes) (name, v)

end

/-- The bytes hold the usages on each parameter: the number of parameters in one byte, then a list for each. -/
inductive HoldsParameters (ctx : AttributeContext) : Bytes → List (List Usage) → Prop
  | mk {count : UInt8} {bytes : Bytes} {ps : List (List Usage)}
    (row : InRow (Counted (HoldsUsage ctx)) bytes ps) (length : ps.length = count.toNat) :
    HoldsParameters ctx (count :: bytes) ps

/-- What an attribute with this name and this body says of its owner. Annotations are told by the name of the
attribute, and those of parameters count for methods only. -/
inductive Attribute.Holds (pool : ConstantPool) : Attribute.Owner → String → Bytes → Attribute → Prop
  | annotations {owner body us} (retention : Retention)
    (h : Counted (HoldsUsage ⟨pool, AttributeKind.annotationsName retention, retention⟩) body us) :
    Holds pool owner (AttributeKind.annotationsName retention) body (.annotations us)
  | parameterAnnotations {body ps} (retention : Retention)
    (h : HoldsParameters ⟨pool, AttributeKind.parameterAnnotationsName retention, retention⟩ body ps) :
    Holds pool .method (AttributeKind.parameterAnnotationsName retention) body (.parameterAnnotations ps)
  | other {owner name body} (hname : ∀ retention, name ≠ AttributeKind.annotationsName retention)
    (hparameters : owner = .method → ∀ retention, name ≠ AttributeKind.parameterAnnotationsName retention) :
    Holds pool owner name body .other

/-! ### Readers give what the bytes hold -/

namespace Read

variable {α β : Type} {p : Read α} {f : α → Read β} {P : Bytes → α → Prop} {Q : Bytes → β → Prop}

/-- Whatever the reader gives, it gives for bytes that it takes and of which `P` holds. -/
def Gives (p : Read α) (P : Bytes → α → Prop) : Prop :=
  ∀ c a c', p.runAt c = (.ok a, c') → ∃ bytes, c.rest = bytes ++ c'.rest ∧ P bytes a

theorem gives_pure {a : α} (h : P [] a) : Gives (pure a) P := by
  intro c b c' hrun
  cases hrun
  exact ⟨[], rfl, h⟩

theorem gives_throw (e : ParseError) : Gives (throw e) P := fun _ _ _ hrun => nomatch hrun

theorem gives_lift (x : Except ParseError α) : Gives (liftM x) fun bytes a => bytes = [] ∧ x = .ok a := by
  cases x with
  | ok a => exact gives_pure ⟨rfl, rfl⟩
  | error e => exact gives_throw e

theorem Gives.bind (hp : Gives p P) (hf : ∀ a bytes, P bytes a → Gives (f a) fun rest b => Q (bytes ++ rest) b) :
    Gives (p >>= f) Q := by
  intro c b c' hrun
  rcases eq_ok_of_runAt_bind hrun with ⟨a, d, hfirst, hrest⟩
  rcases hp _ _ _ hfirst with ⟨bytes, hbytes, ha⟩
  rcases hf a bytes ha _ _ _ hrest with ⟨bytes', hbytes', hb⟩
  exact ⟨bytes ++ bytes', by rw [hbytes, hbytes', List.append_assoc], hb⟩

theorem Gives.map {g : α → β} (hp : Gives p P) (h : ∀ bytes a, P bytes a → Q bytes (g a)) :
    Gives (do let a ← p; return g a) Q := by
  refine hp.bind fun a bytes ha => gives_pure ?_
  rw [List.append_nil]
  exact h bytes a ha

theorem Gives.mono {P' : Bytes → α → Prop} (hp : Gives p P) (h : ∀ bytes a, P bytes a → P' bytes a) :
    Gives p P' := by
  intro c a c' hrun
  rcases hp c a c' hrun with ⟨bytes, hbytes, ha⟩
  exact ⟨bytes, hbytes, h bytes a ha⟩

theorem gives_slice (n : Nat) : Gives (slice n) fun bytes taken => bytes = taken ∧ taken.length = n := by
  intro c taken c' hrun
  rw [runAt_slice] at hrun
  cases hsplit : Bytes.splitAt? n c.rest with
  | none => simp [hsplit] at hrun
  | some split =>
    rw [hsplit] at hrun
    cases hrun
    rcases Bytes.splitAt?_eq_some_iff.1 hsplit with ⟨hrest, hlen⟩
    exact ⟨_, hrest, rfl, hlen⟩

theorem gives_u1 : Gives u1 fun bytes b => bytes = [b] := by
  refine (gives_slice 1).map ?_
  rintro bytes taken ⟨rfl, hlen⟩
  rcases List.length_eq_one_iff.1 hlen with ⟨b, rfl⟩
  simp [Bytes.ofBigEndian, Bytes.ofLittleEndian]

theorem gives_u2 : Gives u2 fun bytes n => bytes = word n := by
  refine (gives_slice 2).map ?_
  rintro bytes taken ⟨rfl, hlen⟩
  obtain ⟨b, d, rfl⟩ : ∃ b d, bytes = [b, d] := by
    rcases bytes with _ | ⟨b, _ | ⟨d, _ | _⟩⟩ <;> simp_all
  have hb := b.toNat_lt
  have hd := d.toNat_lt
  have hlt : d.toNat + 256 * b.toNat < 65536 := by omega
  have hhigh : (d.toNat + 256 * b.toNat) / 256 = b.toNat := by omega
  have hlow : UInt8.ofNat (d.toNat + 256 * b.toNat) = d := by
    rw [← UInt8.toNat_inj]
    simp
  simp [word, Bytes.bigEndian, Bytes.littleEndian, Bytes.ofBigEndian, Bytes.ofLittleEndian,
    Nat.mod_eq_of_lt hlt, hhigh, hlow]

theorem gives_repeated (hp : Gives p P) (n : Nat) :
    Gives (repeated p n) fun bytes as => InRow P bytes as ∧ as.length = n := by
  induction n with
  | zero => exact gives_pure ⟨.nil, rfl⟩
  | succ n ih =>
    refine hp.bind fun a bytes ha => ih.map ?_
    rintro rest as ⟨hrow, hlen⟩
    exact ⟨.cons ha hrow, by simp [hlen]⟩

/-- A count, then as many items. -/
theorem gives_counted (hp : Gives p P) :
    Gives (do let count ← u2; repeated p count.toNat) (Counted P) := by
  refine gives_u2.bind fun count bytes hcount => ?_
  subst hcount
  intro c as c' hrun
  rcases gives_repeated hp count.toNat c as c' hrun with ⟨rest, hrest, hrow, hlen⟩
  exact ⟨rest, hrest, .mk hrow hlen⟩

end Read

open Read

namespace AttributeContext

variable {ctx : AttributeContext}

/-- What is looked up under the next index. -/
theorem gives_lookup {α : Type} (look : UInt16 → Except ParseError α) :
    Gives (do let index ← Read.u2; look index) fun bytes a => ∃ i, bytes = word i ∧ look i = .ok a := by
  refine gives_u2.bind fun i bytes hbytes => (gives_lift (look i)).mono ?_
  rintro _ a ⟨rfl, ha⟩
  exact ⟨i, by rw [hbytes, List.append_nil], ha⟩

theorem gives_typeName : Gives ctx.typeName fun bytes name =>
    ∃ i descriptor, bytes = word i ∧ ctx.pool.utf8 i = .ok descriptor ∧
      Descriptor.typeName descriptor = .ok name := by
  refine (gives_lookup ctx.pool.utf8).bind fun descriptor _ htext => (gives_lift _).mono ?_
  rcases htext with ⟨i, rfl, hi⟩
  rintro _ name ⟨rfl, hname⟩
  exact ⟨i, descriptor, List.append_nil _, hi, hname⟩

theorem tag_eq {b : UInt8} {c : Char} (h : Char.ofNat b.toNat = c) : b = tag c := by
  have hlt := b.toNat_lt
  have hvalid : b.toNat.isValidChar := Or.inl (by omega)
  rw [tag, ← h, Char.ofNat, dif_pos hvalid]
  exact (UInt8.ofNat_toNat).symm

/-- A value that is one constant. -/
theorem gives_indexed {α : Type} {look : UInt16 → Except ParseError α} {g : α → ElementValue} {c : Char}
    (h : ∀ i a, look i = .ok a → HoldsValue ctx (tag c :: word i) (g a)) :
    Gives (do let i ← Read.u2; let a ← look i; return g a) fun bytes v => HoldsValue ctx (tag c :: bytes) v := by
  rw [← bind_assoc]
  refine (gives_lookup look).map ?_
  rintro _ a ⟨i, rfl, ha⟩
  exact h i a ha

theorem gives_integer {g : Int32 → ElementValue} {c : Char}
    (h : ∀ i a, ctx.pool.integer i = .ok a → HoldsValue ctx (tag c :: word i) (g a)) :
    Gives (do let v ← ctx.integer; return g v) fun bytes v => HoldsValue ctx (tag c :: bytes) v := by
  rw [integer, bind_assoc]
  exact gives_indexed h

theorem gives_enum : Gives (do
      let i ← Read.u2
      let j ← Read.u2
      let descriptor ← ctx.pool.utf8 i
      let typeName ← Descriptor.typeName descriptor
      let constant ← ctx.pool.utf8 j
      return .enum typeName constant) fun bytes v => HoldsValue ctx (tag 'e' :: bytes) v := by
  refine gives_u2.bind fun i _ hi => gives_u2.bind fun j _ hj => ?_
  refine (gives_lift _).bind fun descriptor _ hdescriptor => ?_
  refine (gives_lift _).bind fun typeName _ htype => ?_
  refine (gives_lift _).map fun _ constant hconstant => ?_
  rw [hi, hj, hdescriptor.1, htype.1, hconstant.1]
  simpa using HoldsValue.enum hdescriptor.2 htype.2 hconstant.2

/-- An element value holds what stands behind its tag, whatever reads what nests in it. -/
theorem gives_valueWith {usage items : Read ElementValue}
    (husage : Gives usage fun bytes v => HoldsValue ctx (tag '@' :: bytes) v)
    (hitems : Gives items fun bytes v => HoldsValue ctx (tag '[' :: bytes) v) :
    Gives (ctx.valueWith usage items) (HoldsValue ctx) := by
  refine gives_u1.bind fun b bytes hb => ?_
  subst hb
  split
  case h_14 => exact gives_throw _
  all_goals rename_i h; rw [tag_eq h]
  case h_1 => exact gives_integer fun _ _ => .byte
  case h_2 => exact gives_integer fun _ _ => .char
  case h_3 => exact gives_integer fun _ _ => .int
  case h_4 => exact gives_integer fun _ _ => .short
  case h_5 => exact gives_integer fun _ _ => .boolean
  case h_6 => exact gives_indexed fun _ _ => .long
  case h_7 => exact gives_indexed fun _ _ => .float
  case h_8 => exact gives_indexed fun _ _ => .double
  case h_9 =>
    refine (gives_lookup ctx.pool.utf8).map ?_
    rintro _ s ⟨i, rfl, hs⟩
    exact .string hs
  case h_10 => exact gives_enum
  case h_11 =>
    refine gives_typeName.map ?_
    rintro _ name ⟨i, descriptor, rfl, hdescriptor, htype⟩
    exact .classLiteral hdescriptor htype
  case h_12 => exact husage
  case h_13 => exact hitems

theorem gives_element {value : Read ElementValue} (hvalue : Gives value (HoldsValue ctx)) :
    Gives (do let name ← ctx.text; let v ← value; return (name, v)) (HoldsElement ctx) := by
  refine (gives_lookup ctx.pool.utf8).bind fun name _ hname => hvalue.map fun bytes v hv => ?_
  rcases hname with ⟨i, rfl, hname⟩
  exact .mk hname hv

theorem gives_usageWith {value : Read ElementValue} (hvalue : Gives value (HoldsValue ctx)) :
    Gives (ctx.usageWith value) (HoldsUsage ctx) := by
  refine gives_typeName.bind fun typeName _ htype => ?_
  rcases htype with ⟨i, descriptor, rfl, hdescriptor, htype⟩
  rw [← bind_assoc]
  exact (gives_counted (gives_element hvalue)).map fun bytes es hes => .mk hdescriptor htype hes

theorem gives_itemsWith {value : Read ElementValue} (hvalue : Gives value (HoldsValue ctx)) :
    Gives (itemsWith value) fun bytes v => HoldsValue ctx (tag '[' :: bytes) v := by
  rw [itemsWith, ← bind_assoc]
  exact (gives_counted hvalue).map fun bytes vs hvs => .array hvs

theorem gives_value (levels : Nat) : Gives (ctx.value levels) (HoldsValue ctx) := by
  induction levels with
  | zero => exact gives_valueWith (gives_throw _) (gives_throw _)
  | succ levels ih =>
    exact gives_valueWith ((gives_usageWith ih).map fun _ _ => .nested) (gives_itemsWith ih)

theorem gives_usage (levels : Nat) : Gives (ctx.usage levels) (HoldsUsage ctx) := by
  cases levels with
  | zero => exact gives_throw _
  | succ levels => exact gives_usageWith (gives_value levels)

theorem gives_usages : Gives ctx.usages (Counted (HoldsUsage ctx)) := gives_counted (gives_usage nestingLimit)

theorem gives_parameters : Gives ctx.parameters (HoldsParameters ctx) := by
  refine gives_u1.bind fun count _ hcount => ?_
  subst hcount
  intro c ps c' hrun
  rcases gives_repeated gives_usages count.toNat c ps c' hrun with ⟨bytes, hbytes, hrow, hlen⟩
  exact ⟨bytes, hbytes, .mk hrow hlen⟩

/-- A body is read to its last byte. -/
theorem holds_of_body {α : Type} {p : Read α} {P : Bytes → α → Prop} (hp : Gives p P) {bytes : Bytes} {a : α}
    (h : ctx.body p bytes = .ok a) : P bytes a := by
  unfold body at h
  cases hrun : p.runAt (Cursor.start bytes) with
  | mk result c =>
    rw [hrun] at h
    cases result with
    | error e => cases h
    | ok b =>
      by_cases hrest : c.rest = []
      · simp only [hrest, if_true] at h
        cases h
        rcases hp _ _ _ hrun with ⟨taken, htaken, ha⟩
        rw [hrest, List.append_nil] at htaken
        rwa [show bytes = taken from htaken]
      · simp [hrest] at h

end AttributeContext

/-- The four names and what they announce. -/
theorem AttributeKind.name_of_ofName (name : String) :
    match AttributeKind.ofName name with
    | .annotations retention => name = annotationsName retention
    | .parameterAnnotations retention => name = parameterAnnotationsName retention
    | .other => (∀ retention, name ≠ annotationsName retention) ∧
        ∀ retention, name ≠ parameterAnnotationsName retention := by
  unfold AttributeKind.ofName
  by_cases h₁ : name = annotationsName .runtime
  · rw [if_pos h₁]
    exact h₁
  by_cases h₂ : name = annotationsName .classFile
  · rw [if_neg h₁, if_pos h₂]
    exact h₂
  by_cases h₃ : name = parameterAnnotationsName .runtime
  · rw [if_neg h₁, if_neg h₂, if_pos h₃]
    exact h₃
  by_cases h₄ : name = parameterAnnotationsName .classFile
  · rw [if_neg h₁, if_neg h₂, if_neg h₃, if_pos h₄]
    exact h₄
  rw [if_neg h₁, if_neg h₂, if_neg h₃, if_neg h₄]
  constructor <;> intro retention <;> cases retention <;> assumption

theorem Attribute.map_eq_ok {α β : Type} {x : Except ParseError α} {g : α → β} {b : β} (h : x.map g = .ok b) :
    ∃ a, x = .ok a ∧ g a = b := by
  cases x with
  | ok a => exact ⟨a, rfl, Except.ok.inj h⟩
  | error e => nomatch h

/-- An attribute says what its body holds. -/
theorem Attribute.holds_of_ofBody {pool : ConstantPool} {owner : Attribute.Owner} {name : String} {body : Bytes}
    {a : Attribute} (h : Attribute.ofBody pool owner name body = .ok a) :
    Attribute.Holds pool owner name body a := by
  have hname := AttributeKind.name_of_ofName name
  unfold Attribute.ofBody at h
  cases hkind : AttributeKind.ofName name with
  | annotations retention =>
    rw [hkind] at h hname
    rcases map_eq_ok h with ⟨us, hbody, rfl⟩
    subst hname
    exact .annotations retention (AttributeContext.holds_of_body AttributeContext.gives_usages hbody)
  | parameterAnnotations retention =>
    rw [hkind] at h hname
    subst hname
    cases owner with
    | method =>
      rcases map_eq_ok h with ⟨ps, hbody, rfl⟩
      exact .parameterAnnotations retention
        (AttributeContext.holds_of_body AttributeContext.gives_parameters hbody)
    | classItself | field =>
      cases h
      refine .other (fun other => ?_) nofun
      cases retention <;> cases other <;> decide
  | other =>
    rw [hkind] at h hname
    cases owner <;> cases h <;> exact .other hname.1 fun _ => hname.2

end ClassCatalog.ClassFile
