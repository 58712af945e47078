import ClassCatalog.Annotation.Same

/-!
# What equality of annotations is

Two values are the same if they have one form, in which every zero is positive, and no NaN in it
(`ElementValue.same_iff`). So sameness is symmetric and transitive, and of values without NaN it is reflexive
(`Equates`). These laws carry over from the items to lists, and from the parts of a record to the record.
-/

namespace ClassCatalog

/-! ### Equality up to some values -/

/-- A Boolean relation that is symmetric and transitive, and reflexive where `plain` holds. -/
structure Equates {α : Type} (eq : α → α → Bool) (plain : α → Prop) : Prop where
  symm {a b : α} : eq a b = true → eq b a = true
  trans {a b c : α} : eq a b = true → eq b c = true → eq a c = true
  refl {a : α} : plain a → eq a a = true

namespace Equates

variable {α β γ : Type} {eq eq' : α → α → Bool} {plain plain' : α → Prop}

theorem of_form {form : α → β} (h : ∀ a b, eq a b = true ↔ form a = form b ∧ plain a)
    (hplain : ∀ {a b}, form a = form b → plain a → plain b) : Equates eq plain where
  symm hab := by
    obtain ⟨hform, ha⟩ := (h _ _).1 hab
    exact (h _ _).2 ⟨hform.symm, hplain hform ha⟩
  trans hab hbc := by
    obtain ⟨hform, ha⟩ := (h _ _).1 hab
    exact (h _ _).2 ⟨hform.trans ((h _ _).1 hbc).1, ha⟩
  refl ha := (h _ _).2 ⟨rfl, ha⟩

theorem beq [BEq α] [LawfulBEq α] : Equates (fun a b : α => a == b) fun _ => True where
  symm hab := beq_iff_eq.2 (beq_iff_eq.1 hab).symm
  trans hab hbc := beq_iff_eq.2 ((beq_iff_eq.1 hab).trans (beq_iff_eq.1 hbc))
  refl _ := beq_self_eq_true _

theorem mono (h : Equates eq plain) (hplain : ∀ a, plain' a → plain a) : Equates eq plain' :=
  ⟨h.symm, h.trans, fun ha => h.refl (hplain _ ha)⟩

theorem on (h : Equates eq plain) (part : γ → α) :
    Equates (fun x y => eq (part x) (part y)) fun x => plain (part x) :=
  ⟨h.symm, h.trans, h.refl⟩

theorem both (h : Equates eq plain) (h' : Equates eq' plain') :
    Equates (fun a b => eq a b && eq' a b) fun a => plain a ∧ plain' a where
  symm hab := by
    rw [Bool.and_eq_true] at hab ⊢
    exact ⟨h.symm hab.1, h'.symm hab.2⟩
  trans hab hbc := by
    rw [Bool.and_eq_true] at hab hbc ⊢
    exact ⟨h.trans hab.1 hbc.1, h'.trans hab.2 hbc.2⟩
  refl ha := by
    rw [Bool.and_eq_true]
    exact ⟨h.refl ha.1, h'.refl ha.2⟩

theorem list (h : Equates eq plain) : Equates (listSame eq) fun as => ∀ a ∈ as, plain a where
  symm {as bs} hab := by
    induction as generalizing bs with
    | nil =>
      cases bs with
      | nil => rfl
      | cons b bs => nomatch hab
    | cons a as ih =>
      cases bs with
      | nil => nomatch hab
      | cons b bs =>
        rw [listSame, Bool.and_eq_true] at hab ⊢
        exact ⟨h.symm hab.1, ih hab.2⟩
  trans {as bs cs} hab hbc := by
    induction as generalizing bs cs with
    | nil =>
      cases bs with
      | nil => exact hbc
      | cons b bs => nomatch hab
    | cons a as ih =>
      cases bs with
      | nil => nomatch hab
      | cons b bs =>
        cases cs with
        | nil => nomatch hbc
        | cons c cs =>
          rw [listSame, Bool.and_eq_true] at hab hbc ⊢
          exact ⟨h.trans hab.1 hbc.1, ih hab.2 hbc.2⟩
  refl {as} ha := by
    induction as with
    | nil => rfl
    | cons a as ih =>
      obtain ⟨ha, has⟩ := List.forall_mem_cons.1 ha
      rw [listSame, Bool.and_eq_true]
      exact ⟨h.refl ha, ih has⟩

end Equates

/-! ### Numbers -/

namespace Decimal.Format

variable {f : Format} {a b : Nat}

theorem isZero_zero (f : Format) : f.isZero 0 = true := by
  simp [isZero, biasedExponent, mantissa]

theorem not_isNaN_of_isZero (h : f.isZero a = true) : f.isNaN a = false := by
  unfold isZero at h
  rw [Bool.and_eq_true, beq_iff_eq, beq_iff_eq] at h
  simp [isNaN, h.2]

/-- The same number with a positive sign if it is zero. -/
def positiveZero (f : Format) (bits : Nat) : Nat := if f.isZero bits then 0 else bits

theorem isNaN_positiveZero (f : Format) (a : Nat) : f.isNaN (f.positiveZero a) = f.isNaN a := by
  unfold positiveZero
  split
  next hzero => rw [not_isNaN_of_isZero hzero, not_isNaN_of_isZero f.isZero_zero]
  next => rfl

theorem positiveZero_le (f : Format) (a : Nat) : f.positiveZero a ≤ a := by
  unfold positiveZero
  split
  · exact Nat.zero_le a
  · exact Nat.le_refl a

theorem toNat32_positiveZero (f : Format) (bits : UInt32) :
    (UInt32.ofNat (f.positiveZero bits.toNat)).toNat = f.positiveZero bits.toNat :=
  UInt32.toNat_ofNat_of_lt' (Nat.lt_of_le_of_lt (f.positiveZero_le _) bits.toNat_lt)

theorem toNat64_positiveZero (f : Format) (bits : UInt64) :
    (UInt64.ofNat (f.positiveZero bits.toNat)).toNat = f.positiveZero bits.toNat :=
  UInt64.toNat_ofNat_of_lt' (Nat.lt_of_le_of_lt (f.positiveZero_le _) bits.toNat_lt)

theorem same_iff : f.same a b = true ↔ f.positiveZero a = f.positiveZero b ∧ f.isNaN a = false := by
  unfold same positiveZero
  cases ha : f.isZero a with
  | true =>
    cases hb : f.isZero b with
    | true => simp [not_isNaN_of_isZero ha, not_isNaN_of_isZero hb]
    | false =>
      have hne : b ≠ 0 := fun h => by simp [h, isZero_zero] at hb
      have hne' : a ≠ b := fun h => by simp [h, hb] at ha
      simp [hne.symm, hne']
  | false =>
    cases hb : f.isZero b with
    | true =>
      have hne : a ≠ 0 := fun h => by simp [h, isZero_zero] at ha
      have hne' : a ≠ b := fun h => by simp [h, hb] at ha
      simp [hne, hne']
    | false =>
      constructor
      · intro h
        simp at h
        exact ⟨h.2, h.1.1⟩
      · rintro ⟨h, hnan⟩
        simp at h
        simp [← h, hnan]

end Decimal.Format

/-! ### Values -/

mutual

/-- The value with a positive sign at every zero in it. -/
def ElementValue.normal : ElementValue → ElementValue
  | .float bits => .float (.ofNat (Decimal.Format.single.positiveZero bits.toNat))
  | .double bits => .double (.ofNat (Decimal.Format.double.positiveZero bits.toNat))
  | .nested usage => .nested usage.normal
  | .array items => .array (normalItems items)
  | value => value

/-- The usage with a positive sign at every zero in it. -/
def Usage.normal : Usage → Usage
  | ⟨typeName, retention, elements⟩ => ⟨typeName, retention, normalElements elements⟩

/-- Applies `ElementValue.normal` to every item. -/
def normalItems : List ElementValue → List ElementValue
  | [] => []
  | value :: rest => value.normal :: normalItems rest

/-- Applies `ElementValue.normal` to every element's value. -/
def normalElements : List (String × ElementValue) → List (String × ElementValue)
  | [] => []
  | (name, value) :: rest => (name, value.normal) :: normalElements rest

end

mutual

/-- Whether some literal in a value is no number. -/
def ElementValue.hasNaN : ElementValue → Bool
  | .float bits => Decimal.Format.single.isNaN bits.toNat
  | .double bits => Decimal.Format.double.isNaN bits.toNat
  | .nested usage => usage.hasNaN
  | .array items => itemsHaveNaN items
  | _ => false

/-- Whether some literal in a usage is no number. -/
def Usage.hasNaN : Usage → Bool
  | ⟨_, _, elements⟩ => elementsHaveNaN elements

def itemsHaveNaN : List ElementValue → Bool
  | [] => false
  | value :: rest => value.hasNaN || itemsHaveNaN rest

def elementsHaveNaN : List (String × ElementValue) → Bool
  | [] => false
  | (_, value) :: rest => value.hasNaN || elementsHaveNaN rest

end

mutual

theorem ElementValue.hasNaN_normal : (a : ElementValue) → a.normal.hasNaN = a.hasNaN
  | .byte _ | .char _ | .short _ | .int _ | .long _ | .boolean _ | .string _ | .enum _ _
  | .classLiteral _ => rfl
  | .float bits => by
    rw [ElementValue.normal, ElementValue.hasNaN, ElementValue.hasNaN, Decimal.Format.toNat32_positiveZero,
      Decimal.Format.isNaN_positiveZero]
  | .double bits => by
    rw [ElementValue.normal, ElementValue.hasNaN, ElementValue.hasNaN, Decimal.Format.toNat64_positiveZero,
      Decimal.Format.isNaN_positiveZero]
  | .nested u => Usage.hasNaN_normal u
  | .array as => itemsHaveNaN_normal as

theorem Usage.hasNaN_normal : (u : Usage) → u.normal.hasNaN = u.hasNaN
  | ⟨_, _, es⟩ => elementsHaveNaN_normal es

theorem itemsHaveNaN_normal : (as : List ElementValue) → itemsHaveNaN (normalItems as) = itemsHaveNaN as
  | [] => rfl
  | a :: as => by
    rw [normalItems, itemsHaveNaN, itemsHaveNaN, ElementValue.hasNaN_normal a, itemsHaveNaN_normal as]

theorem elementsHaveNaN_normal : (es : List (String × ElementValue)) →
    elementsHaveNaN (normalElements es) = elementsHaveNaN es
  | [] => rfl
  | (name, a) :: es => by
    rw [normalElements, elementsHaveNaN, elementsHaveNaN, ElementValue.hasNaN_normal a,
      elementsHaveNaN_normal es]

end

mutual

/-- Two values are the same if they have one form and no NaN in it. -/
theorem ElementValue.same_iff : (a b : ElementValue) →
    (a.same b = true ↔ a.normal = b.normal ∧ a.hasNaN = false)
  | .byte _, b | .char _, b | .short _, b | .int _, b | .long _, b | .boolean _, b | .string _, b
  | .enum _ _, b | .classLiteral _, b => by
    cases b <;> simp [ElementValue.same, ElementValue.normal, ElementValue.hasNaN]
  | .float x, b => by
    cases b with
    | float y =>
      rw [ElementValue.same, Decimal.Format.same_iff, ElementValue.normal, ElementValue.normal, ElementValue.hasNaN,
        ElementValue.float.injEq, ← UInt32.toNat_inj, Decimal.Format.toNat32_positiveZero,
        Decimal.Format.toNat32_positiveZero]
    | _ => simp [ElementValue.same, ElementValue.normal]
  | .double x, b => by
    cases b with
    | double y =>
      rw [ElementValue.same, Decimal.Format.same_iff, ElementValue.normal, ElementValue.normal, ElementValue.hasNaN,
        ElementValue.double.injEq, ← UInt64.toNat_inj, Decimal.Format.toNat64_positiveZero,
        Decimal.Format.toNat64_positiveZero]
    | _ => simp [ElementValue.same, ElementValue.normal]
  | .nested u, b => by
    cases b with
    | nested v => simpa [ElementValue.same, ElementValue.normal, ElementValue.hasNaN] using Usage.same_iff u v
    | _ => simp [ElementValue.same, ElementValue.normal]
  | .array as, b => by
    cases b with
    | array bs => simpa [ElementValue.same, ElementValue.normal, ElementValue.hasNaN] using sameItems_iff as bs
    | _ => simp [ElementValue.same, ElementValue.normal]

theorem Usage.same_iff : (u v : Usage) → (u.same v = true ↔ u.normal = v.normal ∧ u.hasNaN = false)
  | ⟨_, _, es⟩, ⟨_, _, fs⟩ => by
    simp [Usage.same, Usage.normal, Usage.hasNaN, sameElements_iff es fs, and_assoc]

theorem sameItems_iff : (as bs : List ElementValue) →
    (sameItems as bs = true ↔ normalItems as = normalItems bs ∧ itemsHaveNaN as = false)
  | [], [] | [], _ :: _ | _ :: _, [] => by simp [sameItems, normalItems, itemsHaveNaN]
  | a :: as, b :: bs => by
    simp [sameItems, normalItems, itemsHaveNaN, ElementValue.same_iff a b, sameItems_iff as bs, and_and_and_comm]

theorem sameElements_iff : (es fs : List (String × ElementValue)) →
    (sameElements es fs = true ↔ normalElements es = normalElements fs ∧ elementsHaveNaN es = false)
  | [], [] | [], _ :: _ | _ :: _, [] => by simp [sameElements, normalElements, elementsHaveNaN]
  | (_, a) :: es, (_, b) :: fs => by
    simp [sameElements, normalElements, elementsHaveNaN, ElementValue.same_iff a b, sameElements_iff es fs,
      and_assoc, and_left_comm]

end

theorem Usage.equates : Equates Usage.same fun u => u.hasNaN = false :=
  .of_form Usage.same_iff fun {u v} hform hu => by rw [← Usage.hasNaN_normal, ← hform, Usage.hasNaN_normal, hu]

end ClassCatalog
