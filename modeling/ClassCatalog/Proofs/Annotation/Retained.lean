import ClassCatalog.Annotation.Basic

/-!
# What class files keep of annotations

A class file says for the usages on an item how long they are kept, and nothing for those inside them:
read back, a nested usage is kept as long as the one around it (`Usage.keptAs`). A usage that repeats
no element name loses no element (`Usage.distinct_eq`), however long it is kept.
-/

namespace ClassCatalog

instance {p : Retention → Prop} [DecidablePred p] : Decidable (∀ retention, p retention) :=
  decidable_of_iff (p .runtime ∧ p .classFile)
    ⟨fun h => fun
      | .runtime => h.1
      | .classFile => h.2, fun h => ⟨h _, h _⟩⟩

mutual

/-- The value with every usage in it kept as long as `retention` says. -/
def ElementValue.keptAs (retention : Retention) : ElementValue → ElementValue
  | .nested usage => .nested (usage.keptAs retention)
  | .array items => .array (itemsKeptAs retention items)
  | value => value

/-- The usage and every usage in it kept as long as `retention` says. -/
def Usage.keptAs (retention : Retention) : Usage → Usage
  | ⟨typeName, _, elements⟩ => ⟨typeName, retention, elementsKeptAs retention elements⟩

/-- Applies `ElementValue.keptAs` to every item. -/
def itemsKeptAs (retention : Retention) : List ElementValue → List ElementValue
  | [] => []
  | value :: rest => value.keptAs retention :: itemsKeptAs retention rest

/-- Applies `ElementValue.keptAs` to every element's value. -/
def elementsKeptAs (retention : Retention) : List (String × ElementValue) → List (String × ElementValue)
  | [] => []
  | (name, value) :: rest => (name, value.keptAs retention) :: elementsKeptAs retention rest

end

/-! ### Repeated element names -/

theorem Elements.firsts_of_not_repeats {elements : List (String × ElementValue)} {seen : List String}
    (h : repeats elements = false) (hseen : ∀ e ∈ elements, e.1 ∉ seen) :
    firsts seen elements = elements := by
  induction elements generalizing seen with
  | nil => rfl
  | cons e rest ih =>
    rw [repeats, Bool.or_eq_false_iff] at h
    have hnot : ∀ e' ∈ rest, e'.1 ≠ e.1 := by
      intro e' he' heq
      have hholds : holds rest e.1 = true := List.any_eq_true.2 ⟨e', he', by simp [heq]⟩
      simp [hholds] at h
    rw [firsts, if_neg (by simpa using hseen e (List.mem_cons_self ..)), ih h.2]
    intro e' he' hmem
    obtain heq | hmem := List.mem_cons.1 hmem
    · exact hnot e' he' heq
    · exact hseen e' (List.mem_cons_of_mem _ he') hmem

mutual

theorem ElementValue.distinct_eq : (v : ElementValue) → v.repeatsName = false → v.distinct = v
  | .byte _, _ | .char _, _ | .short _, _ | .int _, _ | .long _, _ | .float _, _ | .double _, _
  | .boolean _, _ | .string _, _ | .enum _ _, _ | .classLiteral _, _ => rfl
  | .nested u, h => congrArg ElementValue.nested (Usage.distinct_eq u h)
  | .array vs, h => congrArg ElementValue.array (distinctItems_eq vs h)

/-- A usage that repeats no name loses no element. -/
theorem Usage.distinct_eq : (u : Usage) → u.repeatsName = false → u.distinct = u
  | ⟨name, retention, es⟩, h => by
    obtain ⟨hrepeats, hvalues⟩ := Bool.or_eq_false_iff.1 h
    rw [Usage.distinct, distinctElements_eq es hvalues,
      Elements.firsts_of_not_repeats hrepeats fun _ _ => List.not_mem_nil]

theorem distinctItems_eq : (vs : List ElementValue) → itemsRepeatName vs = false → distinctItems vs = vs
  | [], _ => rfl
  | v :: vs, h => by
    obtain ⟨hv, hvs⟩ := Bool.or_eq_false_iff.1 h
    rw [distinctItems, ElementValue.distinct_eq v hv, distinctItems_eq vs hvs]

theorem distinctElements_eq : (es : List (String × ElementValue)) → elementsRepeatName es = false →
    distinctElements es = es
  | [], _ => rfl
  | (name, v) :: es, h => by
    obtain ⟨hv, hes⟩ := Bool.or_eq_false_iff.1 h
    rw [distinctElements, ElementValue.distinct_eq v hv, distinctElements_eq es hes]

end

theorem holds_elementsKeptAs (retention : Retention) (es : List (String × ElementValue)) (name : String) :
    Elements.holds (elementsKeptAs retention es) name = Elements.holds es name := by
  induction es with
  | nil => rfl
  | cons e es ih =>
    rw [elementsKeptAs, Elements.holds, List.any_cons, Elements.holds, List.any_cons, ← Elements.holds, ih]
    rfl

theorem repeats_elementsKeptAs (retention : Retention) (es : List (String × ElementValue)) :
    Elements.repeats (elementsKeptAs retention es) = Elements.repeats es := by
  induction es with
  | nil => rfl
  | cons e es ih => rw [elementsKeptAs, Elements.repeats, Elements.repeats, holds_elementsKeptAs, ih]

mutual

theorem ElementValue.repeatsName_keptAs (retention : Retention) :
    (v : ElementValue) → (v.keptAs retention).repeatsName = v.repeatsName
  | .byte _ | .char _ | .short _ | .int _ | .long _ | .float _ | .double _ | .boolean _ | .string _
  | .enum _ _ | .classLiteral _ => rfl
  | .nested u => Usage.repeatsName_keptAs retention u
  | .array vs => itemsRepeatName_keptAs retention vs

/-- How long usages are kept has no bearing on their element names. -/
theorem Usage.repeatsName_keptAs (retention : Retention) :
    (u : Usage) → (u.keptAs retention).repeatsName = u.repeatsName
  | ⟨_, _, es⟩ => by
    rw [Usage.keptAs, Usage.repeatsName, Usage.repeatsName, repeats_elementsKeptAs,
      elementsRepeatName_keptAs retention es]

theorem itemsRepeatName_keptAs (retention : Retention) :
    (vs : List ElementValue) → itemsRepeatName (itemsKeptAs retention vs) = itemsRepeatName vs
  | [] => rfl
  | v :: vs => by
    rw [itemsKeptAs, itemsRepeatName, itemsRepeatName, ElementValue.repeatsName_keptAs retention v,
      itemsRepeatName_keptAs retention vs]

theorem elementsRepeatName_keptAs (retention : Retention) :
    (es : List (String × ElementValue)) →
      elementsRepeatName (elementsKeptAs retention es) = elementsRepeatName es
  | [] => rfl
  | (_, v) :: es => by
    rw [elementsKeptAs, elementsRepeatName, elementsRepeatName,
      ElementValue.repeatsName_keptAs retention v, elementsRepeatName_keptAs retention es]

end

end ClassCatalog
