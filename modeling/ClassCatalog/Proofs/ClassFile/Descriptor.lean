import ClassCatalog.ClassFile.Descriptor

/-!
# Descriptors there and back

A descriptor is brackets and an element, a readable name a base and brackets, each in one way only
(`replicate_append_inj`, `stripBrackets_brackets`), so that elements and bases can be looked at alone. The
descriptor of a type with a readable name is read as that name (`typeName_ofTypeName`). Not every string is
the name of a type: `isTypeName` says which ones are. The other way round a descriptor that is read comes
back unless its class name is lost (`IsLost`).
-/

namespace ClassCatalog

namespace ClassName

/-- Writing one character for another changes a text exactly if it has the other. -/
theorem map_ite_eq_self_iff {a b : Char} (hne : a ≠ b) (text : List Char) :
    text.map (fun c => if c = a then b else c) = text ↔ a ∉ text := by
  constructor
  · intro h hmem
    rw [← h] at hmem
    obtain ⟨c, -, hc⟩ := List.mem_map.1 hmem
    split at hc
    · exact hne hc.symm
    · exact absurd hc ‹_›
  · intro h
    refine (List.map_congr_left fun c hc => if_neg ?_).trans (List.map_id _)
    rintro rfl
    exact h hc

theorem map_ite_map_ite (a b : Char) (text : List Char) :
    (text.map fun c => if c = b then a else c).map (fun c => if c = a then b else c) =
      text.map fun c => if c = a then b else c := by
  rw [List.map_map]
  refine List.map_congr_left fun c _ => ?_
  by_cases hb : c = b
  · simp [hb]
  · simp [hb]

theorem ofInternal_toInternal (name : String) : ofInternal (toInternal name) = ofInternal name := by
  unfold ofInternal toInternal
  rw [String.toList_ofList, map_ite_map_ite]

theorem toInternal_ofInternal (name : String) : toInternal (ofInternal name) = toInternal name := by
  unfold ofInternal toInternal
  rw [String.toList_ofList, map_ite_map_ite]

theorem ofInternal_eq_self_iff {name : String} : ofInternal name = name ↔ '/' ∉ name.toList := by
  rw [← String.toList_inj, ofInternal, String.toList_ofList, map_ite_eq_self_iff (by decide)]

theorem toInternal_eq_self_iff {name : String} : toInternal name = name ↔ '.' ∉ name.toList := by
  rw [← String.toList_inj, toInternal, String.toList_ofList, map_ite_eq_self_iff (by decide)]

theorem mem_toInternal_iff {name : String} {c : Char} (hdot : c ≠ '.') (hslash : c ≠ '/') :
    c ∈ (toInternal name).toList ↔ c ∈ name.toList := by
  unfold toInternal
  rw [String.toList_ofList, List.mem_map]
  constructor
  · rintro ⟨d, hd, rfl⟩
    split at hslash
    · exact absurd rfl hslash
    · rwa [if_neg ‹_›]
  · exact fun hc => ⟨c, hc, if_neg hdot⟩

end ClassName

namespace ClassFile.Descriptor

/-- Whether a name is that of a type: without its brackets it is not empty and has no slash and no
semicolon, and it is not an array of `void`. -/
def isTypeName (name : String) : Bool :=
  let stripped := stripBrackets name.toList.reverse
  let base := stripped.2.reverse
  !base.isEmpty && !base.contains '/' && !base.contains ';' &&
    (stripped.1 == 0 || base != "void".toList)

/-- The names of the primitive types, and `void`. -/
def keywords : List String :=
  ["byte", "char", "double", "float", "int", "long", "short", "boolean", "void"]

/-- What stands behind the brackets in the descriptor of a type with this name without brackets. -/
def elementOf (base : String) : List Char :=
  match primitiveLetter? base with
  | some letter => [letter]
  | none => if base = "void" then ['V'] else 'L' :: (ClassName.toInternal base).toList ++ [';']

variable {base : String} {element element' name text : List Char} {dimensions dimensions' : Nat}

/-! ### Brackets -/

theorem brackets_succ (dimensions : Nat) : brackets (dimensions + 1) = brackets dimensions ++ ['[', ']'] := by
  rw [brackets, brackets, List.replicate_succ', List.flatten_append]
  rfl

/-- A name is what is left of it without its brackets, and the brackets. -/
theorem stripBrackets_reverse (chars : List Char) :
    (stripBrackets chars).2.reverse ++ brackets (stripBrackets chars).1 = chars.reverse := by
  fun_induction stripBrackets chars with
  | case1 rest inner ih =>
    rw [brackets_succ, ← List.append_assoc, ih]
    simp
  | case2 chars _ => simp [brackets]

/-- Nothing is left to be taken off. -/
theorem not_suffix_stripBrackets (chars : List Char) : ¬ ['[', ']'] <:+ (stripBrackets chars).2.reverse := by
  fun_induction stripBrackets chars with
  | case1 rest inner ih => exact ih
  | case2 chars hother =>
    intro h
    obtain ⟨rest, hrest⟩ := List.reverse_prefix.2 h
    exact hother rest (by simpa using hrest.symm)

theorem stripBrackets_brackets (h : ¬ ['[', ']'] <:+ text) (dimensions : Nat) :
    stripBrackets (text ++ brackets dimensions).reverse = (dimensions, text.reverse) := by
  induction dimensions with
  | zero =>
    rw [show brackets 0 = [] from rfl, List.append_nil, stripBrackets.eq_def]
    split
    next rest hrest =>
      refine absurd ⟨rest.reverse, ?_⟩ h
      rw [← List.reverse_reverse text, hrest]
      simp
    next => rfl
  | succ dimensions ih =>
    rw [brackets_succ, ← List.append_assoc, List.reverse_append]
    show stripBrackets (']' :: '[' :: (text ++ brackets dimensions).reverse) = _
    rw [stripBrackets, ih]

/-- Brackets in front of an element are told from it. -/
theorem span_brackets (hhead : element.head? ≠ some '[') (dimensions : Nat) :
    (List.replicate dimensions '[' ++ element).takeWhile (· == '[') = List.replicate dimensions '[' ∧
      (List.replicate dimensions '[' ++ element).dropWhile (· == '[') = element := by
  have hbrackets : ∀ c ∈ List.replicate dimensions '[', (c == '[') = true := by
    intro c hc
    simpa using List.eq_of_mem_replicate hc
  rw [List.takeWhile_append_of_pos hbrackets, List.dropWhile_append_of_pos hbrackets]
  cases element with
  | nil => exact ⟨List.append_nil _, rfl⟩
  | cons c rest =>
    have hnone : (c :: rest).takeWhile (· == '[') = [] :=
      List.takeWhile_cons_of_neg (by simpa using hhead)
    exact ⟨by rw [hnone, List.append_nil], List.dropWhile_cons_of_neg (by simpa using hhead)⟩

theorem replicate_append_inj (hhead : element.head? ≠ some '[') (hhead' : element'.head? ≠ some '[') :
    List.replicate dimensions '[' ++ element = List.replicate dimensions' '[' ++ element' ↔
      dimensions = dimensions' ∧ element = element' := by
  refine ⟨fun h => ?_, fun ⟨hdimensions, helement⟩ => by rw [hdimensions, helement]⟩
  obtain ⟨htake, hdrop⟩ := span_brackets hhead dimensions
  obtain ⟨htake', hdrop'⟩ := span_brackets hhead' dimensions'
  rw [h, htake'] at htake
  rw [h, hdrop'] at hdrop
  exact ⟨by simpa using (congrArg List.length htake).symm, hdrop.symm⟩

/-- Every text is brackets and an element. -/
theorem exists_brackets (text : List Char) :
    ∃ dimensions element, text = List.replicate dimensions '[' ++ element ∧ element.head? ≠ some '[' := by
  refine ⟨(text.takeWhile (· == '[')).length, text.dropWhile (· == '['), ?_, fun h => ?_⟩
  · have htake : text.takeWhile (· == '[') = List.replicate (text.takeWhile (· == '[')).length '[' := by
      refine List.eq_replicate_of_mem fun c hc => ?_
      simpa using List.all_eq_true.1 List.all_takeWhile c hc
    rw [← htake, List.takeWhile_append_dropWhile]
  · have hnot := List.head?_dropWhile_not (· == '[') text
    rw [h] at hnot
    simp at hnot

theorem typeName_of_element (hhead : element.head? ≠ some '[') (dimensions : Nat) :
    typeName (String.ofList (List.replicate dimensions '[' ++ element)) =
      match elementName? dimensions element with
      | some base => .ok (base ++ String.ofList (brackets dimensions))
      | none => .error (.invalidDescriptor (String.ofList (List.replicate dimensions '[' ++ element))) := by
  obtain ⟨htake, hdrop⟩ := span_brackets hhead dimensions
  unfold typeName
  cases hname : elementName? dimensions element <;>
    simp only [String.toList_ofList, htake, hdrop, List.length_replicate, hname]

theorem ofTypeName_of_base (h : ¬ ['[', ']'] <:+ base.toList) (dimensions : Nat) :
    ofTypeName (base ++ String.ofList (brackets dimensions)) =
      String.ofList (List.replicate dimensions '[' ++ elementOf base) := by
  unfold ofTypeName
  rw [String.toList_append, String.toList_ofList, stripBrackets_brackets h]
  dsimp only
  rw [List.reverse_reverse, String.ofList_toList]
  rfl

/-! ### Elements -/

/-- A keyword stands for one letter, and the letter for it, but in arrays nothing stands for `void`. -/
theorem exists_letter (h : base ∈ keywords) : ∃ letter, elementOf base = [letter] ∧ letter ≠ '[' ∧
    (letter = 'V' ∧ base = "void" ∨ letter ≠ 'V' ∧ base ≠ "void" ∧ primitiveName? letter = some base) := by
  have hall : ∀ p ∈ primitives ++ [('V', "void")], elementOf p.2 = [p.1] ∧ p.1 ≠ '[' ∧
      (p.1 = 'V' ∧ p.2 = "void" ∨
        p.1 ≠ 'V' ∧ p.2 ≠ "void" ∧ primitiveName? p.1 = some p.2) := by decide
  have hkeywords : keywords = (primitives ++ [('V', "void")]).map (·.2) := rfl
  rw [hkeywords] at h
  obtain ⟨p, hp, rfl⟩ := List.mem_map.1 h
  exact ⟨p.1, hall p hp⟩

theorem elementName?_keyword (h : base ∈ keywords) (dimensions : Nat) :
    elementName? dimensions (elementOf base) = some base ↔ ¬ (base = "void" ∧ dimensions ≠ 0) := by
  obtain ⟨letter, helement, -, ⟨rfl, rfl⟩ | ⟨hletter, hbase, hname⟩⟩ := exists_letter h
  · rw [helement, elementName?, if_pos rfl]
    split <;> simp_all
  · rw [helement, elementName?, if_neg hletter, hname]
    simp [hbase]

theorem plain_of_keyword (h : base ∈ keywords) :
    base.toList ≠ [] ∧ '/' ∉ base.toList ∧ '.' ∉ base.toList ∧ ';' ∉ base.toList ∧
      ¬ ['[', ']'] <:+ base.toList := by
  have hall : ∀ base ∈ keywords, base.toList ≠ [] ∧ '/' ∉ base.toList ∧ '.' ∉ base.toList ∧
      ';' ∉ base.toList ∧ ¬ ['[', ']'] <:+ base.toList := by decide
  exact hall base h

theorem elementOf_class (h : base ∉ keywords) :
    elementOf base = 'L' :: (ClassName.toInternal base).toList ++ [';'] := by
  have hlisted : ∀ p ∈ primitives, p.2 ∈ keywords := by decide
  have hnone : primitiveLetter? base = none := by
    rw [primitiveLetter?, Option.map_eq_none_iff, List.find?_eq_none]
    intro p hp hname
    rw [beq_iff_eq] at hname
    exact h (hname ▸ hlisted p hp)
  have hvoid : base ≠ "void" := by
    rintro rfl
    exact h (by decide)
  rw [elementOf, hnone]
  exact if_neg hvoid

theorem head_elementOf (base : String) : (elementOf base).head? ≠ some '[' := by
  by_cases h : base ∈ keywords
  · obtain ⟨letter, helement, hbracket, -⟩ := exists_letter h
    simpa [helement] using hbracket
  · simp [elementOf_class h]

theorem elementName?_class : elementName? dimensions ('L' :: name ++ [';']) = some base ↔
    name ≠ [] ∧ ';' ∉ name ∧ ClassName.ofInternal (String.ofList name) = base := by
  unfold elementName?
  split
  next h =>
    have hlength := congrArg List.length h
    simp at hlength
  next =>
    rw [List.cons_append, classElement?, List.getLast?_concat, List.dropLast_concat]
    by_cases hname : name ≠ [] ∧ ';' ∉ name
    · simp [hname]
    · rw [if_neg fun h => hname h.2]
      simp only [Option.map_none, reduceCtorEq, false_iff]
      exact fun h => hname ⟨h.1, h.2.1⟩

/-- The element of a name without brackets is read as the name exactly if it is the name of a type. -/
theorem elementName?_elementOf (base : String) (dimensions : Nat) :
    elementName? dimensions (elementOf base) = some base ↔
      base.toList ≠ [] ∧ '/' ∉ base.toList ∧ ';' ∉ base.toList ∧ ¬ (base = "void" ∧ dimensions ≠ 0) := by
  by_cases h : base ∈ keywords
  · obtain ⟨hne, hslash, -, hsemicolon, -⟩ := plain_of_keyword h
    rw [elementName?_keyword h]
    simp only [hne, hslash, hsemicolon, ne_eq, not_false_eq_true, true_and]
  · have hvoid : base ≠ "void" := by
      rintro rfl
      exact h (by decide)
    have hempty : (ClassName.toInternal base).toList = [] ↔ base.toList = [] := by
      simp [ClassName.toInternal]
    rw [elementOf_class h, elementName?_class, String.ofList_toList, ClassName.ofInternal_toInternal,
      ClassName.ofInternal_eq_self_iff, ClassName.mem_toInternal_iff (by decide) (by decide)]
    simp only [hempty, hvoid, false_and, not_false_eq_true, and_true, ne_eq]
    exact ⟨fun ⟨hne, hsemicolon, hslash⟩ => ⟨hne, hslash, hsemicolon⟩,
      fun ⟨hne, hslash, hsemicolon⟩ => ⟨hne, hsemicolon, hslash⟩⟩

/-- What is read as a name is the element of a keyword or stands between `L` and `;`. -/
theorem elementName?_eq_some (h : elementName? dimensions element = some base) :
    base ∈ keywords ∧ element = elementOf base ∨ ∃ name, element = 'L' :: name ++ [';'] ∧
      base = ClassName.ofInternal (String.ofList name) := by
  have hlisted : ∀ p ∈ primitives, p.2 ∈ keywords ∧ elementOf p.2 = [p.1] := by decide
  unfold elementName? at h
  split at h
  next letter =>
    left
    split at h
    · rename_i hvoid
      split at h
      · cases h
        exact ⟨by decide, by rw [hvoid]; rfl⟩
      · cases h
    · obtain ⟨p, hfind, rfl⟩ := Option.map_eq_some_iff.1 h
      obtain ⟨hkeyword, helement⟩ := hlisted p (List.mem_of_find?_eq_some hfind)
      have hletter : p.1 = letter := by simpa using List.find?_some hfind
      exact ⟨hkeyword, by rw [helement, hletter]⟩
  next =>
    right
    obtain ⟨name, hclass, rfl⟩ := Option.map_eq_some_iff.1 h
    unfold classElement? at hclass
    split at hclass
    next rest _ =>
      split at hclass
      next hends =>
        cases hclass
        obtain ⟨front, rfl⟩ := List.getLast?_eq_some_iff.1 hends.1
        exact ⟨front, rfl, by rw [List.dropLast_concat]⟩
      next => cases hclass
    next => cases hclass

/-! ### There and back -/

/-- The descriptor of a name is read as the name exactly if it is the name of a type. -/
theorem typeName_ofTypeName_iff (h : ¬ ['[', ']'] <:+ base.toList) (dimensions : Nat) :
    typeName (ofTypeName (base ++ String.ofList (brackets dimensions))) =
        .ok (base ++ String.ofList (brackets dimensions)) ↔
      base.toList ≠ [] ∧ '/' ∉ base.toList ∧ ';' ∉ base.toList ∧ ¬ (base = "void" ∧ dimensions ≠ 0) := by
  rw [ofTypeName_of_base h, typeName_of_element (head_elementOf base), ← elementName?_elementOf]
  cases elementName? dimensions (elementOf base) with
  | none => simp
  | some name => simp [String.append_left_inj]

/-- Every name is a base and brackets. -/
theorem exists_base (name : String) : ∃ base dimensions, ¬ ['[', ']'] <:+ base.toList ∧
    name = base ++ String.ofList (brackets dimensions) := by
  refine ⟨String.ofList (stripBrackets name.toList.reverse).2.reverse,
    (stripBrackets name.toList.reverse).1, ?_, ?_⟩
  · rw [String.toList_ofList]
    exact not_suffix_stripBrackets _
  · rw [← String.ofList_append, stripBrackets_reverse, List.reverse_reverse, String.ofList_toList]

theorem isTypeName_of_base (h : ¬ ['[', ']'] <:+ base.toList) (dimensions : Nat) :
    isTypeName (base ++ String.ofList (brackets dimensions)) = true ↔
      base.toList ≠ [] ∧ '/' ∉ base.toList ∧ ';' ∉ base.toList ∧ ¬ (base = "void" ∧ dimensions ≠ 0) := by
  have hvoid : base = "void" ↔ base.toList = "void".toList := String.toList_inj.symm
  unfold isTypeName
  rw [String.toList_append, String.toList_ofList, stripBrackets_brackets h, hvoid]
  dsimp only
  rw [List.reverse_reverse]
  simp only [Bool.and_eq_true, Bool.or_eq_true, Bool.not_eq_true', List.isEmpty_eq_false_iff,
    List.contains_eq_mem, decide_eq_false_iff_not, beq_iff_eq, bne_iff_ne, and_assoc]
  rw [Decidable.not_and_iff_not_or_not, Decidable.not_not, or_comm]

/-- The descriptor of a type is read as the name of the type. -/
theorem typeName_ofTypeName {name : String} (h : isTypeName name = true) :
    typeName (ofTypeName name) = .ok name := by
  obtain ⟨base, dimensions, hbase, rfl⟩ := exists_base name
  exact (typeName_ofTypeName_iff hbase dimensions).2 ((isTypeName_of_base hbase dimensions).1 h)

/-- A class name whose descriptor does not come back from the readable name: it has a dot, its readable form
ends in brackets, or it is a keyword. -/
def IsLost (name : List Char) : Prop :=
  '.' ∈ name ∨ ['[', ']'] <:+ (ClassName.ofInternal (String.ofList name)).toList ∨
    String.ofList name ∈ keywords

theorem ofInternal_mem_keywords_iff {name : String} :
    ClassName.ofInternal name ∈ keywords ↔ name ∈ keywords := by
  constructor
  · intro h
    have hslash : '/' ∉ name.toList := fun hmem => by
      refine (plain_of_keyword h).2.2.1 ?_
      rw [ClassName.ofInternal, String.toList_ofList]
      exact List.mem_map.2 ⟨'/', hmem, rfl⟩
    rwa [ClassName.ofInternal_eq_self_iff.2 hslash] at h
  · intro h
    rwa [ClassName.ofInternal_eq_self_iff.2 (plain_of_keyword h).2.1]

theorem ofTypeName_class_iff (name : List Char) (dimensions : Nat) :
    ofTypeName (ClassName.ofInternal (String.ofList name) ++ String.ofList (brackets dimensions)) =
        String.ofList (List.replicate dimensions '[' ++ ('L' :: name ++ [';'])) ↔ ¬ IsLost name := by
  have hhead : ('L' :: name ++ [';']).head? ≠ some '[' := by simp
  unfold IsLost
  by_cases hsuffix : ['[', ']'] <:+ (ClassName.ofInternal (String.ofList name)).toList
  · -- The brackets of the class name are taken for dimensions.
    obtain ⟨base, more, hbase, hname⟩ := exists_base (ClassName.ofInternal (String.ofList name))
    have hmore : more ≠ 0 := by
      rintro rfl
      rw [hname] at hsuffix
      exact hbase (by simpa [brackets] using hsuffix)
    have hbrackets : brackets more ++ brackets dimensions = brackets (more + dimensions) := by
      rw [brackets, brackets, brackets, ← List.flatten_append, List.replicate_append_replicate]
    rw [hname, String.append_assoc, ← String.ofList_append, hbrackets, ofTypeName_of_base hbase,
      String.ofList_inj, replicate_append_inj (head_elementOf base) hhead, ← hname]
    simp only [hsuffix, true_or, or_true, not_true_eq_false, iff_false]
    omega
  · rw [ofTypeName_of_base hsuffix, String.ofList_inj, replicate_append_inj (head_elementOf _) hhead]
    simp only [hsuffix, true_and, false_or]
    by_cases hkeyword : String.ofList name ∈ keywords
    · obtain ⟨letter, helement, -⟩ := exists_letter (ofInternal_mem_keywords_iff.2 hkeyword)
      simp [helement, hkeyword]
    · rw [elementOf_class (mt ofInternal_mem_keywords_iff.1 hkeyword), ClassName.toInternal_ofInternal]
      have hdot := @ClassName.toInternal_eq_self_iff (String.ofList name)
      rw [← String.toList_inj, String.toList_ofList] at hdot
      simpa [hkeyword] using hdot

/-- What is read is brackets and an element, and its name that of the element with as many brackets. -/
theorem exists_of_typeName {descriptor name : String} (h : typeName descriptor = .ok name) :
    ∃ dimensions element base, descriptor = String.ofList (List.replicate dimensions '[' ++ element) ∧
      element.head? ≠ some '[' ∧ elementName? dimensions element = some base ∧
      name = base ++ String.ofList (brackets dimensions) := by
  obtain ⟨dimensions, element, hdescriptor, hhead⟩ := exists_brackets descriptor.toList
  obtain rfl : descriptor = String.ofList (List.replicate dimensions '[' ++ element) := by
    rw [← hdescriptor, String.ofList_toList]
  rw [typeName_of_element hhead] at h
  cases hbase : elementName? dimensions element with
  | none =>
    rw [hbase] at h
    cases h
  | some base =>
    rw [hbase] at h
    exact ⟨dimensions, element, base, rfl, hhead, hbase, (Except.ok.inj h).symm⟩

/-- A descriptor that is read comes back unless it is that of a class name that is lost. -/
theorem ofTypeName_typeName_iff {descriptor name : String} (h : typeName descriptor = .ok name) :
    ofTypeName name = descriptor ↔ ¬ ∃ dimensions className,
      descriptor.toList = List.replicate dimensions '[' ++ ('L' :: className ++ [';']) ∧
        IsLost className := by
  have hclass {className : List Char} : ('L' :: className ++ [';']).head? ≠ some '[' := by simp
  obtain ⟨dimensions, element, base, rfl, hhead, hbase, rfl⟩ := exists_of_typeName h
  rw [String.toList_ofList]
  rcases elementName?_eq_some hbase with ⟨hkeyword, rfl⟩ | ⟨className, rfl, rfl⟩
  · obtain ⟨letter, helement, -⟩ := exists_letter hkeyword
    rw [ofTypeName_of_base (plain_of_keyword hkeyword).2.2.2.2]
    simp only [true_iff]
    rintro ⟨dimensions', className, hdescriptor, -⟩
    rw [replicate_append_inj hhead hclass, helement] at hdescriptor
    simp at hdescriptor
  · refine (ofTypeName_class_iff className dimensions).trans (not_congr ⟨fun hlost => ?_, ?_⟩)
    · exact ⟨dimensions, className, rfl, hlost⟩
    · rintro ⟨dimensions', className', hdescriptor, hlost⟩
      rw [replicate_append_inj hhead hclass] at hdescriptor
      have hsame : className ++ [';'] = className' ++ [';'] := (List.cons.inj hdescriptor.2).2
      rwa [List.append_cancel_right hsame]

/-- Descriptors and type names are inverse where they can be. A descriptor that is read comes back from its
name unless it is that of a class name that is lost. A name is a base and brackets; it comes back from its
descriptor exactly if the base is not empty, has no slash and no semicolon, and is not `void` in an
array. -/
theorem inverse_where_they_can_be :
    (∀ descriptor name, typeName descriptor = .ok name →
      (ofTypeName name = descriptor ↔ ¬ ∃ dimensions className,
        descriptor.toList = List.replicate dimensions '[' ++ ('L' :: className ++ [';']) ∧
          IsLost className)) ∧
    (∀ name : String, ∃ base dimensions, name = base ++ String.ofList (brackets dimensions) ∧
      ¬ ['[', ']'] <:+ base.toList) ∧
    ∀ base dimensions, ¬ ['[', ']'] <:+ base.toList →
      let name := base ++ String.ofList (brackets dimensions)
      (typeName (ofTypeName name) = .ok name ↔
        base ≠ "" ∧ '/' ∉ base.toList ∧ ';' ∉ base.toList ∧ ¬ (base = "void" ∧ dimensions ≠ 0)) := by
  refine ⟨fun descriptor name => ofTypeName_typeName_iff, fun name => ?_, fun base dimensions hbase => ?_⟩
  · obtain ⟨base, dimensions, hbase, hname⟩ := exists_base name
    exact ⟨base, dimensions, hname, hbase⟩
  · have hempty : base ≠ "" ↔ base.toList ≠ [] := by simp
    rw [hempty]
    exact typeName_ofTypeName_iff hbase dimensions

-- A class with the name of a primitive type: its descriptor is read, and its name taken for the type.
example : typeName "[Lint;" = .ok "int[]" ∧ ofTypeName "int[]" = "[I" := ⟨rfl, by decide +kernel⟩

end ClassFile.Descriptor

end ClassCatalog
