import Mathlib.Algebra.Ring.Nat
import Mathlib.Data.List.Forall2
import ClassCatalog.Proofs.View.Winner

/-!
# What a merge keeps of every definition

`first_container_counts`: each name that some container defines is entered once, for the first that
does, and every further definition is noted as shadowed, in the order in which it stands. `Merged`
says what a merge has kept of the containers taken up so far; taking up one more extends it
(`Merged.step`).
-/

namespace ClassCatalog.View

variable {containers done rest : List ViewContainer} {c : ViewContainer} {name : String}

/-- The first container that defines a name, and where it stands. -/
def First (containers : List ViewContainer) (name : String) (position : Nat) (c : ViewContainer) :
    Prop :=
  containers[position]? = some c ∧ c.defines name = true ∧
    ∀ d ∈ containers.take position, d.defines name = false

/-- The container at a position defines a name that an earlier one defines. -/
def Hides (containers : List ViewContainer) (position : Nat) (name : String) : Prop :=
  ∃ c, containers[position]? = some c ∧ c.defines name = true ∧
    ∃ d ∈ containers.take position, d.defines name = true

/-- The entry of a shadowed definition names the container that counts and its own. -/
def Notes (containers : List ViewContainer) (hidden : Nat × String) (s : Shadowed) : Prop :=
  ∃ c d, containers[hidden.1]? = some c ∧
    (containers.find? fun d => d.defines hidden.2) = some d ∧ s = ⟨hidden.2, d.name, c.name⟩

theorem hides_append_singleton {position : Nat} : Hides (done ++ [c]) position name ↔
    Hides done position name ∨
      position = done.length ∧ c.defines name = true ∧ ∃ d ∈ done, d.defines name = true := by
  rcases Nat.lt_trichotomy position done.length with hlt | rfl | hgt
  · have htake : (done ++ [c]).take position = done.take position :=
      List.take_append_of_le_length (Nat.le_of_lt hlt)
    simp [Hides, htake, List.getElem?_append_left hlt, Nat.ne_of_lt hlt]
  · simp [Hides]
  · have hnone : (done ++ [c])[position]? = none :=
      List.getElem?_eq_none (by rw [List.length_append]; exact hgt)
    simp [Hides, hnone, List.getElem?_eq_none (Nat.le_of_lt hgt), Nat.ne_of_gt hgt]

/-! ### The definitions of one container -/

/-- The entry made for a name that was entered before. -/
def noteAt (containers : List ViewContainer) (position : Nat) (lookup : NameMap Nat)
    (name : String) : Shadowed :=
  let nameAt (p : Nat) : String := (containers[p]?.map ViewContainer.name).getD ""
  ⟨name, ((lookup.find? name).map nameAt).getD "", nameAt position⟩

theorem shadowed_foldl_define {names : List String} (hnodup : names.Nodup) (position : Nat)
    (m : Merge) : (names.foldl (Merge.define containers position) m).shadowed =
      m.shadowed ++ (names.filter m.lookup.contains).map (noteAt containers position m.lookup) := by
  induction names generalizing m with
  | nil => simp
  | cons name names ih =>
    obtain ⟨hname, hnodup⟩ := List.nodup_cons.mp hnodup
    -- No name comes twice, so entering this one decides nothing about those that follow.
    have hsame : ∀ other ∈ names,
        (m.define containers position name).lookup.find? other = m.lookup.find? other := by
      intro other hother
      have hne : other ≠ name := fun heq => hname (heq ▸ hother)
      rw [find?_define, if_neg hne, Option.or_none]
    have hfilter : names.filter (m.define containers position name).lookup.contains =
        names.filter m.lookup.contains :=
      List.filter_congr fun other hother => congrArg Option.isSome (hsame other hother)
    have hnote : ∀ other ∈ names.filter m.lookup.contains,
        noteAt containers position (m.define containers position name).lookup other =
          noteAt containers position m.lookup other := by
      intro other hother
      rw [noteAt, hsame other (List.mem_of_mem_filter hother)]
      rfl
    rw [List.foldl_cons, ih hnodup, hfilter, List.map_congr_left hnote, List.filter_cons]
    unfold Merge.define
    cases hfind : m.lookup.find? name with
    | none => simp [NameMap.contains, hfind]
    | some winner => simp [NameMap.contains, hfind, noteAt]

theorem size_foldl_define (names : List String) (position : Nat) (m : Merge) :
    (names.foldl (Merge.define containers position) m).lookup.size +
        (names.foldl (Merge.define containers position) m).shadowed.length =
      m.lookup.size + m.shadowed.length + names.length := by
  induction names generalizing m with
  | nil => rfl
  | cons name names ih =>
    rw [List.foldl_cons, ih, List.length_cons]
    have hdefine : (m.define containers position name).lookup.size +
        (m.define containers position name).shadowed.length =
          m.lookup.size + m.shadowed.length + 1 := by
      unfold Merge.define
      split
      · rename_i hfind
        rw [NameMap.size_insert hfind]
        dsimp only
        omega
      · simp only [List.length_append, List.length_singleton]
        omega
    omega

/-! ### All containers -/

/-- What a merge has kept of the containers taken up so far: the definitions hidden among them are
listed with the entries they led to. -/
structure Merged (containers done : List ViewContainer) (hidden : List (Nat × String)) (m : Merge) :
    Prop where
  lookup (name : String) : m.lookup.find? name = done.findIdx? fun c => c.defines name
  increasing : hidden.Pairwise (Prod.Lex (· < ·) (· < ·))
  mem_iff (position : Nat) (name : String) : (position, name) ∈ hidden ↔ Hides done position name
  notes : List.Forall₂ (Notes containers) hidden m.shadowed
  count : (done.map fun c => c.index.classes.size).sum = m.lookup.size + m.shadowed.length

theorem Merged.empty (containers : List ViewContainer) : Merged containers [] [] {} where
  lookup _ := rfl
  increasing := .nil
  mem_iff position name := by simp [Hides]
  notes := .nil
  count := rfl

/-- The names of a container that the containers before it define. -/
def hiddenNames (done : List ViewContainer) (c : ViewContainer) : List String :=
  c.index.classes.names.filter fun name => done.any fun d => d.defines name

theorem mem_hiddenNames_iff : name ∈ hiddenNames done c ↔
    c.defines name = true ∧ ∃ d ∈ done, d.defines name = true := by
  rw [hiddenNames, List.mem_filter, mem_names_iff_defines, List.any_eq_true]

theorem notes_noteAt {lookup : NameMap Nat}
    (hlookup : ∀ name, lookup.find? name = done.findIdx? fun c => c.defines name)
    (hcontainers : containers = done ++ c :: rest) (h : ∃ d ∈ done, d.defines name = true) :
    Notes containers (done.length, name) (noteAt containers done.length lookup name) := by
  cases hfirst : done.findIdx? fun c => c.defines name with
  | none =>
    obtain ⟨d, hd, hdefines⟩ := h
    exact absurd hdefines (by simp [List.findIdx?_eq_none_iff.mp hfirst d hd])
  | some first =>
    obtain ⟨hlt, hdefines, hbefore⟩ := List.findIdx?_eq_some_iff_getElem.mp hfirst
    have hc : containers[done.length]? = some c := by simp [hcontainers]
    have hd : containers[first]? = some done[first] := by
      rw [hcontainers, List.getElem?_append_left hlt, List.getElem?_eq_getElem hlt]
    refine ⟨c, done[first], hc, ?_, ?_⟩
    · rw [hcontainers, List.find?_append, List.find?_eq_bind_findIdx?_getElem?, hfirst]
      simp [hlt]
    · simp [noteAt, hlookup, hfirst, hc, hd]

theorem Merged.step {hidden : List (Nat × String)} {m : Merge}
    (h : Merged containers done hidden m) (hcontainers : containers = done ++ c :: rest) :
    Merged containers (done ++ [c]) (hidden ++ (hiddenNames done c).map (done.length, ·))
      (c.index.classes.names.foldl (Merge.define containers done.length) m) := by
  have hcontains : m.lookup.contains = fun name => done.any fun d => d.defines name := by
    funext name
    rw [NameMap.contains, h.lookup, List.findIdx?_isSome]
  have hshadowed : (c.index.classes.names.foldl (Merge.define containers done.length) m).shadowed =
      m.shadowed ++ (hiddenNames done c).map (noteAt containers done.length m.lookup) := by
    rw [shadowed_foldl_define (NameMap.nodup_names _), hcontains]
    rfl
  refine ⟨fun name => ?lookup, ?increasing, fun position name => ?mem, ?notes, ?count⟩
  case lookup =>
    rw [find?_foldl_define, h.lookup, List.findIdx?_append]
    congr 1
    simp only [mem_names_iff_defines, List.findIdx?_singleton]
    split <;> simp
  case increasing =>
    refine List.pairwise_append.mpr ⟨h.increasing, List.pairwise_map.mpr ?_, ?_⟩
    · refine ((NameMap.pairwise_names _).filter _).imp ?_
      intro a b hlt
      exact Prod.Lex.right _ hlt
    -- What was hidden before stands in a container of `done`, at a smaller position.
    · rintro ⟨position, name⟩ hmem b hb
      obtain ⟨other, -, rfl⟩ := List.mem_map.mp hb
      obtain ⟨d, hd, -⟩ := (h.mem_iff position name).mp hmem
      exact Prod.Lex.left _ _ (List.getElem?_eq_some_iff.mp hd).1
  case mem =>
    rw [hides_append_singleton, ← h.mem_iff, List.mem_append, List.mem_map, ← mem_hiddenNames_iff]
    simp only [Prod.mk.injEq]
    constructor
    · rintro (hmem | ⟨other, hother, rfl, rfl⟩)
      · exact .inl hmem
      · exact .inr ⟨rfl, hother⟩
    · rintro (hmem | ⟨rfl, hname⟩)
      · exact .inl hmem
      · exact .inr ⟨name, hname, rfl, rfl⟩
  case notes =>
    rw [hshadowed]
    refine List.rel_append h.notes ?_
    rw [List.forall₂_map_left_iff, List.forall₂_map_right_iff, List.forall₂_same]
    intro name hname
    obtain ⟨-, d, hd, hdefines⟩ := mem_hiddenNames_iff.mp hname
    exact notes_noteAt h.lookup hcontainers ⟨d, hd, hdefines⟩
  case count =>
    rw [size_foldl_define, ← h.count, List.map_append, List.sum_append, NameMap.names,
      List.length_map]
    rfl

theorem exists_merged {hidden : List (Nat × String)} {m : Merge}
    (h : Merged containers done hidden m) (hcontainers : containers = done ++ rest) :
    ∃ hidden', Merged containers containers hidden'
      (Merge.containersFrom containers done.length rest m) := by
  -- A container that is taken up moves from `rest` to the end of `done`.
  induction rest generalizing done hidden m with
  | nil =>
    rw [List.append_nil] at hcontainers
    exact ⟨hidden, hcontainers ▸ h⟩
  | cons c rest ih =>
    rw [Merge.containersFrom]
    obtain ⟨hidden', h'⟩ := ih (h.step hcontainers) (by simp [hcontainers])
    refine ⟨hidden', ?_⟩
    rw [List.length_append] at h'
    exact h'

theorem exists_first (h : name ∈ (ofContainers containers).classNames) :
    ∃ position c, First containers name position c ∧
      (ofContainers containers).lookup.find? name = some position := by
  obtain ⟨position, hposition⟩ := NameMap.mem_names_iff.mp h
  have hfirst := hposition
  rw [find?_lookup_ofContainers] at hfirst
  obtain ⟨hlt, hdefines, hbefore⟩ := List.findIdx?_eq_some_iff_getElem.mp hfirst
  refine ⟨position, containers[position], ⟨List.getElem?_eq_getElem hlt, hdefines, ?_⟩, hposition⟩
  intro d hd
  obtain ⟨earlier, hearlier, rfl⟩ := List.mem_take_iff_getElem.mp hd
  rw [Bool.eq_false_iff]
  exact hbefore earlier (by omega)

/-- Every name that some container defines is entered once, at the first position that defines it,
and its record and its container are those at that position. The definitions hidden by an earlier
one are noted by their positions and, of one container, by their names, each with the container that
counts and its own. No definition is lost. -/
theorem first_container_counts (containers : List ViewContainer) :
    let v := ofContainers containers
    v.classNames.Nodup ∧
    (∀ name, name ∈ v.classNames ↔ ∃ c ∈ containers, c.defines name = true) ∧
    (∀ name ∈ v.classNames, ∃ position c r, First containers name position c ∧
      v.lookup.find? name = some position ∧ v.containerOf? name = some c ∧
      c.index.classes.find? name = some r ∧ v.class? name = some r) ∧
    (∃ hidden : List (Nat × String), hidden.Pairwise (Prod.Lex (· < ·) (· < ·)) ∧
      (∀ position name, (position, name) ∈ hidden ↔ Hides containers position name) ∧
      List.Forall₂ (fun h s => ∃ c d, containers[h.1]? = some c ∧ v.containerOf? h.2 = some d ∧
        s = ⟨h.2, d.name, c.name⟩) hidden v.shadowed) ∧
    (containers.map fun c => c.index.classes.size).sum = v.lookup.size + v.shadowed.length := by
  intro v
  obtain ⟨hidden, h⟩ := exists_merged (Merged.empty containers) rfl
  refine ⟨NameMap.nodup_names _, fun name => ?names, fun name hname => ?first,
    ⟨hidden, h.increasing, h.mem_iff, ?notes⟩, h.count⟩
  case names =>
    rw [classNames, NameMap.mem_names_iff, ← Option.isSome_iff_exists, find?_lookup_ofContainers,
      List.findIdx?_isSome, List.any_eq_true]
  case first =>
    obtain ⟨position, c, hfirst, hposition⟩ := exists_first hname
    have hcontainer : v.containerOf? name = some c := by
      rw [containerOf?, hposition]
      exact hfirst.1
    obtain ⟨r, hr⟩ := Option.isSome_iff_exists.mp hfirst.2.1
    refine ⟨position, c, r, hfirst, hposition, hcontainer, hr, ?_⟩
    rw [class?, hcontainer]
    exact hr
  case notes =>
    refine h.notes.imp fun hidden s hs => ?_
    rw [containerOf?_ofContainers]
    exact hs

end ClassCatalog.View
