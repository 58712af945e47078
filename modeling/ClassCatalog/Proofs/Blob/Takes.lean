import ClassCatalog.Index.Blob

/-!
# What a reader takes

A reader that succeeds has taken some bytes off the front of its input, and it would have read the same of these
whatever came behind them (`Exact`). How deep element values may nest is told by the length of the input, and so a
reader of values is compared with all that may go down as many levels as it took bytes (`Takes`). Readers put together
of such readers are such, up to `exact_index`.
-/

namespace ClassCatalog.Blob.Get

variable {α β : Type}

/-- What `p` reads is read by `q` of the bytes that `p` takes, whatever comes behind them, given as many levels as
there are bytes. -/
structure Takes (p : Get α) (q : Nat → Get α) : Prop where
  exists_taken {bytes rest : Bytes} {a : α} (h : p bytes = .ok (a, rest)) : ∃ taken, bytes = taken ++ rest ∧
    ∀ levels, taken.length ≤ levels → ∀ more, q levels (taken ++ more) = .ok (a, more)

/-- Two reads in a row that succeed: how far the first one got. -/
theorem eq_ok_of_bind {p : Get α} {f : α → Get β} {bytes rest : Bytes} {b : β}
    (h : (p >>= f) bytes = .ok (b, rest)) : ∃ a others, p bytes = .ok (a, others) ∧ f a others = .ok (b, rest) := by
  change (p bytes >>= fun x => f x.1 x.2) = .ok (b, rest) at h
  cases hp : p bytes with
  | error e =>
    rw [hp] at h
    nomatch h
  | ok x =>
    rw [hp] at h
    exact ⟨x.1, x.2, rfl, h⟩

theorem bind_of_eq_ok {p : Get α} {bytes others : Bytes} {a : α} (h : p bytes = .ok (a, others)) (f : α → Get β) :
    (p >>= f) bytes = f a others := by
  change (p bytes >>= fun x => f x.1 x.2) = f a others
  rw [h]
  rfl

/-- Of the bytes that it takes, the reader reads the same whatever comes behind them. -/
abbrev Exact (p : Get α) : Prop := Takes p fun _ => p

namespace Takes

theorem pure (a : α) : Takes (pure a) fun _ => pure a := by
  constructor
  intro bytes rest b h
  cases h
  exact ⟨[], rfl, fun _ _ _ => rfl⟩

theorem throw (e : PayloadError) (q : Nat → Get α) : Takes (throw e) q := ⟨nofun⟩

theorem bind {p : Get α} {q : Nat → Get α} {f : α → Get β} {g : α → Nat → Get β} (hp : Takes p q)
    (hf : ∀ a, Takes (f a) (g a)) : Takes (p >>= f) fun levels => q levels >>= fun a => g a levels := by
  constructor
  intro bytes rest b h
  obtain ⟨a, others, hfirst, hsecond⟩ := eq_ok_of_bind h
  obtain ⟨taken, rfl, htaken⟩ := hp.exists_taken hfirst
  obtain ⟨taken', rfl, htaken'⟩ := (hf a).exists_taken hsecond
  refine ⟨taken ++ taken', by simp, fun levels hlevels more => ?_⟩
  simp only [List.length_append] at hlevels
  rw [List.append_assoc]
  exact (bind_of_eq_ok (htaken levels (by omega) _) _).trans (htaken' levels (by omega) more)

end Takes

/-! ### Bytes and texts -/

theorem exact_sliceOr (fault : PayloadError) (n : Nat) : Exact (sliceOr fault n) := by
  constructor
  intro bytes rest taken h
  unfold sliceOr at h
  cases hsplit : Bytes.splitAt? n bytes with
  | none =>
    rw [hsplit] at h
    nomatch h
  | some split =>
    rw [hsplit] at h
    cases h
    obtain ⟨rfl, rfl⟩ := Bytes.splitAt?_eq_some_iff.1 hsplit
    refine ⟨taken, rfl, fun _ _ more => ?_⟩
    simp only [sliceOr, Bytes.splitAt?_append]

theorem exact_number (width : Nat) : Exact (number width) :=
  (exact_sliceOr .endOfInput width).bind fun _ => .pure _

theorem exact_choice (count : Nat) : Exact (choice count) := by
  refine (exact_number 4).bind fun n => ?_
  split
  · exact .pure n
  · exact .throw _ _

theorem exact_byte : Exact byte := (exact_number 1).bind fun _ => .pure _

theorem exact_string : Exact string := by
  refine (exact_number 8).bind fun n => (exact_sliceOr .endOfString n).bind fun bytes => ?_
  cases Utf8.decode bytes with
  | ok s => exact .pure s
  | error fault => exact .throw _ _

theorem exact_bool : Exact bool := by
  refine exact_byte.bind fun b => ?_
  split
  · exact .pure _
  · split
    · exact .pure _
    · exact .throw _ _

theorem exact_unless {p : Get α} (hp : Exact p) (c : Prop) [Decidable c] (fault : PayloadError) :
    Exact (if c then throw fault >>= fun _ : PUnit => p else p) := by
  split
  · exact (Takes.throw fault fun _ => throw fault).bind fun _ => hp
  · exact hp

theorem exact_char : Exact char := by
  refine exact_byte.bind fun first => exact_unless ((exact_sliceOr ..).bind fun others => ?_) _ _
  split
  · exact .pure _
  · exact .throw _ _

/-! ### Options, lists and maps -/

section

variable {item : Get α} {item' : Nat → Get α} (h : Takes item item')
include h

theorem takes_option : Takes (option item) fun levels => option (item' levels) := by
  refine exact_byte.bind fun b => ?_
  split
  · exact .pure none
  · split
    · exact h.bind fun a => .pure _
    · exact .throw _ _

theorem takes_repeated (n : Nat) : Takes (repeated item n) fun levels => repeated (item' levels) n := by
  induction n with
  | zero => exact .pure []
  | succ n ih => exact h.bind fun first => ih.bind fun others => .pure (first :: others)

theorem takes_list : Takes (list item) fun levels => list (item' levels) :=
  (exact_number 8).bind fun n => takes_repeated h n

theorem takes_named : Takes (pair string item) fun levels => pair string (item' levels) :=
  exact_string.bind fun name => h.bind fun a => .pure (name, a)

theorem takes_map : Takes (map item) fun levels => map (item' levels) :=
  (takes_list (takes_named h)).bind fun _ => .pure _

end

/-! ### Element values and usages -/

theorem takes_usageWith {value : Get ElementValue} {value' : Nat → Get ElementValue} (h : Takes value value') :
    Takes (usageWith value) fun levels => usageWith (value' levels) := by
  have hretention : Exact retention := (exact_choice 2).bind fun _ => .pure _
  exact exact_string.bind fun _ => hretention.bind fun _ => (takes_list (takes_named h)).bind fun _ => .pure _

/-- The kind of a value takes bytes, and so there is one level less than bytes for what is nested in it. -/
theorem takes_kind {f : Nat → Get ElementValue} {g : Nat → Nat → Get ElementValue} {q : Nat → Get ElementValue}
    (hf : ∀ kind, Takes (f kind) (g kind))
    (hq : ∀ levels, q (levels + 1) = choice valueKinds >>= fun kind => g kind levels) :
    Takes (choice valueKinds >>= f) q := by
  constructor
  intro bytes rest v h
  obtain ⟨kind, others, hkind, hvalue⟩ := eq_ok_of_bind h
  obtain ⟨head, rfl, hhead⟩ := (exact_choice valueKinds).exists_taken hkind
  obtain ⟨taken, rfl, htaken⟩ := (hf kind).exists_taken hvalue
  have hpos : head ≠ [] := by
    rintro rfl
    nomatch hhead 0 (Nat.le_refl 0) []
  refine ⟨head ++ taken, by simp, fun levels hlevels more => ?_⟩
  have hlength := List.length_pos_iff.2 hpos
  rw [List.length_append] at hlevels
  obtain ⟨levels, rfl⟩ : ∃ n, levels = n + 1 := ⟨levels - 1, by omega⟩
  rw [List.append_assoc, hq]
  exact (bind_of_eq_ok (hhead _ (Nat.le_refl _) _) _).trans (htaken levels (by omega) more)

theorem takes_value (n : Nat) : Takes (value n) value := by
  induction n with
  | zero => exact .throw _ _
  | succ n ih =>
    refine takes_kind (fun kind => ?_) fun levels => rfl
    split
    · exact exact_byte.bind fun _ => .pure _
    · exact exact_char.bind fun _ => .pure _
    · exact (exact_number 2).bind fun _ => .pure _
    · exact (exact_number 4).bind fun _ => .pure _
    · exact (exact_number 8).bind fun _ => .pure _
    · exact (exact_number 4).bind fun _ => .pure _
    · exact (exact_number 8).bind fun _ => .pure _
    · exact exact_bool.bind fun _ => .pure _
    · exact exact_string.bind fun _ => .pure _
    · exact exact_string.bind fun _ => exact_string.bind fun _ => .pure _
    · exact exact_string.bind fun _ => .pure _
    · exact (takes_usageWith ih).bind fun _ => .pure _
    · exact (takes_list ih).bind fun _ => .pure _

theorem exact_usage : Exact usage := by
  constructor
  intro bytes rest u h
  obtain ⟨taken, rfl, htaken⟩ := (takes_usageWith (takes_value bytes.length)).exists_taken h
  refine ⟨taken, rfl, fun _ _ more => ?_⟩
  exact htaken (taken ++ more).length (by simp) more

/-! ### Records and indexes -/

theorem exact_record : Exact record := by
  have husages : Exact (list usage) := takes_list exact_usage
  exact exact_string.bind fun _ => (takes_option exact_string).bind fun _ => (takes_list exact_string).bind fun _ =>
    (exact_number 2).bind fun _ => husages.bind fun _ => (takes_map husages).bind fun _ =>
      (takes_map husages).bind fun _ => (takes_map (takes_list husages)).bind fun _ => exact_bool.bind fun _ => .pure _

theorem exact_identity : Exact identity :=
  exact_string.bind fun _ => (exact_number 8).bind fun _ => (exact_number 8).bind fun _ =>
    (takes_option exact_string).bind fun _ => .pure _

theorem exact_index : Exact Get.index :=
  exact_identity.bind fun _ => (takes_map exact_record).bind fun _ => exact_bool.bind fun _ =>
    (takes_list (takes_named exact_string)).bind fun _ => .pure _

end ClassCatalog.Blob.Get
