import ClassCatalog.Text.Split

/-!
# Cuts and what they are cuts of

Each cut is undone by putting its parts together again, and a text that is put together of parts without
the mark is cut into just these.
-/

namespace ClassCatalog.Text

variable {α : Type} [DecidableEq α] {mark : α}

theorem splitAll_eq_splitOn (mark : α) (text : List α) : splitAll mark text = text.splitOn mark := by
  induction text with
  | nil => rw [splitAll, List.splitOn_nil]
  | cons c rest ih =>
    rw [splitAll, ih, List.splitOn_eq_splitOnP, List.splitOn_eq_splitOnP,
      List.splitOnP_cons_eq_if_modifyHead]
    by_cases hc : c = mark
    · rw [if_pos hc, if_pos (beq_iff_eq.mpr hc)]
    · rw [if_neg hc, if_neg (fun h => hc (beq_iff_eq.mp h))]
      cases hparts : rest.splitOnP fun x => x == mark with
      | nil => exact absurd hparts (List.splitOnP_ne_nil _ rest)
      | cons part parts => rfl

theorem splitAll_ne_nil (mark : α) (text : List α) : splitAll mark text ≠ [] := by
  rw [splitAll_eq_splitOn]
  exact List.splitOn_ne_nil mark text

theorem splitAll_of_not_mem {text : List α} (h : mark ∉ text) : splitAll mark text = [text] := by
  rw [splitAll_eq_splitOn]
  exact List.splitOn_eq_singleton h

/-- At a mark the parts before it and those behind it meet. -/
theorem splitAll_append_cons (mark : α) (before after : List α) :
    splitAll mark (before ++ mark :: after) = splitAll mark before ++ splitAll mark after := by
  simp only [splitAll_eq_splitOn]
  exact List.splitOn_append_cons_self before after

/-- The text behind the last mark is the last part. -/
theorem splitAll_append {text last : List α} (h : mark ∉ last) :
    splitAll mark (text ++ mark :: last) = splitAll mark text ++ [last] := by
  rw [splitAll_append_cons, splitAll_of_not_mem h]

theorem intercalate_splitAll (mark : α) (text : List α) :
    [mark].intercalate (splitAll mark text) = text := by
  rw [splitAll_eq_splitOn]
  exact List.intercalate_splitOn mark

theorem splitAll_eq_singleton {text part : List α} (h : splitAll mark text = [part]) :
    part = text ∧ mark ∉ text := by
  have hpart := intercalate_splitAll mark text
  rw [h, List.intercalate_singleton] at hpart
  refine ⟨hpart, fun hmem => ?_⟩
  obtain ⟨before, after, rfl⟩ := List.append_of_mem hmem
  have hlength := congrArg List.length h
  have hbefore := List.length_pos_iff.mpr (splitAll_ne_nil mark before)
  have hafter := List.length_pos_iff.mpr (splitAll_ne_nil mark after)
  rw [splitAll_append_cons, List.length_append, List.length_singleton] at hlength
  omega

/-- Parts without the mark are the parts of what they are put together to. -/
theorem splitAll_intercalate {parts : List (List α)} (hfree : ∀ part ∈ parts, mark ∉ part)
    (hne : parts ≠ []) : splitAll mark ([mark].intercalate parts) = parts := by
  rw [splitAll_eq_splitOn]
  exact List.splitOn_intercalate mark hfree hne

theorem not_mem_of_mem_splitAll {text part : List α} (h : part ∈ splitAll mark text) : mark ∉ part := by
  induction text generalizing part with
  | nil => simp_all [splitAll]
  | cons c rest ih =>
    rw [splitAll] at h
    split at h
    · rcases List.mem_cons.1 h with rfl | h
      · exact List.not_mem_nil
      · exact ih h
    · rename_i hc
      cases hparts : splitAll mark rest with
      | nil => exact absurd hparts (splitAll_ne_nil mark rest)
      | cons first parts =>
        rw [hparts] at h ih
        rcases List.mem_cons.1 h with rfl | h
        · exact List.not_mem_cons_of_ne_of_not_mem (Ne.symm hc) (ih List.mem_cons_self)
        · exact ih (List.mem_cons_of_mem _ h)

theorem intercalate_append {β : Type} {mark : β} {parts more : List (List β)} (hparts : parts ≠ [])
    (hmore : more ≠ []) :
    [mark].intercalate (parts ++ more) =
      [mark].intercalate parts ++ mark :: [mark].intercalate more := by
  induction parts with
  | nil => exact absurd rfl hparts
  | cons part parts ih =>
    cases parts with
    | nil => simp [List.intercalate_cons_of_ne_nil hmore]
    | cons next parts =>
      have hrest := ih (List.cons_ne_nil next parts)
      rw [List.cons_append] at hrest
      simp [List.intercalate_cons_cons, hrest]

/-- A text has all the parts of another at its start if it is this text, or this text with a mark
and more behind it. -/
theorem splitAll_prefix_iff {start text : List α} :
    splitAll mark start <+: splitAll mark text ↔
      text = start ∨ ∃ rest, text = start ++ mark :: rest := by
  constructor
  · rintro ⟨more, hmore⟩
    have htext := intercalate_splitAll mark text
    rw [← hmore] at htext
    rcases Decidable.em (more = []) with rfl | hne
    · rw [List.append_nil, intercalate_splitAll] at htext
      exact .inl htext.symm
    · rw [intercalate_append (splitAll_ne_nil mark start) hne, intercalate_splitAll] at htext
      exact .inr ⟨_, htext.symm⟩
  · rintro (rfl | ⟨rest, rfl⟩)
    · exact List.prefix_refl _
    · rw [splitAll_append_cons]
      exact List.prefix_append _ _

theorem splitLast?_eq_none {mark : Char} {text : List Char} : splitLast? mark text = none ↔ mark ∉ text := by
  induction text with
  | nil => simp [splitLast?]
  | cons c rest ih =>
    rw [splitLast?, List.mem_cons, not_or, ← ih]
    cases splitLast? mark rest with
    | none => simp [eq_comm]
    | some cut => simp

theorem splitLast?_append {mark : Char} {before after : List Char} (h : mark ∉ after) :
    splitLast? mark (before ++ mark :: after) = some (before, after) := by
  induction before with
  | nil => simp [splitLast?, splitLast?_eq_none.2 h]
  | cons c before ih => rw [List.cons_append, splitLast?, ih]

theorem of_splitLast?_eq_some {mark : Char} {text before after : List Char}
    (h : splitLast? mark text = some (before, after)) : text = before ++ mark :: after ∧ mark ∉ after := by
  induction text generalizing before with
  | nil => nomatch h
  | cons c rest ih =>
    rw [splitLast?] at h
    cases hrest : splitLast? mark rest with
    | some cut =>
      rw [hrest] at h
      cases h
      obtain ⟨htext, hfree⟩ := ih hrest
      exact ⟨by rw [List.cons_append, ← htext], hfree⟩
    | none =>
      simp only [hrest] at h
      split at h
      · rename_i hmark
        cases h
        exact ⟨by rw [hmark, List.nil_append], splitLast?_eq_none.1 hrest⟩
      · nomatch h

theorem dropStart?_eq_some {start text rest : List Char} :
    dropStart? start text = some rest ↔ text = start ++ rest := by
  induction start generalizing text with
  | nil => simp [dropStart?, eq_comm]
  | cons a start ih =>
    cases text with
    | nil => simp [dropStart?]
    | cons c text =>
      rw [dropStart?]
      split
      · rename_i heq
        simp [heq, ih]
      · rename_i hne
        simp [Ne.symm hne]

theorem dropStart?_eq_none {start text : List Char} : dropStart? start text = none ↔ ¬ start <+: text := by
  rw [Option.eq_none_iff_forall_ne_some, List.prefix_iff_exists_eq_append, not_exists]
  exact forall_congr' fun rest => not_congr dropStart?_eq_some

theorem splitFirst?_start (mark after : List Char) : splitFirst? mark (mark ++ after) = some ([], after) := by
  cases mark with
  | nil => cases after <;> rfl
  | cons c mark =>
    have hdrop : dropStart? (c :: mark) (c :: mark ++ after) = some after := dropStart?_eq_some.2 rfl
    rw [List.cons_append, splitFirst?, ← List.cons_append, hdrop]

theorem splitFirst?_cons {mark rest : List Char} {c : Char} (h : ¬ mark <+: c :: rest) :
    splitFirst? mark (c :: rest) = (splitFirst? mark rest).map fun p => (c :: p.1, p.2) := by
  rw [splitFirst?, dropStart?_eq_none.2 h]

/-- A text is cut at a mark if none begins before it, not even one that reaches into it. -/
theorem splitFirst?_append {mark before after : List Char}
    (h : ∀ s, s <:+ before → s ≠ [] → ¬ mark <+: s ++ mark ++ after) :
    splitFirst? mark (before ++ mark ++ after) = some (before, after) := by
  induction before with
  | nil => exact splitFirst?_start mark after
  | cons c before ih =>
    have hhere := h _ (List.suffix_refl _) (List.cons_ne_nil c before)
    have hrest := ih fun s hs => h s (hs.trans (List.suffix_cons ..))
    rw [List.cons_append, List.cons_append] at hhere ⊢
    rw [splitFirst?_cons hhere, hrest, Option.map_some]

theorem of_splitFirst?_eq_some {mark text before after : List Char}
    (h : splitFirst? mark text = some (before, after)) :
    text = before ++ mark ++ after ∧ ∀ s, s <:+ before → s ≠ [] → ¬ mark <+: s ++ mark ++ after := by
  induction text generalizing before with
  | nil =>
    rw [splitFirst?] at h
    split at h
    · rename_i hmark
      cases h
      simp [hmark]
    · cases h
  | cons c rest ih =>
    by_cases hstart : mark <+: c :: rest
    · obtain ⟨behind, hbehind⟩ := hstart
      rw [← hbehind, splitFirst?_start] at h
      cases h
      exact ⟨hbehind.symm, fun s hs hne => absurd (List.suffix_nil.1 hs) hne⟩
    · rw [splitFirst?_cons hstart, Option.map_eq_some_iff] at h
      obtain ⟨⟨inner, behind⟩, hrest, heq⟩ := h
      cases heq
      obtain ⟨rfl, hfree⟩ := ih hrest
      refine ⟨rfl, fun s hs => ?_⟩
      rcases List.suffix_cons_iff.1 hs with rfl | hs
      · exact fun _ => hstart
      · exact hfree s hs

theorem splitFirst?_eq_none {mark text : List Char} : splitFirst? mark text = none ↔ ¬ mark <:+: text := by
  induction text with
  | nil =>
    rw [splitFirst?, List.infix_nil]
    split <;> simp [*]
  | cons c rest ih =>
    rw [splitFirst?, List.infix_cons_iff, not_or, ← dropStart?_eq_none, ← ih]
    cases dropStart? mark (c :: rest) with
    | some behind => simp
    | none => simp

end ClassCatalog.Text
