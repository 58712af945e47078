/-!
# Finite maps ordered by name

`NameMap α` holds each name at most once, in increasing order of the names, and carries the proof
that it does. Two maps that answer every lookup alike are therefore equal (`NameMap.ext_find?`),
and listing a map needs no sorting. Names are compared by code point, which is also the order of
their UTF-8 bytes.
-/

namespace ClassCatalog

/-- A finite map from names, listed in strictly increasing order of the names. -/
structure NameMap (α : Type) where
  entries : List (String × α)
  sorted : entries.Pairwise (fun a b => a.1 < b.1)

namespace NameMap

variable {α β : Type}

/-! ### Lists of entries -/

/-- Puts `value` under `name`, in place of what was there before. -/
def insertEntry (name : String) (value : α) : List (String × α) → List (String × α)
  | [] => [(name, value)]
  | e :: rest =>
    if name < e.1 then (name, value) :: e :: rest
    else if name = e.1 then (name, value) :: rest
    else e :: insertEntry name value rest

/-- The first value under `name`. -/
def lookupEntry (name : String) : List (String × α) → Option α
  | [] => none
  | e :: rest => if name = e.1 then some e.2 else lookupEntry name rest

theorem lt_of_not_lt_of_ne {a b : String} (h : ¬ a < b) (hne : a ≠ b) : b < a := by
  rcases Decidable.em (b < a) with hlt | hlt
  · exact hlt
  · exact absurd (String.le_antisymm (String.not_lt.mp hlt) (String.not_lt.mp h)) hne

theorem mem_insertEntry {name : String} {value : α} {l : List (String × α)} {e : String × α}
    (h : e ∈ insertEntry name value l) : e = (name, value) ∨ e ∈ l := by
  induction l with
  | nil => simpa [insertEntry] using h
  | cons d rest ih =>
    rw [insertEntry] at h
    split at h
    · simpa using h
    · split at h
      · rcases List.mem_cons.mp h with h | h
        · exact Or.inl h
        · exact Or.inr (List.mem_cons_of_mem _ h)
      · rcases List.mem_cons.mp h with h | h
        · exact Or.inr (h ▸ List.mem_cons_self ..)
        · exact (ih h).imp_right (List.mem_cons_of_mem _)

theorem sorted_insertEntry (name : String) (value : α) {l : List (String × α)}
    (h : l.Pairwise (fun a b => a.1 < b.1)) :
    (insertEntry name value l).Pairwise (fun a b => a.1 < b.1) := by
  induction l with
  | nil => simp [insertEntry]
  | cons d rest ih =>
    obtain ⟨hd, hrest⟩ := List.pairwise_cons.mp h
    rw [insertEntry]
    split
    · rename_i hlt
      refine List.pairwise_cons.mpr ⟨fun e he => ?_, h⟩
      rcases List.mem_cons.mp he with rfl | he
      · exact hlt
      · exact String.lt_trans hlt (hd e he)
    · split
      · rename_i heq
        exact List.pairwise_cons.mpr ⟨fun e he => heq ▸ hd e he, hrest⟩
      · rename_i hlt hne
        refine List.pairwise_cons.mpr ⟨fun e he => ?_, ih hrest⟩
        rcases mem_insertEntry he with rfl | he
        · exact lt_of_not_lt_of_ne hlt hne
        · exact hd e he

theorem lookupEntry_insertEntry_self (name : String) (value : α) (l : List (String × α)) :
    lookupEntry name (insertEntry name value l) = some value := by
  induction l with
  | nil => simp [insertEntry, lookupEntry]
  | cons d rest ih =>
    rw [insertEntry]
    split
    · simp [lookupEntry]
    · split
      · simp [lookupEntry]
      · rename_i hne
        simpa [lookupEntry, hne] using ih

theorem lookupEntry_insertEntry_of_ne {name other : String} (hne : other ≠ name) (value : α)
    (l : List (String × α)) :
    lookupEntry other (insertEntry name value l) = lookupEntry other l := by
  induction l with
  | nil => simp [insertEntry, lookupEntry, hne]
  | cons d rest ih =>
    rw [insertEntry]
    split
    · simp [lookupEntry, hne]
    · split
      · rename_i heq
        simp [lookupEntry, hne, ← heq]
      · simp [lookupEntry, ih]

theorem lookupEntry_eq_none {name : String} {l : List (String × α)}
    (h : ∀ e ∈ l, name < e.1) : lookupEntry name l = none := by
  induction l with
  | nil => rfl
  | cons d rest ih =>
    have hd := h d (List.mem_cons_self ..)
    have hne : name ≠ d.1 := fun heq => String.lt_irrefl _ (heq ▸ hd)
    simpa [lookupEntry, hne] using ih fun e he => h e (List.mem_cons_of_mem _ he)

/-! ### Maps -/

def empty : NameMap α := ⟨[], List.Pairwise.nil⟩

instance : EmptyCollection (NameMap α) := ⟨empty⟩

instance : Inhabited (NameMap α) := ⟨empty⟩

instance [BEq α] : BEq (NameMap α) := ⟨fun a b => a.entries == b.entries⟩

theorem ext {a b : NameMap α} (h : a.entries = b.entries) : a = b := by
  cases a; cases b; cases h; rfl

instance [DecidableEq α] : DecidableEq (NameMap α) := fun a b =>
  decidable_of_iff (a.entries = b.entries) ⟨ext, fun h => h ▸ rfl⟩

def insert (m : NameMap α) (name : String) (value : α) : NameMap α :=
  ⟨insertEntry name value m.entries, sorted_insertEntry name value m.sorted⟩

def find? (m : NameMap α) (name : String) : Option α := lookupEntry name m.entries

def contains (m : NameMap α) (name : String) : Bool := (m.find? name).isSome

/-- The map without `name`. -/
def erase (m : NameMap α) (name : String) : NameMap α :=
  ⟨m.entries.filter (fun e => e.1 ≠ name), m.sorted.filter _⟩

/-- The entries whose name and value pass the test. -/
def filter (p : String → α → Bool) (m : NameMap α) : NameMap α :=
  ⟨m.entries.filter (fun e => p e.1 e.2), m.sorted.filter _⟩

/-- The names, in increasing order. -/
def names (m : NameMap α) : List String := m.entries.map (·.1)

/-- The values, in the order of their names. -/
def values (m : NameMap α) : List α := m.entries.map (·.2)

def size (m : NameMap α) : Nat := m.entries.length

def isEmpty (m : NameMap α) : Bool := m.entries.isEmpty

def map (f : α → β) (m : NameMap α) : NameMap β :=
  ⟨m.entries.map (fun e => (e.1, f e.2)), List.pairwise_map.mpr m.sorted⟩

/-- The map of a list of entries; of two entries with one name the later stays. -/
def ofList (l : List (String × α)) : NameMap α :=
  l.foldl (fun m e => m.insert e.1 e.2) empty

@[simp] theorem find?_empty (name : String) : (empty : NameMap α).find? name = none := rfl

@[simp] theorem find?_insert_self (m : NameMap α) (name : String) (value : α) :
    (m.insert name value).find? name = some value :=
  lookupEntry_insertEntry_self name value m.entries

theorem find?_insert_of_ne (m : NameMap α) {name other : String} (hne : other ≠ name) (value : α) :
    (m.insert name value).find? other = m.find? other :=
  lookupEntry_insertEntry_of_ne hne value m.entries

theorem find?_insert (m : NameMap α) (name other : String) (value : α) :
    (m.insert name value).find? other = if other = name then some value else m.find? other := by
  split
  · rename_i h; subst h; exact find?_insert_self ..
  · rename_i h; exact find?_insert_of_ne m h value

theorem lookupEntry_filter_ne (name other : String) (l : List (String × α)) :
    lookupEntry other (l.filter fun e => e.1 ≠ name) =
      if other = name then none else lookupEntry other l := by
  induction l with
  | nil => simp [lookupEntry]
  | cons e l ih =>
    by_cases he : e.1 = name
    · rw [List.filter_cons_of_neg (by simp [he]), ih, lookupEntry, he]
      split <;> rfl
    · rw [List.filter_cons_of_pos (by simp [he]), lookupEntry, lookupEntry, ih]
      by_cases ho : other = e.1
      · rw [if_pos ho, if_pos ho, if_neg (ho ▸ he)]
      · rw [if_neg ho, if_neg ho]

theorem find?_erase (m : NameMap α) (name other : String) :
    (m.erase name).find? other = if other = name then none else m.find? other :=
  lookupEntry_filter_ne name other m.entries

/-- Two sorted lists of entries that answer every lookup alike are equal. -/
theorem entries_ext : ∀ {l k : List (String × α)},
    l.Pairwise (fun a b => a.1 < b.1) → k.Pairwise (fun a b => a.1 < b.1) →
    (∀ name, lookupEntry name l = lookupEntry name k) → l = k
  | [], [], _, _, _ => rfl
  | [], e :: _, _, _, h => by simpa [lookupEntry] using h e.1
  | d :: _, [], _, _, h => by simpa [lookupEntry] using h d.1
  | d :: l, e :: k, hl, hk, h => by
    obtain ⟨hd, hl⟩ := List.pairwise_cons.mp hl
    obtain ⟨he, hk⟩ := List.pairwise_cons.mp hk
    have hname : d.1 = e.1 := by
      apply Classical.byContradiction
      intro hne
      rcases Decidable.em (d.1 < e.1) with hlt | hlt
      · have h1 := h d.1
        have : lookupEntry d.1 k = none :=
          lookupEntry_eq_none fun x hx => String.lt_trans hlt (he x hx)
        simp [lookupEntry, hne, this] at h1
      · have hlt := lt_of_not_lt_of_ne hlt hne
        have h1 := h e.1
        have : lookupEntry e.1 l = none :=
          lookupEntry_eq_none fun x hx => String.lt_trans hlt (hd x hx)
        simp [lookupEntry, Ne.symm hne, this] at h1
    have hvalue : d.2 = e.2 := by simpa [lookupEntry, hname] using h d.1
    have hrest : l = k := entries_ext hl hk fun name => by
      rcases Decidable.em (name = d.1) with heq | hne
      · subst heq
        rw [lookupEntry_eq_none hd, lookupEntry_eq_none fun x hx => hname ▸ he x hx]
      · have hne' : name ≠ e.1 := hname ▸ hne
        simpa [lookupEntry, hne, hne'] using h name
    rw [hrest, show d = e from Prod.ext hname hvalue]

/-- A map is determined by its lookups. -/
theorem ext_find? {a b : NameMap α} (h : ∀ name, a.find? name = b.find? name) : a = b :=
  ext (entries_ext a.sorted b.sorted h)

theorem erase_of_find?_eq_none {m : NameMap α} {name : String} (h : m.find? name = none) :
    m.erase name = m := by
  refine ext_find? fun other => ?_
  rw [find?_erase]
  split
  · rename_i heq
    rw [heq, h]
  · rfl

/-- What is taken out and put back is in its place. -/
theorem insert_erase {m : NameMap α} {name : String} {value : α} (h : m.find? name = some value) :
    (m.erase name).insert name value = m := by
  refine ext_find? fun other => ?_
  rw [find?_insert, find?_erase]
  split
  · rename_i heq
    rw [heq, h]
  · rfl

theorem erase_insert {m : NameMap α} {name : String} (h : m.find? name = none) (value : α) :
    (m.insert name value).erase name = m := by
  refine ext_find? fun other => ?_
  rw [find?_erase, find?_insert]
  split
  · rename_i heq
    rw [heq, h]
  · rfl

theorem exists_lookupEntry_of_mem {name : String} {l : List (String × α)}
    (h : name ∈ l.map (·.1)) : ∃ value, lookupEntry name l = some value := by
  induction l with
  | nil => simp at h
  | cons d rest ih =>
    rcases Decidable.em (name = d.1) with heq | hne
    · exact ⟨d.2, by simp [lookupEntry, heq]⟩
    · obtain ⟨value, hv⟩ := ih (by simpa [hne] using h)
      exact ⟨value, by simpa [lookupEntry, hne] using hv⟩

theorem mem_of_lookupEntry {name : String} {value : α} {l : List (String × α)}
    (h : lookupEntry name l = some value) : (name, value) ∈ l := by
  induction l with
  | nil => simp [lookupEntry] at h
  | cons d rest ih =>
    rw [lookupEntry] at h
    split at h
    · rename_i heq
      cases h
      simp [heq]
    · exact List.mem_cons_of_mem _ (ih h)

/-- The names of a map are those with a value. -/
theorem mem_names_iff {m : NameMap α} {name : String} :
    name ∈ m.names ↔ ∃ value, m.find? name = some value :=
  ⟨exists_lookupEntry_of_mem, fun ⟨_, h⟩ => List.mem_map.mpr ⟨_, mem_of_lookupEntry h, rfl⟩⟩

theorem pairwise_names (m : NameMap α) : m.names.Pairwise (· < ·) := List.pairwise_map.mpr m.sorted

theorem nodup_names (m : NameMap α) : m.names.Nodup := by
  refine List.pairwise_map.mpr (m.sorted.imp ?_)
  intro a b hlt heq
  exact String.lt_irrefl _ (heq ▸ hlt)

theorem lookupEntry_of_mem {name : String} {value : α} {l : List (String × α)}
    (hl : l.Pairwise fun a b => a.1 < b.1) (h : (name, value) ∈ l) :
    lookupEntry name l = some value := by
  induction l with
  | nil => simp at h
  | cons d rest ih =>
    obtain ⟨hd, hrest⟩ := List.pairwise_cons.mp hl
    rw [lookupEntry]
    rcases List.mem_cons.mp h with rfl | h
    · simp
    · have hlt : d.1 < name := hd _ h
      have hne : name ≠ d.1 := fun heq => String.lt_irrefl _ (heq ▸ hlt)
      rw [if_neg hne, ih hrest h]

/-- The values of a map are those under some name. -/
theorem mem_values_iff {m : NameMap α} {value : α} :
    value ∈ m.values ↔ ∃ name, m.find? name = some value := by
  rw [values, List.mem_map]
  constructor
  · rintro ⟨⟨name, _⟩, h, rfl⟩
    exact ⟨name, lookupEntry_of_mem m.sorted h⟩
  · rintro ⟨name, h⟩
    exact ⟨(name, value), mem_of_lookupEntry h, rfl⟩

theorem length_insertEntry_of_lookupEntry {name : String} {l : List (String × α)}
    (h : lookupEntry name l = none) (value : α) :
    (insertEntry name value l).length = l.length + 1 := by
  induction l with
  | nil => rfl
  | cons d rest ih =>
    rw [lookupEntry] at h
    rw [insertEntry]
    split at h
    · nomatch h
    · rename_i hne
      rw [if_neg hne]
      split
      · rfl
      · rw [List.length_cons, List.length_cons, ih h]

/-- A new name makes a map greater by one. -/
theorem size_insert {m : NameMap α} {name : String} (h : m.find? name = none) (value : α) :
    (m.insert name value).size = m.size + 1 := length_insertEntry_of_lookupEntry h value

theorem size_erase (m : NameMap α) (name : String) :
    m.size = (m.erase name).size + if m.contains name then 1 else 0 := by
  have hcontains : m.contains name = (m.find? name).isSome := rfl
  rw [hcontains]
  cases h : m.find? name with
  | none =>
    rw [erase_of_find?_eq_none h]
    rfl
  | some value =>
    have hfree : (m.erase name).find? name = none := by rw [find?_erase, if_pos rfl]
    have hsize := size_insert hfree value
    rw [insert_erase h] at hsize
    exact hsize

/-- Putting sorted entries into a map one after the other: they hide what the map held. -/
theorem find?_foldl_insert {l : List (String × α)} (h : l.Pairwise (fun a b => a.1 < b.1))
    (m : NameMap α) (name : String) :
    (l.foldl (fun m e => m.insert e.1 e.2) m).find? name =
      (lookupEntry name l).or (m.find? name) := by
  induction l generalizing m with
  | nil => rfl
  | cons d rest ih =>
    obtain ⟨hd, hrest⟩ := List.pairwise_cons.mp h
    rw [List.foldl_cons, ih hrest, find?_insert, lookupEntry]
    split
    · rename_i heq
      rw [heq, lookupEntry_eq_none hd]
      rfl
    · rfl

@[simp] theorem find?_map (f : α → β) (m : NameMap α) (name : String) :
    (m.map f).find? name = (m.find? name).map f := by
  show lookupEntry name (m.entries.map fun e => (e.1, f e.2)) = (lookupEntry name m.entries).map f
  induction m.entries with
  | nil => rfl
  | cons e rest ih =>
    rw [List.map_cons, lookupEntry, lookupEntry, ih]
    split <;> rfl

@[simp] theorem names_map (f : α → β) (m : NameMap α) : (m.map f).names = m.names := List.map_map ..

theorem map_insert (f : α → β) (m : NameMap α) (name : String) (value : α) :
    (m.insert name value).map f = (m.map f).insert name (f value) := by
  refine ext_find? fun other => ?_
  rw [find?_map, find?_insert, find?_insert, find?_map]
  split <;> rfl

theorem map_erase (f : α → β) (m : NameMap α) (name : String) :
    (m.erase name).map f = (m.map f).erase name := by
  refine ext_find? fun other => ?_
  rw [find?_map, find?_erase, find?_erase, find?_map]
  split <;> rfl

theorem insert_of_find? {m : NameMap α} {name : String} {value : α} (h : m.find? name = some value) :
    m.insert name value = m := by
  refine ext_find? fun other => ?_
  rw [find?_insert]
  split
  · rename_i heq
    rw [heq, h]
  · rfl

/-- A map is made up of its entries. -/
theorem ofList_entries (m : NameMap α) : ofList m.entries = m := by
  refine ext_find? fun name => ?_
  rw [ofList, find?_foldl_insert m.sorted, find?_empty, Option.or_none]
  rfl

end NameMap

end ClassCatalog
