import Mathlib.Algebra.Order.BigOperators.Group.Finset
import Mathlib.Data.List.Dedup
import ClassCatalog.Proofs.ClassFile.Pool

/-!
# One index for each constant

What a sequence of requests leaves in a writer are the constants that the requests need, each once
(`PoolWriter.askeds_serve`), so the slots can be counted before anything is written
(`PoolWriter.slotCount_serve`). A constant that is found under an index is the only one that is
(`ConstantPool.Has.unique`). With what `PoolWriter.Holds` says of the bytes, indexes and constants belong
together one by one after every request (`PoolWriter.indexes_stay_consistent`).
-/

namespace ClassCatalog.ClassFile

namespace ConstantPool

/-! ### What a slot is found to hold -/

variable {pool : ConstantPool} {i : UInt16} {key key' : PoolKey}

/-- The constant that is found where a slot has this content. -/
def keyOf? (pool : ConstantPool) : Constant → Option PoolKey
  | .utf8 text => some (.utf8 text)
  | .classRef nameIndex => (pool.utf8 nameIndex).toOption.map .classRef
  | .integer v => some (.integer v)
  | .float bits => some (.float bits)
  | .long v => some (.long v)
  | .double bits => some (.double bits)
  | .other | .unusable => none

theorem Has.slot (h : pool.Has key i) : ∃ c, pool.slots[i.toNat]? = some c ∧ pool.keyOf? c = some key := by
  cases key with
  | classRef internal =>
    obtain ⟨nameIndex, hslot, hname⟩ := className_eq_ok.1 h
    exact ⟨_, hslot, by simp [keyOf?, hname, Except.toOption]⟩
  | _ =>
    obtain ⟨c, hslot, hselect⟩ := lookup_eq_ok.1 h
    refine ⟨c, hslot, ?_⟩
    cases c <;> first | cases hselect; rfl | cases hselect

theorem Has.unique (h : pool.Has key i) (h' : pool.Has key' i) : key = key' := by
  obtain ⟨c, hslot, hkey⟩ := h.slot
  obtain ⟨c', hslot', hkey'⟩ := h'.slot
  rw [hslot] at hslot'
  cases hslot'
  exact Option.some.inj (hkey.symm.trans hkey')

theorem isWide_of_keyOf? {c : Constant} (h : pool.keyOf? c = some key) (hwide : key.slots = 2) :
    c.isWide = true := by
  cases c with
  | long _ | double _ => rfl
  | classRef nameIndex =>
    obtain ⟨internal, -, rfl⟩ := Option.map_eq_some_iff.1 h
    exact absurd hwide (by simp [PoolKey.slots])
  | other | unusable => cases h
  | utf8 _ | integer _ | float _ =>
    cases h
    exact absurd hwide (by simp [PoolKey.slots])

/-- Behind a constant of two slots the table has an unusable one. -/
theorem second_slot {table : List (Constant × Bytes)} {j : Nat} {c : Constant}
    (h : (layout table)[j]? = some c) (hwide : c.isWide = true) : (layout table)[j + 1]? = some .unusable := by
  induction table generalizing j with
  | nil => cases h
  | cons e table ih =>
    rw [show layout (e :: table) = slotsOf e.1 ++ layout table from List.flatMap_cons, slotsOf] at h ⊢
    split at h
    · rename_i hw
      rw [if_pos hw]
      rcases j with _ | _ | j
      · rfl
      · cases h
        cases hwide
      · exact ih h
    · rename_i hw
      rw [if_neg hw]
      cases j with
      | zero =>
        cases h
        exact absurd hwide hw
      | succ j => exact ih h

end ConstantPool

/-- The constants that have to stand in a table in which a constant is found. -/
def PoolKey.needs : PoolKey → List PoolKey
  | classRef internal => [utf8 internal, classRef internal]
  | key => [key]

namespace PoolWriter

open Read ConstantPool

variable {w w' : PoolWriter} {key : PoolKey}

/-! ### What a writer has written -/

/-- The constants that have been written, the last one first. -/
def keys (w : PoolWriter) : List PoolKey := w.seen.map (·.1)

theorem index?_eq_none : w.index? key = none ↔ key ∉ w.keys := by
  simp only [index?, keys, Option.map_eq_none_iff, List.find?_eq_none, decide_eq_true_eq, List.mem_map,
    not_exists, not_and]

theorem keys_utf8 (w : PoolWriter) (text : String) : (w.utf8 text).2.keys = w.keys.insert (.utf8 text) := by
  unfold utf8
  cases h : w.index? (.utf8 text) with
  | some i => exact (List.insert_of_mem (List.mem_map_of_mem (mem_seen_of_index? h))).symm
  | none => exact (List.insert_of_not_mem (index?_eq_none.1 h)).symm

/-- Every constant has been written once, and the name of every class. -/
structure Orderly (w : PoolWriter) : Prop where
  nodup : w.keys.Nodup
  named : ∀ internal, .classRef internal ∈ w.keys → .utf8 internal ∈ w.keys

theorem orderly_empty : Orderly {} := ⟨List.nodup_nil, nofun⟩

theorem keys_intern (h : w.Orderly) (key : PoolKey) :
    (w.intern key).2.keys = key.needs.foldl (fun keys key => keys.insert key) w.keys := by
  unfold intern
  cases hindex : w.index? key with
  | some i =>
    have hmem : key ∈ w.keys := List.mem_map_of_mem (mem_seen_of_index? hindex)
    cases key with
    | classRef internal =>
      show w.keys = (w.keys.insert (.utf8 internal)).insert (.classRef internal)
      rw [List.insert_of_mem (h.named internal hmem), List.insert_of_mem hmem]
    | _ => exact (List.insert_of_mem hmem).symm
  | none =>
    have hnew := index?_eq_none.1 hindex
    cases key with
    | classRef internal =>
      have hnew' : PoolKey.classRef internal ∉ w.keys.insert (.utf8 internal) := by simpa using hnew
      show _ :: (w.utf8 internal).2.keys = (w.keys.insert (.utf8 internal)).insert (.classRef internal)
      rw [keys_utf8, List.insert_of_not_mem hnew']
    | _ => exact (List.insert_of_not_mem hnew).symm

theorem Orderly.intern (h : w.Orderly) (key : PoolKey) : (w.intern key).2.Orderly := by
  have hkeys := keys_intern h key
  constructor
  · rw [hkeys]
    cases key with
    | classRef internal => exact (h.nodup.insert).insert
    | _ => exact h.nodup.insert
  · intro internal
    rw [hkeys]
    cases key with
    | classRef name =>
      simp only [PoolKey.needs, List.foldl_cons, List.foldl_nil, List.mem_insert_iff, reduceCtorEq, false_or,
        PoolKey.classRef.injEq, PoolKey.utf8.injEq]
      exact Or.imp_right (h.named internal)
    | _ =>
      simp only [PoolKey.needs, List.foldl_cons, List.foldl_nil, List.mem_insert_iff, reduceCtorEq, false_or]
      intro hmem
      simp [h.named internal hmem]

/-! ### Requests -/

/-- What a writer is asked for. -/
inductive Request where
  | constant (key : PoolKey)
  | utf8 (text : String)
  /-- The class of a dotted name. -/
  | classNamed (dotted : String)

namespace Request

/-- The constant whose index is handed out. -/
def asked : Request → PoolKey
  | constant key => key
  | utf8 text => .utf8 text
  | classNamed dotted => .classRef (ClassName.toInternal dotted)

def run : Request → PoolWriter → UInt16 × PoolWriter
  | constant key, w => w.intern key
  | utf8 text, w => w.utf8 text
  | classNamed dotted, w => w.classIndex dotted

theorem run_eq_intern (r : Request) (w : PoolWriter) : r.run w = w.intern r.asked := by
  cases r with
  | utf8 text =>
    show w.utf8 text = w.intern (.utf8 text)
    unfold PoolWriter.utf8 intern
    cases w.index? (.utf8 text) <;> rfl
  | _ => rfl

end Request

/-- Serves requests one after the other: the constants asked for with the indexes handed out, and the
writer behind the last. -/
def serve : List Request → PoolWriter → List (PoolKey × UInt16) × PoolWriter
  | [], w => ([], w)
  | r :: requests, w =>
    let (i, w) := r.run w
    let (handed, w) := serve requests w
    ((r.asked, i) :: handed, w)

theorem serve_cons (r : Request) (requests : List Request) (w : PoolWriter) :
    serve (r :: requests) w =
      ((r.asked, (w.intern r.asked).1) :: (serve requests (w.intern r.asked).2).1,
        (serve requests (w.intern r.asked).2).2) := by
  rw [serve, r.run_eq_intern]

theorem grows_serve (requests : List Request) (w : PoolWriter) : w.Grows (serve requests w).2 := by
  induction requests generalizing w with
  | nil => exact .refl w
  | cons r requests ih =>
    rw [serve_cons]
    exact (grows_intern w r.asked).trans (ih _)

/-- What was handed out stays noted. -/
theorem mem_seen_serve {requests : List Request} {e : PoolKey × UInt16} (he : e ∈ (serve requests w).1) :
    e ∈ (serve requests w).2.seen := by
  induction requests generalizing w with
  | nil => cases he
  | cons r requests ih =>
    rw [serve_cons] at he ⊢
    rcases List.mem_cons.1 he with rfl | he
    · exact (grows_serve requests _).seen.subset (mem_seen_intern w r.asked)
    · exact ih he

theorem Orderly.serve (h : w.Orderly) (requests : List Request) : (serve requests w).2.Orderly := by
  induction requests generalizing w with
  | nil => exact h
  | cons r requests ih =>
    rw [serve_cons]
    exact ih (h.intern r.asked)

/-- The constants that requests need. -/
def needed (requests : List Request) : List PoolKey := requests.flatMap fun r => r.asked.needs

theorem keys_serve (h : w.Orderly) (requests : List Request) :
    (serve requests w).2.keys = (needed requests).foldl (fun keys key => keys.insert key) w.keys := by
  induction requests generalizing w with
  | nil => rfl
  | cons r requests ih =>
    have hneeded : needed (r :: requests) = r.asked.needs ++ needed requests := List.flatMap_cons
    rw [serve_cons, ih (h.intern r.asked), keys_intern h, hneeded, List.foldl_append]

theorem mem_foldl_insert {key : PoolKey} (more keys : List PoolKey) :
    key ∈ more.foldl (fun keys key => keys.insert key) keys ↔ key ∈ keys ∨ key ∈ more := by
  induction more generalizing keys with
  | nil => simp
  | cons first more ih =>
    rw [List.foldl_cons, ih, List.mem_insert_iff, List.mem_cons]
    tauto

theorem toFinset_keys_serve (requests : List Request) :
    (serve requests {}).2.keys.toFinset = (needed requests).toFinset := by
  ext key
  rw [List.mem_toFinset, List.mem_toFinset, keys_serve orderly_empty, mem_foldl_insert]
  simp [keys]

/-- The slots that a set of constants takes. -/
def slotsFor (keys : Finset PoolKey) : Nat := ∑ key ∈ keys, key.slots.toNat

/-- The slots taken are those of the constants needed, each counted once. -/
theorem slotCount_serve (requests : List Request) :
    (serve requests {}).2.slotCount = slotsFor (needed requests).toFinset + 1 := by
  have hnodup := (orderly_empty.serve requests).nodup
  rw [← toFinset_keys_serve, slotsFor, List.sum_toFinset _ hnodup, keys, List.map_map]
  rfl

theorem fits_serve {requests : List Request} (hslots : slotsFor (needed requests).toFinset ≤ 65534)
    (htexts : ∀ key ∈ needed requests, key.fits = true) : (serve requests {}).2.Fits := by
  refine ⟨by rw [slotCount_serve]; omega, fun e he => htexts e.1 ?_⟩
  have hkey : e.1 ∈ (serve requests {}).2.keys.toFinset := List.mem_toFinset.2 (List.mem_map_of_mem he)
  rw [toFinset_keys_serve] at hkey
  exact List.mem_toFinset.1 hkey

/-! ### Indexes and constants -/

theorem Holds.size {table : List (Constant × Bytes)} (h : w.Holds table) :
    ConstantPool.size ⟨.unusable :: layout table⟩ = w.next.toNat := by
  rw [h.next, h.slotCount]
  rfl

/-- No constant is found in the second slot of another. -/
theorem Holds.ne_second_slot {table : List (Constant × Bytes)} (h : w.Holds table) {e e' : PoolKey × UInt16}
    (he : e ∈ w.seen) (he' : e' ∈ w.seen) (hwide : e'.1.slots = 2) : e.2.toNat ≠ e'.2.toNat + 1 := by
  intro heq
  obtain ⟨c, hslot, hkey⟩ := (h.found e he).slot
  obtain ⟨c', hslot', hkey'⟩ := (h.found e' he').slot
  have hsecond : (Constant.unusable :: layout table)[e'.2.toNat + 1]? = some .unusable := by
    cases hindex : e'.2.toNat with
    | zero =>
      rw [hindex] at hslot'
      cases hslot'
      cases hkey'
    | succ j =>
      rw [hindex] at hslot'
      exact second_slot hslot' (isWide_of_keyOf? hkey' hwide)
  rw [heq, hsecond] at hslot
  cases hslot
  cases hkey

/-- What a writer has handed out fits the bytes that it has written: behind the number of the next slot they are
a table of that many slots, each index leads to its constant and to no other, one constant has one index, and no
index is that of a second slot. -/
structure Consistent (w : PoolWriter) (handed : List (PoolKey × UInt16)) (pool : ConstantPool) : Prop where
  reads : Reads read (Bytes.bigEndian 2 w.next.toNat ++ w.bytes) pool
  size : pool.size = w.next.toNat
  found : ∀ e ∈ handed, pool.Has e.1 e.2
  one : ∀ e ∈ handed, ∀ e' ∈ handed, e.1 = e'.1 ↔ e.2 = e'.2
  first : ∀ e ∈ handed, ∀ e' ∈ handed, e'.1.slots = 2 → e.2.toNat ≠ e'.2.toNat + 1

theorem Sound.consistent (h : w.Sound) (hfits : w.Fits) (horderly : w.Orderly) :
    ∃ pool, w.Consistent w.seen pool := by
  obtain ⟨table, htable⟩ := h hfits
  refine ⟨⟨.unusable :: layout table⟩, htable.reads hfits, htable.size, htable.found, ?_,
    fun e he e' he' => htable.ne_second_slot he he'⟩
  refine fun e he e' he' => ⟨fun heq => ?_, fun heq => ?_⟩
  · exact congrArg Prod.snd (List.inj_on_of_nodup_map horderly.nodup he he' heq)
  · have hfound := htable.found e he
    rw [heq] at hfound
    exact hfound.unique (htable.found e' he')

theorem Consistent.mono {handed handed' : List (PoolKey × UInt16)} {pool : ConstantPool}
    (h : w.Consistent handed pool) (hsub : handed' ⊆ handed) : w.Consistent handed' pool where
  reads := h.reads
  size := h.size
  found e he := h.found e (hsub he)
  one e he e' he' := h.one e (hsub he) e' (hsub he')
  first e he e' he' := h.first e (hsub he) e' (hsub he')

/-- As long as the constants that are needed take no more slots than can be numbered and no text is too long to
be written, a new writer is consistent after each of the requests. -/
theorem indexes_stay_consistent (requests : List Request)
    (hslots : slotsFor (needed requests).toFinset ≤ 65534)
    (htexts : ∀ key ∈ needed requests, key.fits = true) (n : Nat) :
    let served := serve (requests.take n) {}
    ∃ pool, served.2.Consistent served.1 pool := by
  intro served
  have hsub : needed (requests.take n) ⊆ needed requests := by
    intro key hkey
    obtain ⟨r, hr, hneeds⟩ := List.mem_flatMap.1 hkey
    exact List.mem_flatMap.2 ⟨r, List.mem_of_mem_take hr, hneeds⟩
  have hslots' : slotsFor (needed (requests.take n)).toFinset ≤ 65534 := by
    refine Nat.le_trans (Finset.sum_le_sum_of_subset fun key hkey => ?_) hslots
    exact List.mem_toFinset.2 (hsub (List.mem_toFinset.1 hkey))
  have hfits : served.2.Fits := fits_serve hslots' fun key hkey => htexts key (hsub hkey)
  have hsound : served.2.Sound := (grows_serve _ _).sound sound_empty
  obtain ⟨pool, hpool⟩ := hsound.consistent hfits (orderly_empty.serve _)
  exact ⟨pool, hpool.mono fun e => mem_seen_serve⟩

/-- A class, a number that is none, the text that was written for the class, the class under its slashed name,
and a number of two slots. -/
def fiveRequests : List Request :=
  [.classNamed "a.B", .constant (.double 0x7FF8000000000000), .utf8 "a/B", .constant (.classRef "a/B"),
    .constant (.long (-1))]

/-- Of five requests two are for what there is already, and the text counts for the class. -/
theorem fiveRequests_stay_consistent :
    slotsFor (needed fiveRequests).toFinset = 6 ∧ (∀ key ∈ needed fiveRequests, key.fits = true) ∧
      let served := serve (fiveRequests.take 5) {}
      served.1.map (·.2) = [2, 3, 1, 2, 5] ∧ ∃ pool, served.2.Consistent served.1 pool ∧ pool.size = 7 ∧
        pool.className 2 = .ok "a/B" ∧ pool.double 3 = .ok 0x7FF8000000000000 ∧ pool.long 5 = .ok (-1) := by
  have hslots : slotsFor (needed fiveRequests).toFinset = 6 := by decide +kernel
  have htexts : ∀ key ∈ needed fiveRequests, key.fits = true := by decide +kernel
  obtain ⟨pool, hpool⟩ := indexes_stay_consistent fiveRequests (by rw [hslots]; decide) htexts 5
  refine ⟨hslots, htexts, by decide +kernel, pool, hpool, hpool.size.trans (by decide +kernel), ?_, ?_, ?_⟩
  · exact hpool.found (.classRef "a/B", 2) (by decide +kernel)
  · exact hpool.found (.double 0x7FF8000000000000, 3) (by decide +kernel)
  · exact hpool.found (.long (-1), 5) (by decide +kernel)

end PoolWriter

end ClassCatalog.ClassFile
