import ClassCatalog.Bytes.Numbers
import ClassCatalog.Index.Blob
import ClassCatalog.Proofs.Text.Utf8

/-!
# Reading back what was written

`Reads p bytes a`: the reader `p` takes exactly `bytes` off the front of every input that starts
with them, and gives `a`. Lengths are written in 64 bits, so the promise is made only for fewer than
`addressable` bytes; a longer byte string does not exist in any memory. `Reads.bind` composes the
promise along the text of a reader, and every later lemma is an instance of it. Which writer belongs
to which reader is said by the lemmas `reads_string`, `reads_list` and so on, one for each.
-/

namespace ClassCatalog.Blob

/-- More bytes than any byte string has. -/
def addressable : Nat := 2 ^ 64

namespace Get

variable {α β : Type}

/-- The reader takes exactly these bytes, whatever follows them, and gives `a`. -/
def Reads (p : Get α) (bytes : Bytes) (a : α) : Prop :=
  bytes.length < addressable → ∀ rest, p (bytes ++ rest) = .ok (a, rest)

namespace Reads

variable {p : Get α} {f : α → Get β} {bytes others : Bytes} {a : α} {b : β}

theorem pure (a : α) : Reads (Pure.pure a) [] a := fun _ _ => rfl

theorem bind (hp : Reads p bytes a) (hf : Reads (f a) others b) :
    Reads (p >>= f) (bytes ++ others) b := by
  intro hlen rest
  rw [List.length_append] at hlen
  show (p (bytes ++ others ++ rest) >>= fun x => f x.1 x.2) = _
  rw [List.append_assoc, hp (by omega)]
  exact hf (by omega) rest

/-- The last steps of a reader take no more bytes. -/
theorem bind_nil (hp : Reads p bytes a) (hf : Reads (f a) [] b) : Reads (p >>= f) bytes b := by
  have h := hp.bind hf
  rwa [List.append_nil] at h

/-- The last step of a reader: it gives what was read in another form. -/
theorem bind_pure {g : α → β} (hp : Reads p bytes a) (hg : g a = b) :
    Reads (p >>= fun x => Pure.pure (g x)) bytes b := hp.bind_nil (hg ▸ pure (g a))

/-- The promise need only be kept for byte strings that exist. -/
theorem of_short (h : bytes.length < addressable → Reads p bytes a) : Reads p bytes a :=
  fun hlen => h hlen hlen

end Reads

/-! ### Bytes and numbers -/

theorem reads_sliceOr (fault : PayloadError) (bytes : Bytes) :
    Reads (sliceOr fault bytes.length) bytes bytes := by
  intro _ rest
  rw [sliceOr, Bytes.splitAt?_append]

theorem reads_slice (bytes : Bytes) : Reads (slice bytes.length) bytes bytes :=
  reads_sliceOr .endOfString bytes

theorem reads_number (width : Nat) {n : Nat} (h : n < 256 ^ width) :
    Reads (number width) (Bytes.littleEndian width n) n := by
  have hslice := reads_sliceOr .endOfInput (Bytes.littleEndian width n)
  rw [Bytes.length_littleEndian] at hslice
  exact hslice.bind_pure (Bytes.ofLittleEndian_littleEndian_of_lt h)

theorem reads_u64 {n : Nat} (h : n < addressable) : Reads u64 (putU64 n) n :=
  reads_number 8 h

theorem reads_choice {n count : Nat} (hn : n < count) (hcount : count ≤ 256) :
    Reads (choice count) (putChoice n) n := by
  have hread := (reads_number 4 (n := n) (by omega)).bind
    (f := fun n => if n < count then pure n else throw (.invalidChoice n count)) (b := n)
    (by rw [if_pos hn]; exact Reads.pure n)
  rwa [List.append_nil] at hread

theorem reads_byte (b : UInt8) : Reads byte [b] b := by
  have hbytes : Bytes.littleEndian 1 b.toNat = [b] := by simp [Bytes.littleEndian]
  exact hbytes ▸ (reads_number 1 b.toNat_lt).bind_pure UInt8.ofNat_toNat

/-! ### Texts and truth values -/

theorem reads_string (s : String) : Reads string (putString s) s := by
  refine Reads.of_short fun hlen => ?_
  simp only [putString, List.length_append] at hlen
  refine (reads_u64 (by omega)).bind ?_
  refine (reads_slice (Utf8.encode s)).bind_nil ?_
  rw [Utf8.decode_encode]
  exact .pure s

theorem reads_bool (b : Bool) : Reads bool (putBool b) b := by
  refine (reads_byte (if b then 1 else 0)).bind_nil ?_
  cases b <;> exact .pure _

theorem reads_char (c : Char) : Reads char (String.utf8EncodeChar c) c := by
  obtain ⟨first, others, hbytes, hwidth⟩ := Utf8.charWidth_head c
  have hdecode : Utf8.decodeFrom 0 (first :: others) = .ok [c] := by
    have h := Utf8.decodeFrom_encodeChars 0 [c]
    rwa [List.flatMap_cons, List.flatMap_nil, List.append_nil, hbytes] at h
  rw [hbytes, ← List.singleton_append]
  refine (reads_byte first).bind ?_
  have hne : ¬ others.length + 1 = 0 := by omega
  simp only [hwidth, if_neg hne, Nat.add_sub_cancel]
  refine (reads_sliceOr .invalidChar others).bind_nil ?_
  rw [hdecode]
  exact .pure c

/-! ### Options, lists and maps -/

theorem reads_option {item : Get α} {put : α → Bytes} (h : ∀ a, Reads item (put a) a)
    (o : Option α) : Reads (option item) (putOption put o) o := by
  cases o with
  | none =>
    show Reads (option item) ([0] ++ []) none
    exact (reads_byte 0).bind (Reads.pure none)
  | some a =>
    show Reads (option item) ([1] ++ put a) (some a)
    exact (reads_byte 1).bind ((h a).bind_pure rfl)

theorem reads_pair {first : Get α} {second : Get β} {putFirst : α → Bytes} {putSecond : β → Bytes}
    {p : α × β} (hfirst : Reads first (putFirst p.1) p.1)
    (hsecond : Reads second (putSecond p.2) p.2) :
    Reads (pair first second) (putPair putFirst putSecond p) p :=
  hfirst.bind (hsecond.bind_pure rfl)

theorem reads_repeated {item : Get α} {put : α → Bytes} {items : List α}
    (h : ∀ a ∈ items, Reads item (put a) a) :
    Reads (repeated item items.length) (items.flatMap put) items := by
  induction items with
  | nil => exact Reads.pure []
  | cons a items ih =>
    rw [List.flatMap_cons]
    exact (h a List.mem_cons_self).bind
      ((ih fun b hb => h b (List.mem_cons_of_mem _ hb)).bind_pure rfl)

/-- A list is no longer than its bytes if no item is written as nothing. -/
theorem length_le_flatMap {put : α → Bytes} {items : List α} (h : ∀ a ∈ items, put a ≠ []) :
    items.length ≤ (items.flatMap put).length := by
  induction items with
  | nil => simp
  | cons a items ih =>
    have ha : 0 < (put a).length := List.length_pos_iff.mpr (h a List.mem_cons_self)
    have hrest := ih fun b hb => h b (List.mem_cons_of_mem _ hb)
    rw [List.flatMap_cons, List.length_append, List.length_cons]
    omega

theorem reads_list {item : Get α} {put : α → Bytes} {items : List α}
    (hne : ∀ a ∈ items, put a ≠ []) (h : ∀ a ∈ items, Reads item (put a) a) :
    Reads (list item) (putList put items) items := by
  refine Reads.of_short fun hlen => ?_
  have hcount := length_le_flatMap hne
  simp only [putList, List.length_append] at hlen
  exact (reads_u64 (by omega)).bind (reads_repeated h)

theorem reads_map {item : Get α} {put : α → Bytes} (h : ∀ a, Reads item (put a) a)
    (m : NameMap α) : Reads (map item) (putMap put m) m := by
  refine (reads_list (fun e _ => ?_) fun e _ => ?_).bind_pure (NameMap.ofList_entries m)
  · simp [putPair, putString, putU64, Bytes.littleEndian]
  · exact reads_pair (reads_string e.1) (h e.2)

end Get

end ClassCatalog.Blob
