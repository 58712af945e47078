import ClassCatalog.ClassFile.Blueprint
import ClassCatalog.Proofs.ClassFile.Pool

/-!
# What an emitter leaves behind

Every emitter is made of requests for constants, so the pool it leaves behind has grown out of the one
it found (`Emit.Grows`). How many bytes it writes does not depend on that pool (`Emit.Measured`): an
index takes two bytes whatever it is.
-/

namespace ClassCatalog.ClassFile.Emit

variable {α β : Type}

/-! ### The pool -/

/-- The pool has grown, whatever it was. -/
def Grows (e : StateM PoolWriter α) : Prop := ∀ w : PoolWriter, w.Grows (e.run w).2

theorem grows_pure (a : α) : Grows (pure a : StateM PoolWriter α) := fun w => .refl w

theorem Grows.bind {e : StateM PoolWriter α} {f : α → StateM PoolWriter β} (he : Grows e)
    (hf : ∀ a, Grows (f a)) : Grows (e >>= f) :=
  fun w => (he w).trans (hf (e.run w).1 (e.run w).2)

/-- What is done with the bytes afterwards does not matter. -/
theorem Grows.bind_pure {e : StateM PoolWriter α} (he : Grows e) (g : α → β) :
    Grows (do let a ← e; return g a) := he.bind fun a => grows_pure (g a)

theorem grows_constant (key : PoolKey) : Grows (constant key) := fun w => w.grows_intern key

theorem grows_text (s : String) : Grows (text s) := grows_constant _

theorem grows_typeName (name : String) : Grows (typeName name) := grows_constant _

theorem grows_all {es : List Emit} (h : ∀ e ∈ es, Grows e) : Grows (all es) := by
  induction es with
  | nil => exact grows_pure []
  | cons e es ih =>
    have hrest := ih fun e' he' => h e' (List.mem_cons_of_mem _ he')
    exact (h e (List.mem_cons_self ..)).bind fun _ => hrest.bind_pure _

mutual

theorem grows_value : (v : ElementValue) → Grows (value v)
  | .byte _ | .char _ | .short _ | .int _ | .boolean _ | .long _ | .float _ | .double _ | .string _
  | .classLiteral _ => (grows_constant _).bind_pure _
  | .enum _ _ => ((grows_typeName _).bind fun _ => (grows_text _).bind_pure _).bind_pure _
  | .nested u => (grows_usage u).bind_pure _
  | .array vs => ((grows_items vs).bind_pure _).bind_pure _

theorem grows_usage : (u : Usage) → Grows (usage u)
  | ⟨name, _, es⟩ => (grows_typeName name).bind fun _ => (grows_elements es).bind_pure _

theorem grows_items : (vs : List ElementValue) → Grows (items vs)
  | [] => grows_pure []
  | v :: vs => (grows_value v).bind fun _ => (grows_items vs).bind_pure _

theorem grows_elements : (es : List (String × ElementValue)) → Grows (elements es)
  | [] => grows_pure []
  | (name, v) :: es =>
    (grows_text name).bind fun _ => (grows_value v).bind fun _ => (grows_elements es).bind_pure _

end

theorem grows_usages (us : List Usage) : Grows (usages us) := by
  refine (grows_all fun e he => ?_).bind_pure _
  obtain ⟨u, -, rfl⟩ := List.mem_map.1 he
  exact grows_usage u

theorem grows_namedAttribute (name : String) {body : Emit} (h : Grows body) :
    Grows (namedAttribute name body) := h.bind fun _ => (grows_text name).bind_pure _

/-! ### The number of bytes -/

/-- So many bytes are written, whatever is in the pool. -/
def HasLength (e : Emit) (n : Nat) : Prop := ∀ w : PoolWriter, (e.run w).1.length = n

/-- How many bytes are written does not depend on the pool. -/
def Measured (e : Emit) : Prop := ∃ n, e.HasLength n

/-- How many bytes are written into an empty pool. -/
def size (e : Emit) : Nat := (e.run {}).1.length

theorem Measured.length_eq {e : Emit} (h : Measured e) (w : PoolWriter) : (e.run w).1.length = size e := by
  obtain ⟨n, hn⟩ := h
  exact (hn w).trans (hn {}).symm

theorem Measured.append {e f : Emit} (he : Measured e) (hf : Measured f) :
    Measured (do let a ← e; let b ← f; return a ++ b) := by
  obtain ⟨n, hn⟩ := he
  obtain ⟨m, hm⟩ := hf
  refine ⟨n + m, fun w => ?_⟩
  show ((e.run w).1 ++ (f.run (e.run w).2).1).length = _
  rw [List.length_append, hn, hm]

theorem measured_constant (key : PoolKey) : Measured (constant key) :=
  ⟨2, fun _ => Bytes.length_bigEndian ..⟩

theorem measured_tagged (tag : Char) {e : Emit} (h : Measured e) : Measured (tagged tag e) := by
  obtain ⟨n, hn⟩ := h
  exact ⟨n + 1, fun w => congrArg (· + 1) (hn w)⟩

theorem measured_all {es : List Emit} (h : ∀ e ∈ es, Measured e) : Measured (all es) := by
  induction es with
  | nil => exact ⟨0, fun _ => rfl⟩
  | cons e es ih =>
    exact (h e (List.mem_cons_self ..)).append (ih fun e' he' => h e' (List.mem_cons_of_mem _ he'))

/-- A counted run of bytes. -/
theorem measured_counted {e : Emit} (h : Measured e) (width n : Nat) :
    Measured (do let bytes ← e; return Bytes.bigEndian width n ++ bytes) := by
  obtain ⟨m, hm⟩ := h
  refine ⟨width + m, fun w => ?_⟩
  show (Bytes.bigEndian width n ++ (e.run w).1).length = _
  rw [List.length_append, Bytes.length_bigEndian, hm]

mutual

theorem measured_value : (v : ElementValue) → Measured (value v)
  | .byte _ | .char _ | .short _ | .int _ | .boolean _ | .long _ | .float _ | .double _ | .string _
  | .classLiteral _ => measured_tagged _ (measured_constant _)
  | .enum _ _ => measured_tagged _ ((measured_constant _).append (measured_constant _))
  | .nested u => measured_tagged _ (measured_usage u)
  | .array vs => measured_tagged _ (measured_counted (measured_items vs) 2 vs.length)

theorem measured_usage : (u : Usage) → Measured (usage u)
  | ⟨name, _, es⟩ => by
    obtain ⟨n, hn⟩ := measured_constant (.utf8 (Descriptor.ofTypeName name))
    obtain ⟨m, hm⟩ := measured_elements es
    refine ⟨n + 2 + m, fun w => ?_⟩
    show (((typeName name).run w).1 ++ u2 es.length ++
      ((elements es).run ((typeName name).run w).2).1).length = _
    rw [List.length_append, List.length_append, hm, show ((typeName name).run w).1.length = n from hn w,
      show (u2 es.length).length = 2 from Bytes.length_bigEndian ..]

theorem measured_items : (vs : List ElementValue) → Measured (items vs)
  | [] => ⟨0, fun _ => rfl⟩
  | v :: vs => (measured_value v).append (measured_items vs)

theorem measured_elements : (es : List (String × ElementValue)) → Measured (elements es)
  | [] => ⟨0, fun _ => rfl⟩
  | (name, v) :: es => by
    obtain ⟨n, hn⟩ := measured_constant (.utf8 name)
    obtain ⟨m, hm⟩ := measured_value v
    obtain ⟨k, hk⟩ := measured_elements es
    refine ⟨n + m + k, fun w => ?_⟩
    show (((text name).run w).1 ++ ((value v).run ((text name).run w).2).1 ++
      ((elements es).run ((value v).run ((text name).run w).2).2).1).length = _
    rw [List.length_append, List.length_append, hk, hm, show ((text name).run w).1.length = n from hn w]

end

theorem measured_usages (us : List Usage) : Measured (usages us) := by
  refine measured_counted (measured_all fun e he => ?_) 2 us.length
  obtain ⟨u, -, rfl⟩ := List.mem_map.1 he
  exact measured_usage u

end ClassCatalog.ClassFile.Emit
