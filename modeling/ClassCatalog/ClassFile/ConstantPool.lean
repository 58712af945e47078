import ClassCatalog.ClassFile.Cursor
import ClassCatalog.Text.ModifiedUtf8

/-!
# The constant pool

The numbered table at the head of a class file. Index 0 is unused, and constants of eight bytes take
two slots, the second of which is unusable. Only texts, class names and numbers are kept; references
to members and call sites are passed over.
-/

namespace ClassCatalog.ClassFile

/-- What one slot holds. -/
inductive Constant where
  | utf8 (text : String)
  | integer (value : Int32)
  | float (bits : UInt32)
  | long (value : Int64)
  | double (bits : UInt64)
  | classRef (nameIndex : UInt16)
  /-- A constant of a kind that no one looks up. -/
  | other
  /-- Slot 0, or the second slot of an eight-byte constant. -/
  | unusable
  deriving DecidableEq, Repr

/-- Whether a constant takes two slots. -/
def Constant.isWide : Constant → Bool
  | long _ => true
  | double _ => true
  | _ => false

/-- The slots of a class file's constant pool, slot 0 included. -/
structure ConstantPool where
  slots : List Constant
  deriving DecidableEq, Repr

namespace ConstantPool

/-- Reads the constant that starts at slot `index`. -/
def readConstant (index : Nat) : Read Constant := do
  let tag ← Read.u1
  match tag with
  | 1 => do
    let length ← Read.u2
    let bytes ← Read.slice length.toNat
    return .utf8 (ModifiedUtf8.decode bytes)
  | 3 => do
    let v ← Read.u4
    return .integer v.toInt32
  | 4 => do
    let v ← Read.u4
    return .float v
  | 5 => do
    let v ← Read.u8
    return .long v.toInt64
  | 6 => do
    let v ← Read.u8
    return .double v
  | 7 => do
    let i ← Read.u2
    return .classRef i
  | 8 | 16 | 19 | 20 => do
    Read.skip 2
    return .other
  | 9 | 10 | 11 | 12 | 17 | 18 => do
    Read.skip 4
    return .other
  | 15 => do
    Read.skip 3
    return .other
  | _ => throw (.unsupportedConstant tag index)

/-- Reads constants until `count` slots from slot `index` on are filled. An eight-byte constant in
the last slot takes one slot more. -/
def readSlots : (count index : Nat) → Read (List Constant)
  | 0, _ => pure []
  | count + 1, index => do
    let constant ← readConstant index
    if constant.isWide then
      match count with
      | 0 => return [constant, .unusable]
      | count + 1 => do
        let others ← readSlots count (index + 2)
        return constant :: .unusable :: others
    else do
      let others ← readSlots count (index + 1)
      return constant :: others

/-- Reads the pool: the number of its slots, slot 0 included, then the constants. -/
def read : Read ConstantPool := do
  let count ← Read.u2
  let slots ← readSlots (count.toNat - 1) 1
  return ⟨.unusable :: slots⟩

/-- The number of slots, slot 0 included. -/
def size (pool : ConstantPool) : Nat := pool.slots.length

def isEmpty (pool : ConstantPool) : Bool := pool.size ≤ 1

/-- Looks up slot `index` and takes what `select` finds in it. -/
def lookup {α : Type} (pool : ConstantPool) (select : Constant → Option α) (index : UInt16) :
    Except ParseError α :=
  match pool.slots[index.toNat]?.bind select with
  | some a => .ok a
  | none => .error (.invalidConstantIndex index)

def utf8 (pool : ConstantPool) : UInt16 → Except ParseError String :=
  pool.lookup fun | .utf8 text => some text | _ => none

/-- The slashed name of the class at `index`. -/
def className (pool : ConstantPool) (index : UInt16) : Except ParseError String := do
  let nameIndex ← pool.lookup (fun | .classRef i => some i | _ => none) index
  pool.utf8 nameIndex

def integer (pool : ConstantPool) : UInt16 → Except ParseError Int32 :=
  pool.lookup fun | .integer v => some v | _ => none

/-- The bits of the 32-bit float at `index`. -/
def float (pool : ConstantPool) : UInt16 → Except ParseError UInt32 :=
  pool.lookup fun | .float v => some v | _ => none

/-- The 64-bit integer at `index`. -/
def long (pool : ConstantPool) : UInt16 → Except ParseError Int64 :=
  pool.lookup fun | .long v => some v | _ => none

/-- The bits of the 64-bit float at `index`. -/
def double (pool : ConstantPool) : UInt16 → Except ParseError UInt64 :=
  pool.lookup fun | .double v => some v | _ => none

end ConstantPool

end ClassCatalog.ClassFile
