import ClassCatalog.ClassFile.Descriptor
import ClassCatalog.Text.ModifiedUtf8

/-!
# Writing a constant pool

The writer hands out one index per distinct constant and writes it when it is first asked for. A
class reference needs the text of its name, which is written just before it.
-/

namespace ClassCatalog.ClassFile

/-- A constant to be written. -/
inductive PoolKey where
  | utf8 (text : String)
  /-- A slashed class name. -/
  | classRef (internal : String)
  | integer (value : Int32)
  | float (bits : UInt32)
  | long (value : Int64)
  | double (bits : UInt64)
  deriving DecidableEq, Repr

def PoolKey.slots : PoolKey → UInt16
  | long _ => 2
  | double _ => 2
  | _ => 1

/-- The constants written so far, the next free slot and the index of each constant. -/
structure PoolWriter where
  bytes : Bytes := []
  next : UInt16 := 1
  seen : List (PoolKey × UInt16) := []
  deriving Inhabited

namespace PoolWriter

/-- The index of a constant, if it has been written. -/
def index? (w : PoolWriter) (key : PoolKey) : Option UInt16 :=
  (w.seen.find? fun e => e.1 = key).map (·.2)

/-- Writes the encoding of a constant into the next slot. -/
def append (w : PoolWriter) (key : PoolKey) (encoding : Bytes) : UInt16 × PoolWriter :=
  (w.next,
    { bytes := w.bytes ++ encoding, next := w.next + key.slots, seen := (key, w.next) :: w.seen })

def encodeText (text : String) : Bytes :=
  let encoded := ModifiedUtf8.encode text
  1 :: Bytes.bigEndian 2 encoded.length ++ encoded

def utf8 (w : PoolWriter) (text : String) : UInt16 × PoolWriter :=
  match w.index? (.utf8 text) with
  | some i => (i, w)
  | none => w.append (.utf8 text) (encodeText text)

def intern (w : PoolWriter) (key : PoolKey) : UInt16 × PoolWriter :=
  match w.index? key with
  | some i => (i, w)
  | none =>
    match key with
    | .utf8 text => w.append key (encodeText text)
    | .classRef internal =>
      let (nameIndex, w) := w.utf8 internal
      w.append key (7 :: Bytes.bigEndian 2 nameIndex.toNat)
    | .integer v => w.append key (3 :: Bytes.bigEndian 4 v.toUInt32.toNat)
    | .float v => w.append key (4 :: Bytes.bigEndian 4 v.toNat)
    | .long v => w.append key (5 :: Bytes.bigEndian 8 v.toUInt64.toNat)
    | .double v => w.append key (6 :: Bytes.bigEndian 8 v.toNat)

def classIndex (w : PoolWriter) (dotted : String) : UInt16 × PoolWriter :=
  w.intern (.classRef (ClassName.toInternal dotted))

end PoolWriter

end ClassCatalog.ClassFile
