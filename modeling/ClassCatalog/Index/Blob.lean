import ClassCatalog.Index.Basic

/-!
# Stored indexes

The byte form of an index: an opening mark, a version, the payload and a closing mark. In the payload
all numbers have a fixed width, their least significant byte first. Texts, lists and maps start with
their length; an optional value starts with 0 or 1, a choice with its number. Bytes between the
payload and the closing mark are passed over.
-/

namespace ClassCatalog.Blob

/-! ### Writing -/

/-- A length or a 64-bit number. -/
def putU64 (n : Nat) : Bytes := Bytes.littleEndian 8 n

/-- The number of a choice. -/
def putChoice (n : Nat) : Bytes := Bytes.littleEndian 4 n

/-- A text behind its length in bytes. -/
def putString (s : String) : Bytes :=
  let bytes := Utf8.encode s
  putU64 bytes.length ++ bytes

def putBool (b : Bool) : Bytes := [if b then 1 else 0]

def putOption {α : Type} (put : α → Bytes) : Option α → Bytes
  | none => [0]
  | some a => 1 :: put a

/-- A list behind its length. -/
def putList {α : Type} (put : α → Bytes) (items : List α) : Bytes :=
  putU64 items.length ++ items.flatMap put

/-- Two values in a row. -/
def putPair {α β : Type} (putFirst : α → Bytes) (putSecond : β → Bytes) (p : α × β) : Bytes :=
  putFirst p.1 ++ putSecond p.2

/-- A map as the list of its entries, in the order of the names. -/
def putMap {α : Type} (put : α → Bytes) (m : NameMap α) : Bytes :=
  putList (putPair putString put) m.entries

def putRetention : Retention → Bytes
  | .runtime => putChoice 0
  | .classFile => putChoice 1

mutual

def putValue : ElementValue → Bytes
  | .byte v => putChoice 0 ++ [v.toUInt8]
  | .char v => putChoice 1 ++ String.utf8EncodeChar v
  | .short v => putChoice 2 ++ Bytes.littleEndian 2 v.toUInt16.toNat
  | .int v => putChoice 3 ++ Bytes.littleEndian 4 v.toUInt32.toNat
  | .long v => putChoice 4 ++ Bytes.littleEndian 8 v.toUInt64.toNat
  | .float bits => putChoice 5 ++ Bytes.littleEndian 4 bits.toNat
  | .double bits => putChoice 6 ++ Bytes.littleEndian 8 bits.toNat
  | .boolean v => putChoice 7 ++ putBool v
  | .string v => putChoice 8 ++ putString v
  | .enum typeName constant => putChoice 9 ++ putString typeName ++ putString constant
  | .classLiteral typeName => putChoice 10 ++ putString typeName
  | .nested usage => putChoice 11 ++ putUsage usage
  | .array items => putChoice 12 ++ putU64 items.length ++ putItems items

def putUsage : Usage → Bytes
  | ⟨typeName, retention, elements⟩ =>
    putString typeName ++ putRetention retention ++ putU64 elements.length ++ putElements elements

/-- The items of an array, without their number. -/
def putItems : List ElementValue → Bytes
  | [] => []
  | value :: rest => putValue value ++ putItems rest

/-- Elements, without their number. -/
def putElements : List (String × ElementValue) → Bytes
  | [] => []
  | (name, value) :: rest => putString name ++ putValue value ++ putElements rest

end

def putRecord (r : ClassRecord) : Bytes :=
  putString r.name ++ putOption putString r.superclass ++ putList putString r.interfaces ++
  Bytes.littleEndian 2 r.modifiers.bits.toNat ++ putList putUsage r.classAnnotations ++
  putMap (putList putUsage) r.fieldAnnotations ++ putMap (putList putUsage) r.methodAnnotations ++
  putMap (putList (putList putUsage)) r.parameterAnnotations ++ putBool r.isPartial

def putIdentity (i : Identity) : Bytes :=
  putString i.path ++ putU64 i.size.toNat ++ putU64 i.lastModified.toNat ++
  putOption putString i.digest

/-- The payload of an index. -/
def putIndex (index : Index) : Bytes :=
  putIdentity index.identity ++ putMap putRecord index.classes ++ putBool index.incomplete ++
  putList (putPair putString putString) index.failures

/-! ### Reading -/

/-- Why a payload cannot be read. -/
inductive PayloadError where
  /-- A number breaks off. -/
  | endOfInput
  /-- A byte string breaks off, of which the reader says nothing more. -/
  | endOfString
  | invalidUtf8 (fault : Utf8.Fault)
  | invalidChar
  | invalidBool (found : UInt8)
  | invalidOption (found : UInt8)
  /-- A choice of `count` possibilities has no such number. -/
  | invalidChoice (found count : Nat)
  deriving DecidableEq, Repr

def PayloadError.message : PayloadError → String
  | endOfInput => "io error: unexpected end of file"
  | endOfString => "io error: "
  | invalidUtf8 (.incomplete valid) =>
    "string is not valid utf8: incomplete utf-8 byte sequence from index " ++ toString valid
  | invalidUtf8 (.invalid valid length) =>
    "string is not valid utf8: invalid utf-8 sequence of " ++ toString length ++
      " bytes from index " ++ toString valid
  | invalidChar => "char is not valid"
  | invalidBool found =>
    "invalid u8 while decoding bool, expected 0 or 1, found " ++ toString found.toNat
  | invalidOption found => "tag for enum is not valid, found " ++ toString found.toNat
  | invalidChoice found count =>
    "invalid value: integer `" ++ toString found ++ "`, expected variant index 0 <= i < " ++
      toString count

/-- Takes a value from the front of a byte string. -/
abbrev Get := StateT Bytes (Except PayloadError)

namespace Get

variable {α β : Type}

/-- The next `n` bytes, or a fault if there are fewer. -/
def sliceOr (fault : PayloadError) (n : Nat) : Get Bytes := fun bytes =>
  match Bytes.splitAt? n bytes with
  | some p => .ok p
  | none => .error fault

def slice (n : Nat) : Get Bytes := sliceOr .endOfString n

/-- A number of `width` bytes. -/
def number (width : Nat) : Get Nat := do
  let bytes ← sliceOr .endOfInput width
  return Bytes.ofLittleEndian bytes

/-- A length or a 64-bit number. -/
def u64 : Get Nat := number 8

/-- One of `count` choices. -/
def choice (count : Nat) : Get Nat := do
  let n ← number 4
  if n < count then return n else throw (.invalidChoice n count)

def byte : Get UInt8 := do
  let n ← number 1
  return UInt8.ofNat n

/-- A text behind its length in bytes. -/
def string : Get String := do
  let n ← u64
  let bytes ← slice n
  match Utf8.decode bytes with
  | .ok s => return s
  | .error fault => throw (.invalidUtf8 fault)

def bool : Get Bool := do
  let b ← byte
  if b = 0 then return false
  else if b = 1 then return true
  else throw (.invalidBool b)

def option (item : Get α) : Get (Option α) := do
  let b ← byte
  if b = 0 then return none
  else if b = 1 then return some (← item)
  else throw (.invalidOption b)

/-- One character, whose first byte tells its length. One that breaks off is not valid. -/
def char : Get Char := do
  let first ← byte
  let width := Utf8.charWidth first
  if width = 0 then throw .invalidChar
  let others ← sliceOr .invalidChar (width - 1)
  match Utf8.decodeFrom 0 (first :: others) with
  | .ok [c] => return c
  | _ => throw .invalidChar

/-- `n` values in a row. -/
def repeated (item : Get α) : Nat → Get (List α)
  | 0 => pure []
  | n + 1 => do
    let first ← item
    let others ← repeated item n
    return first :: others

/-- A list behind its length. -/
def list (item : Get α) : Get (List α) := do
  let n ← u64
  repeated item n

/-- Two values in a row. -/
def pair (first : Get α) (second : Get β) : Get (α × β) := do
  let a ← first
  let b ← second
  return (a, b)

/-- A map; of two entries with one name the later stays. -/
def map (item : Get α) : Get (NameMap α) := do
  let entries ← list (pair string item)
  return NameMap.ofList entries

def retention : Get Retention := do
  let n ← choice 2
  return if n = 0 then .runtime else .classFile

/-- An annotation usage, given how to read the values of its elements. -/
def usageWith (value : Get ElementValue) : Get Usage := do
  let typeName ← string
  let kept ← retention
  let elements ← list (pair string value)
  return ⟨typeName, kept, elements⟩

/-- How many kinds of element value there are. -/
def valueKinds : Nat := 13

/-- An element value, given how to read those nested in it. -/
def valueWith (value : Get ElementValue) : Get ElementValue := do
  let kind ← choice valueKinds
  match kind with
  | 0 => return .byte (← byte).toInt8
  | 1 => return .char (← char)
  | 2 => return .short (UInt16.ofNat (← number 2)).toInt16
  | 3 => return .int (UInt32.ofNat (← number 4)).toInt32
  | 4 => return .long (UInt64.ofNat (← number 8)).toInt64
  | 5 => return .float (UInt32.ofNat (← number 4))
  | 6 => return .double (UInt64.ofNat (← number 8))
  | 7 => return .boolean (← bool)
  | 8 => return .string (← string)
  | 9 => do
    let typeName ← string
    let constant ← string
    return .enum typeName constant
  | 10 => return .classLiteral (← string)
  | 11 => return .nested (← usageWith value)
  | _ => return .array (← list value)

/-- An element value in which values nest at most `levels` deep. Every level takes bytes, so that
no input is long enough to reach the end of as many levels as it has bytes. How deep calls may nest on a
machine is not looked at. -/
def value : (levels : Nat) → Get ElementValue
  | 0 => throw .endOfInput
  | levels + 1 => valueWith (value levels)

def usage : Get Usage := do
  let bytes ← get
  usageWith (value bytes.length)

def record : Get ClassRecord := do
  let name ← string
  let superclass ← option string
  let interfaces ← list string
  let flags ← number 2
  let classAnnotations ← list usage
  let fieldAnnotations ← map (list usage)
  let methodAnnotations ← map (list usage)
  let parameterAnnotations ← map (list (list usage))
  let isPartial ← bool
  return { name, superclass, interfaces, modifiers := ⟨UInt16.ofNat flags⟩, classAnnotations,
           fieldAnnotations, methodAnnotations, parameterAnnotations, isPartial }

def identity : Get Identity := do
  let path ← string
  let size ← u64
  let lastModified ← u64
  let digest ← option string
  return { path, size := UInt64.ofNat size, lastModified := UInt64.ofNat lastModified, digest }

/-- The payload of an index. -/
def index : Get Index := do
  let identity ← identity
  let classes ← map record
  let incomplete ← bool
  let failures ← list (pair string string)
  return { identity, classes, incomplete, failures }

end Get

/-! ### The frame -/

/-- The first bytes of a stored index. -/
def openingMark : Bytes := [0xC0, 0xCA, 0x01, 0x01]

/-- The last bytes of a stored index. -/
def closingMark : Bytes := [0xC0, 0xCA, 0xA0, 0xA0]

/-- The only version there is. -/
def version : Nat := 1

/-- The bytes around the payload: two marks and the version. -/
def frameLength : Nat := 10

/-- Why a byte string is no stored index. -/
inductive BlobError where
  /-- Shorter than the frame. -/
  | truncated (length : Nat)
  | badMagic
  | versionMismatch (found : Nat)
  | payload (fault : PayloadError)
  deriving DecidableEq, Repr

def BlobError.message : BlobError → String
  | truncated length => "blob too short (" ++ toString length ++ " bytes)"
  | badMagic => "bad blob magic"
  | versionMismatch found =>
    "unsupported blob version " ++ toString found ++ " (expected " ++ toString version ++ ")"
  | payload fault => "blob payload error: " ++ fault.message

/-- The bytes under which an index is stored. -/
def encode (index : Index) : Bytes :=
  openingMark ++ Bytes.bigEndian 2 version ++ putIndex index ++ closingMark

/-- The index that a byte string stores. -/
def decode (bytes : Bytes) : Except BlobError Index :=
  if bytes.length < frameLength then .error (.truncated bytes.length)
  else if bytes.take 4 ≠ openingMark ∨ bytes.drop (bytes.length - 4) ≠ closingMark then
    .error .badMagic
  else
    let found := Bytes.ofBigEndian ((bytes.drop 4).take 2)
    if found ≠ version then .error (.versionMismatch found)
    else
      match Get.index ((bytes.drop 6).take (bytes.length - frameLength)) with
      | .ok (index, _) => .ok index
      | .error fault => .error (.payload fault)

end ClassCatalog.Blob
