import ClassCatalog.Archive.Crc32
import ClassCatalog.Archive.Inflate
import ClassCatalog.Cache.Environment
import ClassCatalog.Text.CodePage437

/-!
# Zip archives

An archive ends with a record that tells where its directory lies. The directory lists the entries,
and each entry has a header of its own in front of its data. All offsets count from the start of the
archive, which need not be the start of the file: what stands in front moves the directory by as much
as its place differs from the one recorded.

Of an archive whose classes are wanted every entry has to be in order, also those that are no classes.
-/

namespace ClassCatalog.Zip

inductive ZipError where
  | tooShort
  | noEndRecord
  | severalDisks
  | badDirectoryPlace
  | badDirectory
  | badEntryHeader
  | endOfFile
  | encrypted
  | unsupportedMethod
  | noSuchEntry
  | corruptData
  | badChecksum
  deriving DecidableEq, Repr

def ZipError.message : ZipError → String
  | tooShort => "invalid Zip archive: Invalid zip header"
  | noEndRecord => "invalid Zip archive: Could not find central directory end"
  | severalDisks => "unsupported Zip archive: Support for multi-disk files is not implemented"
  | badDirectoryPlace => "invalid Zip archive: Invalid central directory size or offset"
  | badDirectory => "invalid Zip archive: Invalid Central Directory header"
  | badEntryHeader => "invalid Zip archive: Invalid local file header"
  | endOfFile => "failed to fill whole buffer"
  | encrypted => "unsupported Zip archive: Password required to decrypt file"
  | unsupportedMethod => "unsupported Zip archive: Compression method not supported"
  | noSuchEntry => "specified file not found in archive"
  | corruptData => "corrupt deflate stream"
  | badChecksum => "Invalid checksum"

/-- The number of `width` bytes at an offset, the least significant first. -/
def field (offset width : Nat) (bytes : Bytes) : Nat :=
  Bytes.ofLittleEndian ((bytes.drop offset).take width)

/-- The first bytes, or an error if there are fewer. -/
def front (n : Nat) (bytes : Bytes) : Except ZipError (Bytes × Bytes) :=
  match Bytes.splitAt? n bytes with
  | some p => .ok p
  | none => .error .endOfFile

/-! ### The end record -/

/-- What the end record tells. -/
structure EndRecord where
  disk : Nat
  directoryDisk : Nat
  entriesHere : Nat
  entries : Nat
  directorySize : Nat
  directoryOffset : Nat
  deriving DecidableEq, Repr

namespace EndRecord

def length : Nat := 22

def signature : Nat := 0x06054b50

def maxComment : Nat := 0xFFFF

/-- Whether a byte string starts with a record, its comment apart. -/
def isAtFront (bytes : Bytes) : Bool :=
  field 0 4 bytes == signature && (Bytes.splitAt? length bytes).isSome

/-- Reads the record that a byte string starts with; its comment has to be there. -/
def read (bytes : Bytes) : Except ZipError EndRecord := do
  let (fixed, rest) ← front length bytes
  let _ ← front (field 20 2 fixed) rest
  return ⟨field 4 2 fixed, field 6 2 fixed, field 8 2 fixed, field 10 2 fixed, field 12 4 fixed,
    field 16 4 fixed⟩

/-- Where in a byte string the last record starts, and the bytes from there on. -/
def last? (position : Nat) : Bytes → Option (Nat × Bytes)
  | [] => none
  | b :: rest =>
    match last? (position + 1) rest with
    | some found => some found
    | none => if isAtFront (b :: rest) then some (position, b :: rest) else none

/-- The end record of an archive, and where it starts. -/
def find (bytes : Bytes) : Except ZipError (Nat × EndRecord) := do
  let start := bytes.length - (length + maxComment)
  match last? start (bytes.drop start) with
  | none => throw .noEndRecord
  | some (position, found) => return (position, ← read found)

/-- Whether some number does not fit into the record. -/
def isTooSmall (r : EndRecord) : Bool :=
  r.disk == 0xFFFF || r.directoryDisk == 0xFFFF || r.entriesHere == 0xFFFF ||
  r.entries == 0xFFFF || r.directorySize == 0xFFFFFFFF || r.directoryOffset == 0xFFFFFFFF

end EndRecord

/-! ### Entries -/

/-- What the directory tells of an entry. -/
structure Entry where
  name : String
  isEncrypted : Bool
  method : Nat
  checksum : UInt32
  /-- The number of bytes in the archive. -/
  storedSize : Nat
  size : Nat
  /-- Where the entry's own header starts. -/
  start : Nat
  deriving DecidableEq, Repr

namespace Entry

/-- The bytes of a header in the directory, without the name and what follows it. -/
def directoryLength : Nat := 46

def directorySignature : Nat := 0x02014b50

/-- The bytes of an entry's own header, without the name and what follows it. -/
def ownLength : Nat := 30

def ownSignature : Nat := 0x04034b50

def storedMethod : Nat := 0

def deflatedMethod : Nat := 8

/-- The name of an entry; a flag tells the character set. -/
def nameOf (flags : Nat) (bytes : Bytes) : String :=
  if flags.testBit 11 then Utf8.decodeLossy bytes else CodePage437.decode bytes

/-- Reads an entry of the directory, and the rest of the bytes. `shift` is where the archive starts. -/
def read (shift : Nat) (bytes : Bytes) : Except ZipError (Entry × Bytes) := do
  let (signature, _) ← front 4 bytes
  if Bytes.ofLittleEndian signature ≠ directorySignature then throw .badDirectory
  let (header, rest) ← front directoryLength bytes
  let (name, rest) ← front (field 28 2 header) rest
  let (_, rest) ← front (field 30 2 header) rest
  let (_, rest) ← front (field 32 2 header) rest
  let flags := field 8 2 header
  let entry : Entry :=
    { name := nameOf flags name
      isEncrypted := flags.testBit 0
      method := field 10 2 header
      checksum := UInt32.ofNat (field 16 4 header)
      storedSize := field 20 4 header
      size := field 24 4 header
      start := shift + field 42 4 header }
  return (entry, rest)

def readAll (shift : Nat) : (n : Nat) → Bytes → Except ZipError (List Entry)
  | 0, _ => .ok []
  | n + 1, bytes => do
    let (entry, rest) ← read shift bytes
    let entries ← readAll shift n rest
    return entry :: entries

def isDirectory (e : Entry) : Bool :=
  match e.name.toList.getLast? with
  | some c => c == '/' || c == '\\'
  | none => false

/-- The data of an entry as it is in the file. -/
def data (file : Bytes) (e : Entry) : Except ZipError Bytes := do
  if e.isEncrypted then throw .encrypted
  let header := file.drop e.start
  let (signature, _) ← front 4 header
  if Bytes.ofLittleEndian signature ≠ ownSignature then throw .badEntryHeader
  let (fixed, rest) ← front ownLength header
  let data := (rest.drop (field 26 2 fixed + field 28 2 fixed)).take e.storedSize
  if e.method ≠ storedMethod ∧ e.method ≠ deflatedMethod then throw .unsupportedMethod
  return data

/-- What the data of an entry stands for. The checksum has to be right. -/
def contents (file : Bytes) (e : Entry) : Except ZipError Bytes := do
  let data ← e.data file
  let bytes ←
    if e.method = storedMethod then pure data
    else match Inflate.inflate? data with
      | some bytes => pure bytes
      | none => throw .corruptData
  if Crc32.checksum bytes = e.checksum then return bytes else throw .badChecksum

end Entry

/-! ### Archives -/

/-- An archive: its file and the entries its directory lists. -/
structure Archive where
  file : Bytes
  entries : List Entry

namespace Archive

/-- Reads the directory of an archive. -/
def ofFile (file : Bytes) : Except ZipError Archive := do
  if file.length < EndRecord.length then throw .tooShort
  let (position, r) ← EndRecord.find file
  if ¬ r.isTooSmall ∧ r.disk ≠ r.directoryDisk then throw .severalDisks
  if position < r.directorySize + r.directoryOffset then throw .badDirectoryPlace
  let shift := position - r.directorySize - r.directoryOffset
  let entries ← Entry.readAll shift r.entriesHere (file.drop (shift + r.directoryOffset))
  return { file, entries }

/-- The entry of a name; of several the last. -/
def entry (a : Archive) (name : String) : Except ZipError Entry :=
  match a.entries.reverse.find? fun e => e.name == name with
  | some e => .ok e
  | none => .error .noSuchEntry

/-- Whether every entry is in order as far as that shows without its contents. -/
def check (a : Archive) : List Entry → Except ZipError Unit
  | [] => .ok ()
  | e :: rest =>
    match e.data a.file with
    | .ok _ => check a rest
    | .error err => .error err

/-- The entries that hold classes, in the order of their names. -/
def classEntries (a : Archive) : List Entry :=
  (a.entries.filter fun e => !e.isDirectory && ClassEntry.isClass e.name).mergeSort
    fun e f => e.name ≤ f.name

/-- Delivers the contents of entries up to the first that cannot be read. -/
def deliver (a : Archive) : List Entry → Enumeration
  | [] => {}
  | e :: rest =>
    match e.contents a.file with
    | .error err => { failure := some err.message }
    | .ok bytes =>
      let course := deliver a rest
      { course with deliveries := .entry ⟨e.name, bytes⟩ :: course.deliveries }

/-- The classes in an archive. -/
def course (file : Bytes) : Enumeration :=
  match ofFile file with
  | .error err => { failure := some err.message }
  | .ok a =>
    match a.check a.entries with
    | .error err => { failure := some err.message }
    | .ok () => a.deliver a.classEntries

/-- The size of the contents of an entry as the directory gives it. -/
def sizeOf (file : Bytes) (name : String) : Except ZipError Nat := do
  let a ← ofFile file
  let e ← a.entry name
  let _ ← e.data file
  return e.size

def extract (file : Bytes) (name : String) : Except ZipError Bytes := do
  let a ← ofFile file
  let e ← a.entry name
  e.contents file

end Archive

end ClassCatalog.Zip
