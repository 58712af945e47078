import ClassCatalog.Index.Blob
import ClassCatalog.Store.Directory

/-!
# Stores in one file

A database is a file with two maps from keys to bytes: what is stored and what is staged. Each change of the
file is one transaction. New bytes are first staged and then take the place of those stored; what is left staged
when a database is opened comes from a write that was broken off and is dropped.

A file may have no space for a transaction, which then changes nothing. How a file lays out its entries is not
modelled, and so all is said of any `Database.Space`; the stores themselves count the bytes of the entries
(`Database.Space.mapped`). A second file beside it, for locking, stays empty.
-/

namespace ClassCatalog

/-- The contents of a database. -/
structure Database where
  indexes : NameMap Bytes := ∅
  staging : NameMap Bytes := ∅
  deriving Inhabited

namespace Database

/-! ### The file -/

def mark : Bytes := [0x69, 0x6E, 0x64, 0x65, 0x78, 0x65, 0x73, 0x31]

/-- A number of any size: a byte for each time that it goes beyond 64 bits, and then what is left in 64 bits. -/
def putNat (n : Nat) : Bytes := List.replicate (n / UInt64.size) 1 ++ 0 :: Blob.putU64 n

def putBytes (bytes : Bytes) : Bytes := putNat bytes.length ++ bytes

def putText (s : String) : Bytes := putBytes (Utf8.encode s)

def putEntries (m : NameMap Bytes) : Bytes :=
  putNat m.entries.length ++ m.entries.flatMap (Blob.putPair putText putBytes)

def encode (b : Database) : Bytes := mark ++ putEntries b.indexes ++ putEntries b.staging

def getNat : Bytes → Except Blob.PayloadError (Nat × Bytes)
  | [] => .error .endOfInput
  | first :: rest =>
    if first = 0 then Blob.Get.u64 rest else (getNat rest).map fun p => (UInt64.size + p.1, p.2)

/-- Reads bytes behind their number. -/
def getBytes : Blob.Get Bytes := do
  let n ← getNat
  Blob.Get.slice n

def getText : Blob.Get String := do
  let bytes ← getBytes
  match Utf8.decode bytes with
  | .ok s => return s
  | .error fault => throw (.invalidUtf8 fault)

def getEntries : Blob.Get (NameMap Bytes) := do
  let n ← getNat
  let entries ← Blob.Get.repeated (Blob.Get.pair getText getBytes) n
  return NameMap.ofList entries

def getDatabase : Blob.Get Database := do
  let indexes ← getEntries
  let staging ← getEntries
  return { indexes, staging }

/-- The database in a file. An empty file is an empty database. -/
def decode? (bytes : Bytes) : Option Database :=
  if bytes = [] then some {}
  else
    match Bytes.splitAt? mark.length bytes with
    | none => none
    | some (start, rest) =>
      if start = mark then
        match getDatabase.run rest with
        | .ok (b, _) => some b
        | .error _ => none
      else none

/-! ### Failures -/

def maxKeyBytes : Nat := 511

/-- The failure for a file that is no database. -/
def foreign : StoreError := .backend "MDB_INVALID: File is not an LMDB file"

/-- The failure for a key that is empty or too long. -/
def badKey : StoreError := .backend
  "MDB_BAD_VALSIZE: Unsupported size of key/DB name/data, or wrong DUPFIXED size"

/-- The failure for a transaction that there is no space for. -/
def full : StoreError := .backend "MDB_MAP_FULL: Environment mapsize limit reached"

/-- The failure for staged bytes that are gone. -/
def vanished (key : String) : StoreError := .backend ("staged value for " ++ key ++ " vanished")

/-- A refusal of the disk to work on the file. -/
def refused (e : DiskError) : StoreError := .backend e.message

/-- Whether bytes can be put under a key. -/
def isKey (key : String) : Bool := key ≠ "" && key.utf8ByteSize ≤ maxKeyBytes

/-! ### Changes -/

/-- The first step of replacing the bytes under a key. -/
def stage (b : Database) (key : String) (bytes : Bytes) : Database :=
  { b with staging := b.staging.insert key bytes }

/-- The bytes are now those under the key, and nothing is staged for it. -/
def promote (b : Database) (key : String) (bytes : Bytes) : Database :=
  { indexes := b.indexes.insert key bytes, staging := b.staging.erase key }

/-- The second step: what is staged takes the place of what is under the key. -/
def commit (key : String) (b : Database) : Except StoreError Database :=
  match b.staging.find? key with
  | none => .error (vanished key)
  | some bytes => .ok (b.promote key bytes)

/-- The contents without a key. -/
def erase (b : Database) (key : String) : Database :=
  { indexes := b.indexes.erase key, staging := b.staging.erase key }

/-- The contents without what is staged. -/
def sweep (b : Database) : Database := { b with staging := ∅ }

/-! ### Space -/

/-- Decides whether a file has space for a transaction: on a disk as it is, from the contents before it to those
after it. What a file has done before may count too, for the clock of the disk tells apart any two moments. -/
structure Space where
  fits : Disk → Database → Database → Bool

/-- How many bytes a database may take up. -/
def mapSize : Nat := 1024 * 1024 * 1024

def entrySize (e : String × Bytes) : Nat := e.1.utf8ByteSize + e.2.length

def entriesSize : List (String × Bytes) → Nat
  | [] => 0
  | e :: rest => entrySize e + entriesSize rest

/-- How many bytes the entries take up. -/
def size (b : Database) : Nat := entriesSize b.indexes.entries + entriesSize b.staging.entries

/-- How many bytes a transaction writes: those of the entries that are there after it and not before it. -/
def written (before after : Database) : Nat :=
  entriesSize (after.indexes.entries.removeAll before.indexes.entries) +
    entriesSize (after.staging.entries.removeAll before.staging.entries)

/-- Whether there is space for what a transaction writes. What it replaces does not count as free: it is in the
file until the transaction is done. -/
def hasSpace (before after : Database) : Bool :=
  written before after = 0 || size before + written before after ≤ mapSize

/-- Makes a change if there is space for it. -/
def checked (fits : Database → Database → Bool) (change : Database → Except StoreError Database)
    (b : Database) : Except StoreError Database :=
  match change b with
  | .error e => .error e
  | .ok after => if fits b after then .ok after else .error full

/-! ### Transactions -/

def lockPath (path : String) : String := path ++ "-lock"

/-- The contents of the file at a path; of a file that is gone, nothing. -/
def load (path : String) (d : Disk) : Except StoreError Database :=
  match d.read path with
  | .error .notFound => .ok {}
  | .error e => .error (refused e)
  | .ok bytes =>
    match decode? bytes with
    | some b => .ok b
    | none => .error foreign

/-- Checks a path at which there may be nothing yet: then its directory has to be named, if only by a
dot. -/
def checkPath (path : String) (d : Disk) : Except StoreError Unit :=
  match d.find path with
  | .ok _ => .ok ()
  | .error .notFound =>
    if (FilePath.parent? path).getD "" = "" then .error (refused .notFound) else .ok ()
  | .error e => .error (refused e)

/-- A transaction on the file: the outcome, and the disk afterwards. -/
def finish {α : Type} (outcome : α) (before : Disk) (r : Except StoreError Disk) :
    Except StoreError α × Disk :=
  match r with
  | .ok after => (.ok outcome, after)
  | .error e => (.error e, before)

def get (path key : String) (d : Disk) : Except StoreError (Option Bytes) :=
  if key = "" then .error badKey
  else (load path d).map fun b => b.indexes.find? key

namespace Space

variable (space : Space)

/-- Changes the contents of the file at a path in one step, unless the change fails or there is no space for it. -/
def transact (path : String) (change : Database → Except StoreError Database) (d : Disk) :
    Except StoreError Disk :=
  match load path d with
  | .error e => .error e
  | .ok b =>
    match checked (space.fits d) change b with
    | .error e => .error e
    | .ok b => (d.write path b.encode).mapError refused

/-- A transaction whose change cannot fail. -/
def update (path : String) (change : Database → Database) : Disk → Except StoreError Disk :=
  space.transact path fun b => .ok (change b)

/-- Opens the database at a path: makes what is missing and drops what is staged. -/
def prepare (path : String) (d : Disk) : Except StoreError Disk := do
  let d ← (d.makeDirectories ((FilePath.parent? path).getD "")).mapError StoreError.ofDisk
  checkPath path d
  let d ← if d.exists? (lockPath path) then
      if d.isDirectory (lockPath path) then .error (refused .isADirectory) else .ok d
    else (d.write (lockPath path) []).mapError refused
  space.update path sweep d

/-- Replaces the bytes under a key. If they were staged and there is no space to do more, they stay staged. -/
def put (path key : String) (bytes : Bytes) (d : Disk) : Except StoreError Unit × Disk :=
  if ¬ isKey key then (.error badKey, d)
  else
    match space.update path (stage · key bytes) d with
    | .error e => (.error e, d)
    | .ok staged => finish () staged (space.transact path (commit key) staged)

/-- Takes away what is under a key and what is staged for it. -/
def delete (path key : String) (d : Disk) : Except StoreError Bool × Disk :=
  if key = "" then (.error badKey, d)
  else
    match load path d with
    | .error e => (.error e, d)
    | .ok b => finish (b.indexes.contains key) d (space.update path (erase · key) d)

def store (path : String) : Store Disk where
  get := get path
  put := space.put path
  delete := space.delete path
  size d := (load path d).map fun b => b.indexes.size
  clear d := finish () d (space.update path (fun _ => {}) d)
  description := "lmdb:" ++ path

/-- The bytes of the entries are counted. -/
def mapped : Space where
  fits _ := hasSpace

end Space

abbrev prepare (path : String) : Disk → Except StoreError Disk := Space.mapped.prepare path

abbrev store (path : String) : Store Disk := Space.mapped.store path

end Database

/-- The store at a path: a directory has a file for each key, and all else is a database. -/
def Store.openAt (path : String) (d : Disk) : Except StoreError (Store Disk × Disk) :=
  if d.isDirectory path then
    (DirectoryStore.prepare path d).map fun d => (DirectoryStore.store path, d)
  else (Database.prepare path d).map fun d => (Database.store path, d)

end ClassCatalog
