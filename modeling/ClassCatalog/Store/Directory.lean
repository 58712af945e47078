import ClassCatalog.Cache.Environment
import ClassCatalog.Disk.Basic

/-!
# Stores with a file for each key

The bytes under a key are a file of the store's directory. They are first written to a staging file
beside it, which then takes the file's name, so that the file holds either the earlier bytes or the
new ones.
-/

namespace ClassCatalog

/-- A refusal of the disk as a failure of the store. -/
def StoreError.ofDisk (e : DiskError) : StoreError := .io e.message

namespace DirectoryStore

def blobExtension : String := "bin"

def stagingExtension : String := "tmp"

/-- The file with the bytes under a key. -/
def blobPath (root key : String) : String := FilePath.join root (key ++ "." ++ blobExtension)

/-- The file where the bytes under a key are staged. -/
def stagingPath (root key : String) : String := FilePath.join root (key ++ "." ++ stagingExtension)

/-- A step that is tried and changes nothing if it fails. -/
def attempt (d : Disk) (r : Except DiskError Disk) : Disk :=
  match r with
  | .ok d => d
  | .error _ => d

/-- Makes the directory. -/
def prepare (root : String) (d : Disk) : Except StoreError Disk :=
  (d.makeDirectories root).mapError StoreError.ofDisk

def get (root key : String) (d : Disk) : Except StoreError (Option Bytes) :=
  match d.read (blobPath root key) with
  | .ok bytes => .ok (some bytes)
  | .error .notFound => .ok none
  | .error e => .error (.ofDisk e)

/-- The first step of replacing the bytes under a key. -/
def stage (root key : String) (bytes : Bytes) (d : Disk) : Except DiskError Disk :=
  d.write (stagingPath root key) bytes

/-- The second step: the staged bytes are now those under the key. -/
def commit (root key : String) (d : Disk) : Except DiskError Disk :=
  d.rename (stagingPath root key) (blobPath root key)

/-- Replaces the bytes under a key. What was staged is taken away if that fails. -/
def put (root key : String) (bytes : Bytes) (d : Disk) : Except StoreError Unit × Disk :=
  match stage root key bytes d with
  | .error e => (.error (.ofDisk e), d)
  | .ok staged =>
    match commit root key staged with
    | .ok done => (.ok (), done)
    | .error e =>
      (.error (.ofDisk e), attempt staged (staged.remove (stagingPath root key)))

/-- Takes away what is under a key and what is staged for it. -/
def delete (root key : String) (d : Disk) : Except StoreError Bool × Disk :=
  let d := attempt d (d.remove (stagingPath root key))
  match d.remove (blobPath root key) with
  | .ok d => (.ok true, d)
  | .error .notFound => (.ok false, d)
  | .error e => (.error (.ofDisk e), d)

/-- The names in the directory that have one of the extensions. -/
def namesWith (root : String) (extensions : List String) (d : Disk) :
    Except StoreError (List String) :=
  match d.list root with
  | .error e => .error (.ofDisk e)
  | .ok names =>
    .ok (names.filter fun name =>
      match FilePath.extension? name with
      | some e => extensions.contains e
      | none => false)

def size (root : String) (d : Disk) : Except StoreError Nat :=
  (namesWith root [blobExtension] d).map List.length

/-- Takes files away up to the first that cannot be. -/
def removeAll (root : String) : List String → Disk → Except StoreError Unit × Disk
  | [], d => (.ok (), d)
  | name :: rest, d =>
    match d.remove (FilePath.join root name) with
    | .ok d => removeAll root rest d
    | .error e => (.error (.ofDisk e), d)

/-- Takes away all that is stored and staged. -/
def clear (root : String) (d : Disk) : Except StoreError Unit × Disk :=
  match namesWith root [blobExtension, stagingExtension] d with
  | .error e => (.error e, d)
  | .ok names => removeAll root names d

def store (root : String) : Store Disk where
  get := get root
  put := put root
  delete := delete root
  size := size root
  clear := clear root
  description := "dir:" ++ root

end DirectoryStore

end ClassCatalog
