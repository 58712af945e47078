import ClassCatalog.Archive.Zip
import ClassCatalog.Disk.Walk
import ClassCatalog.Store.Memory

/-!
# Containers on disk

Directories and zip archives as containers. The size of a directory is that of its class files
together, and its time the latest among theirs and its own; an archive in an archive has the size that
is recorded for it and the time of the outer file. The digest of an archive is that of its bytes.
-/

namespace ClassCatalog

/-- What is said of a directory where an archive should be. -/
def notAFile : String := "not a file"

/-- What is said of a file where a directory of classes should be. -/
def notADirectory : String := "not a directory"

namespace Disk

/-- A time as containers give it: nothing lies before 1970. -/
def stampTime (t : Int) : UInt64 := UInt64.ofNat (min t.toNat (UInt64.size - 1))

/-- What is said of a directory that cannot be searched. -/
def searchFailure (path : String) (e : DiskError) : String :=
  path ++ ": IO error for operation on " ++ path ++ ": " ++ e.message

/-- The files that paths lead to. -/
def nodesAt (d : Disk) : List (String × String) → Except DiskError (List DiskNode)
  | [] => .ok []
  | f :: rest => do
    let (_, n) ← d.find f.2
    let others ← nodesAt d rest
    return n :: others

def sizeOfNode : DiskNode → Nat
  | .file bytes _ => bytes.length
  | .directory _ => 0

/-- Size and time of a directory with class files. -/
def directoryStat (d : Disk) (path : String) (own : Int) : Except String ContainerStat :=
  match d.classFiles path with
  | .error e => .error (searchFailure path e)
  | .ok files =>
    match d.nodesAt files with
    | .error e => .error e.message
    | .ok nodes =>
      .ok ⟨ContainerStat.totalSize (nodes.map sizeOfNode),
        (nodes.map fun n => stampTime n.modified).foldl max (stampTime own)⟩

def containerStat (d : Disk) : Location → Except String ContainerStat
  | .archive path =>
    match d.find path with
    | .error e => .error e.message
    | .ok (_, .directory _) => .error notAFile
    | .ok (_, .file bytes t) => .ok ⟨UInt64.ofNat bytes.length, stampTime t⟩
  | .directory path =>
    match d.find path with
    | .error e => .error e.message
    | .ok (_, .file ..) => .error notADirectory
    | .ok (_, .directory t) => d.directoryStat path t
  | .nested outer entry =>
    match d.find outer, d.mapped outer with
    | .error e, _ => .error e.message
    | .ok _, .error e => .error e.message
    | .ok (_, n), .ok bytes =>
      match Zip.Archive.sizeOf bytes entry with
      | .error e => .error e.message
      | .ok size => .ok ⟨UInt64.ofNat size, stampTime n.modified⟩

/-- Delivers files as class entries, up to the first that cannot be read. -/
def deliverFiles (d : Disk) : List (String × String) → Enumeration
  | [] => {}
  | (name, path) :: rest =>
    match d.read path with
    | .error e => { failure := some e.message }
    | .ok bytes =>
      let course := deliverFiles d rest
      { course with deliveries := .entry ⟨name, bytes⟩ :: course.deliveries }

/-- The class entries of a container. -/
def containerCourse (d : Disk) : Location → Enumeration
  | .directory path =>
    match d.classFiles path with
    | .error e => { failure := some (searchFailure path e) }
    | .ok files => d.deliverFiles files
  | .archive path =>
    match d.mapped path with
    | .error e => { failure := some e.message }
    | .ok bytes => Zip.Archive.course bytes
  | .nested outer entry =>
    match d.mapped outer with
    | .error e => { failure := some e.message }
    | .ok bytes =>
      match Zip.Archive.extract bytes entry with
      | .error e => { failure := some e.message }
      | .ok inner => Zip.Archive.course inner

def archiveDigest (d : Disk) : Location → Option (Except String String)
  | .archive path => some ((d.mapped path).mapError DiskError.message |>.map Sha256.hexHash)
  | _ => none

end Disk

/-- A disk, and a store in memory. -/
structure DiskWorld where
  disk : Disk
  memory : MemoryStore := {}
  deriving Inhabited

namespace DiskWorld

def onDisk (s : Store Disk) : Store DiskWorld := s.onPart (·.disk) fun d w => { w with disk := d }

def inMemory : Store DiskWorld :=
  MemoryStore.store.onPart (·.memory) fun m w => { w with memory := m }

/-- The environment of the containers on the disk and a store. -/
def environment (store : Store DiskWorld) : Environment DiskWorld where
  stat l w := w.disk.containerStat l
  enumerate l w := (.delivered (w.disk.containerCourse l), w)
  ownDigest l w := w.disk.archiveDigest l
  store := store
  pending _ := 0

end DiskWorld

end ClassCatalog
