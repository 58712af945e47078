import ClassCatalog.Bytes
import ClassCatalog.FilePath
import ClassCatalog.NameMap

/-!
# Disks

A disk is a map from places to files and directories. A path is followed step by step from the
working directory or the root, and every step but the last has to be made in a directory
(`Disk.follow`). What an operation changes gets the time of the disk's clock, which moves on with each
change. There are no links.
-/

namespace ClassCatalog

/-- Where something is on a disk: the names on the way from the root or the working directory. -/
structure Place where
  absolute : Bool
  names : List String
  deriving DecidableEq, Repr, Inhabited

namespace Place

def working : Place := ⟨false, []⟩

def root : Place := ⟨true, []⟩

def child (p : Place) (name : String) : Place := { p with names := p.names ++ [name] }

/-- The directory above. The root is above itself, and what is above the working directory is called
by two dots. -/
def above (p : Place) : Place :=
  if p.absolute then { p with names := p.names.dropLast }
  else
    match p.names.getLast? with
    | none | some ".." => p.child ".."
    | some _ => { p with names := p.names.dropLast }

/-- The text of a place. Different places have different texts as names hold no slash. -/
def key (p : Place) : String := (if p.absolute then "/" else "./") ++ "/".intercalate p.names

end Place

/-- A file or a directory. -/
inductive DiskNode where
  | file (bytes : Bytes) (modified : Int)
  | directory (modified : Int)
  deriving DecidableEq, Repr, Inhabited

namespace DiskNode

/-- When something last changed, in nanoseconds since 1970. -/
def modified : DiskNode → Int
  | file _ t => t
  | directory t => t

/-- The same node with another time. -/
def touched (t : Int) : DiskNode → DiskNode
  | file bytes _ => file bytes t
  | directory _ => directory t

def isDirectory : DiskNode → Bool
  | file .. => false
  | directory _ => true

end DiskNode

/-- Why a disk refuses an operation. -/
inductive DiskError where
  | notFound
  | alreadyThere
  | noDevice
  | notADirectory
  | isADirectory
  | nameTooLong
  | zeroInName
  deriving DecidableEq, Repr

def DiskError.message : DiskError → String
  | notFound => "No such file or directory (os error 2)"
  | alreadyThere => "File exists (os error 17)"
  | noDevice => "No such device (os error 19)"
  | notADirectory => "Not a directory (os error 20)"
  | isADirectory => "Is a directory (os error 21)"
  | nameTooLong => "File name too long (os error 36)"
  | zeroInName => "file name contained an unexpected NUL byte"

/-- A disk as seen from a working directory. -/
structure Disk where
  /-- What is at each place, by the text of the place. -/
  nodes : NameMap DiskNode
  /-- The time of the next change. -/
  clock : Int := 0
  deriving Inhabited

namespace Disk

/-- A disk with an empty working directory. -/
def blank (clock : Int) : Disk :=
  ⟨(∅ : NameMap DiskNode).insert Place.working.key (.directory clock), clock + 1⟩

/-- What is at a place. -/
def node? (d : Disk) (p : Place) : Option DiskNode := d.nodes.find? p.key

def isDirectoryAt (d : Disk) (p : Place) : Bool :=
  match d.node? p with
  | some n => n.isDirectory
  | none => false

/-- The most bytes a name can have. -/
def maxNameBytes : Nat := 255

/-- One step of a path from a place. -/
def step (p : Place) (part : String) : Except DiskError Place :=
  if part = "" ∨ part = "." then .ok p
  else if part = ".." then .ok p.above
  else if maxNameBytes < part.utf8ByteSize then .error .nameTooLong
  else .ok (p.child part)

/-- Follows the parts of a path; every step has to be made in a directory. -/
def follow (d : Disk) : Place → List String → Except DiskError Place
  | p, [] => .ok p
  | p, part :: rest =>
    match d.node? p with
    | none => .error .notFound
    | some (.file ..) => .error .notADirectory
    | some (.directory _) =>
      match step p part with
      | .ok q => follow d q rest
      | .error e => .error e

/-- The place a path leads to, whether or not there is something. -/
def locate (d : Disk) (path : String) : Except DiskError Place :=
  if path = "" then .error .notFound
  else if path.toList.contains '\x00' then .error .zeroInName
  else
    let parts := (Text.splitAll '/' path.toList).map String.ofList
    match parts with
    | "" :: rest => d.follow .root rest
    | parts => d.follow .working parts

/-- What a path leads to, and where it is. -/
def find (d : Disk) (path : String) : Except DiskError (Place × DiskNode) :=
  match d.locate path with
  | .error e => .error e
  | .ok p =>
    match d.node? p with
    | none => .error .notFound
    | some n => .ok (p, n)

def exists? (d : Disk) (path : String) : Bool := (d.find path).toBool

def isDirectory (d : Disk) (path : String) : Bool :=
  match d.find path with
  | .ok (_, n) => n.isDirectory
  | .error _ => false

def read (d : Disk) (path : String) : Except DiskError Bytes :=
  match d.find path with
  | .error e => .error e
  | .ok (_, .file bytes _) => .ok bytes
  | .ok (_, .directory _) => .error .isADirectory

/-- The bytes of a file as a mapping into memory gives them; a directory cannot be mapped. -/
def mapped (d : Disk) (path : String) : Except DiskError Bytes :=
  match d.find path with
  | .error e => .error e
  | .ok (_, .file bytes _) => .ok bytes
  | .ok (_, .directory _) => .error .noDevice

/-! ### What is below a place -/

/-- How the texts of the places below a directory begin. -/
def below (p : Place) : List Char :=
  if p.names = [] then p.key.toList else p.key.toList ++ ['/']

/-- The names on the way from a directory to a place below it, if the place is below it. -/
def namesBelow? (p : Place) (key : String) : Option (List String) :=
  match Text.dropStart? (below p) key.toList with
  | none | some [] => none
  | some rest => some ((Text.splitAll '/' rest).map String.ofList)

/-- Everything below a place with the names on the way to it. -/
def descendants (d : Disk) (p : Place) : List (List String × DiskNode) :=
  d.nodes.entries.filterMap fun e => (namesBelow? p e.1).map fun names => (names, e.2)

/-- The names in a directory, in their order. -/
def children (d : Disk) (p : Place) : List String :=
  (d.descendants p).filterMap fun e =>
    match e.1 with
    | [name] => some name
    | _ => none

/-- The names in the directory a path leads to. -/
def list (d : Disk) (path : String) : Except DiskError (List String) :=
  match d.find path with
  | .error e => .error e
  | .ok (_, .file ..) => .error .notADirectory
  | .ok (p, .directory _) => .ok (d.children p)

/-! ### Changes -/

def tick (d : Disk) : Disk := { d with clock := d.clock + 1 }

def put (d : Disk) (p : Place) (n : DiskNode) : Disk := { d with nodes := d.nodes.insert p.key n }

/-- Gives what is at a place another time. -/
def touch (d : Disk) (p : Place) (t : Int) : Disk :=
  match d.node? p with
  | none => d
  | some n => d.put p (n.touched t)

/-- Notes that the directory of a place has changed. -/
def touchAbove (d : Disk) (p : Place) : Disk := d.touch p.above d.clock

/-- Writes a file, in place of an earlier one. -/
def write (d : Disk) (path : String) (bytes : Bytes) : Except DiskError Disk :=
  match d.locate path with
  | .error e => .error e
  | .ok p =>
    match d.node? p with
    | some (.directory _) => .error .isADirectory
    | some (.file ..) => .ok (d.put p (.file bytes d.clock)).tick
    | none =>
      if d.isDirectoryAt p.above then
        .ok ((d.put p (.file bytes d.clock)).touchAbove p).tick
      else .error .notFound

/-- Takes a file away. -/
def remove (d : Disk) (path : String) : Except DiskError Disk :=
  match d.find path with
  | .error e => .error e
  | .ok (_, .directory _) => .error .isADirectory
  | .ok (p, .file ..) => .ok ({ d with nodes := d.nodes.erase p.key }.touchAbove p).tick

/-- Takes everything at and below a place away. -/
def eraseTree (d : Disk) (p : Place) : Disk :=
  { d with nodes := (d.nodes.filter fun key _ => (namesBelow? p key).isNone).erase p.key }

/-- Takes a directory away with all that is in it. -/
def removeTree (d : Disk) (path : String) : Except DiskError Disk :=
  match d.find path with
  | .error e => .error e
  | .ok (_, .file ..) => .error .notADirectory
  | .ok (p, .directory _) => .ok ((d.eraseTree p).touchAbove p).tick

/-- Gives a file another path, in place of what file was there. -/
def rename (d : Disk) (source target : String) : Except DiskError Disk :=
  match d.find source, d.locate target with
  | .error e, _ => .error e
  | .ok _, .error e => .error e
  | .ok (p, n), .ok q =>
    match d.node? q with
    | some (.directory _) => .error .isADirectory
    | _ =>
      if d.isDirectoryAt q.above then
        .ok ((({ d with nodes := d.nodes.erase p.key }.put q n).touchAbove p).touchAbove q).tick
      else .error .notFound

/-- Makes the directories on the way along names, where they are missing. -/
def makeDirectoriesFrom (d : Disk) : Place → List String → Except DiskError Disk
  | _, [] => .ok d
  | p, name :: rest =>
    match step p name with
    | .error e => .error e
    | .ok q =>
      match d.node? q with
      | some (.directory _) => makeDirectoriesFrom d q rest
      | some (.file ..) => .error (if rest = [] then .alreadyThere else .notADirectory)
      | none => makeDirectoriesFrom ((d.put q (.directory d.clock)).touchAbove q).tick q rest

/-- Makes a directory and those above it, where they are missing. -/
def makeDirectories (d : Disk) (path : String) : Except DiskError Disk :=
  if path = "" then .ok d
  else if path.toList.contains '\x00' then .error .zeroInName
  else
    match (Text.splitAll '/' path.toList).map String.ofList with
    | "" :: rest => d.makeDirectoriesFrom .root rest
    | parts => d.makeDirectoriesFrom .working parts

/-- Gives what a path leads to another time. -/
def setModified (d : Disk) (path : String) (t : Int) : Except DiskError Disk :=
  match d.find path with
  | .error e => .error e
  | .ok (p, _) => .ok (d.touch p t)

end Disk

end ClassCatalog
