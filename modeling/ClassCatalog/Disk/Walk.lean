import ClassCatalog.Container.Entry
import ClassCatalog.Disk.Basic
import ClassCatalog.Disk.IgnoreRules

/-!
# Finding files

Class files are looked for everywhere below a directory. Archives are looked for below a directory as
far as no ignore rules speak against it: a file counts if neither it nor a directory on the way to it
is ignored, and of the rules in the directories around something the closest that fit decide. Rules
above the directory where the search starts count too, but not for that directory itself. Of a relative path
nothing is known above the working directory, so rules that stand there are not looked at, though a search on a
whole machine would follow them.
-/

namespace ClassCatalog.Disk

/-- The path of something below a directory. -/
def pathBelow (directory : String) (names : List String) : String :=
  names.foldl FilePath.join directory

/-- The files below a place with the names on the way to them. -/
def filesBelow (d : Disk) (p : Place) : List (List String) :=
  (d.descendants p).filterMap fun e => if e.2.isDirectory then none else some e.1

/-- The class files below a directory: the names of the entries, and the paths of the files, in the
order of the names. -/
def classFiles (d : Disk) (path : String) : Except DiskError (List (String × String)) :=
  match d.find path with
  | .error e => .error e
  | .ok (_, .file ..) => .ok []
  | .ok (p, .directory _) =>
    let found := (d.filesBelow p).map fun names => ("/".intercalate names, pathBelow path names)
    .ok ((found.filter fun f => ClassEntry.isClass f.1).mergeSort fun a b => a.1 ≤ b.1)

/-! ### Ignored files -/

def ignoreFileName : String := ".ignore"

def ignoreRules (d : Disk) (p : Place) : List IgnoreRule :=
  match d.node? (p.child ignoreFileName) with
  | some (.file bytes _) => IgnoreRules.ofBytes bytes
  | _ => []

/-- What the rules in the directories around something say of it: `around` are the names on the way
to the directory it is in, in reverse, and `names` those from there to the thing itself. -/
def verdictAround? (d : Disk) (absolute isDirectory : Bool) : (around names : List String) →
    Option Verdict
  | around, names =>
    let rules := d.ignoreRules ⟨absolute, around.reverse⟩
    let path := Utf8.encode ("/".intercalate names)
    match IgnoreRules.verdict? rules path isDirectory, around with
    | some v, _ => some v
    | none, [] => none
    | none, name :: outer => verdictAround? d absolute isDirectory outer (name :: names)

/-- Whether something is ignored for itself, by the rules from the root or the working directory on. -/
def isIgnoredAt (d : Disk) (p : Place) : Bool :=
  match p.names.reverse with
  | [] => false
  | name :: around =>
    verdictAround? d p.absolute (d.isDirectoryAt p) around [name] == some .ignored

/-- Whether something below a place is ignored, for itself or for a directory on the way to it. -/
def isIgnored (d : Disk) (p : Place) : List String → Bool
  | [] => false
  | name :: rest => d.isIgnoredAt (p.child name) || isIgnored d (p.child name) rest

/-- The order of ways below a directory: the first names that differ decide, and what is on the way
to something comes before it. -/
def namesLe : List String → List String → Bool
  | [], _ => true
  | _ :: _, [] => false
  | a :: as, b :: bs => a < b || (a == b && namesLe as bs)

/-- Finds the archives at and below a path, in the order of the names on the way to them. -/
def archives (d : Disk) (path : String) : List String :=
  match d.find path with
  | .error _ => []
  | .ok (_, .file ..) => if ClassEntry.isArchive path then [path] else []
  | .ok (p, .directory _) =>
    let found := (d.filesBelow p).filter fun names =>
      ClassEntry.isArchive (names.getLastD "") && !d.isIgnored p names
    (found.mergeSort namesLe).map (pathBelow path)

end ClassCatalog.Disk
