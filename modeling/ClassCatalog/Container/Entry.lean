import ClassCatalog.Container.Location
import ClassCatalog.FilePath

/-!
# Entries of containers

Which entries of a container hold a class, which files are archives, and the hash over the entries
of a container.
-/

namespace ClassCatalog

/-- A class file inside a container. -/
structure ClassEntry where
  /-- The path inside the container. -/
  name : String
  bytes : Bytes
  deriving DecidableEq, Repr, Inhabited

namespace ClassEntry

/-- The entries that end like classes and describe modules and packages. -/
def descriptors : List (List Char) := ["module-info.class".toList, "package-info.class".toList]

/-- Whether an entry of this name holds a class. Descriptors of modules and packages do not count,
and neither does what lies below `META-INF`. -/
def isClass (name : String) : Bool :=
  let chars := name.toList
  ".class".toList.isSuffixOf chars && !"META-INF/".toList.isPrefixOf chars &&
  !descriptors.contains ((Text.splitAll '/' chars).getLast?.getD [])

def archiveExtensions : List String := ["jar", "war", "rar", "zip"]

/-- Whether a path has the extension of an archive, in either case of its letters. -/
def isArchive (path : String) : Bool :=
  match FilePath.extension? path with
  | some e => archiveExtensions.contains (Text.lowerAscii e)
  | none => false

/-- What is hashed of an entry: its name, a zero byte and its bytes. -/
def digestBytes (e : ClassEntry) : Bytes := Utf8.encode e.name ++ 0 :: e.bytes

/-- The hash over entries in their order. -/
def digest (entries : List ClassEntry) : String :=
  Sha256.hexHash (entries.flatMap digestBytes)

end ClassEntry

end ClassCatalog
