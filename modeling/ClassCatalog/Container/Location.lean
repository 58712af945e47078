import ClassCatalog.Sha256
import ClassCatalog.Text.Split

/-!
# Where containers live

A container of classes is a directory, an archive, or an archive inside an archive. Its logical path
is its text form and determines the key under which its index is stored.
-/

namespace ClassCatalog

/-- Where a container of classes lives. -/
inductive Location where
  | directory (path : String)
  | archive (path : String)
  | nested (archive entry : String)
  deriving DecidableEq, Repr, Inhabited

namespace Location

/-- Stands between an archive and an entry of it. -/
def nestedMark : List Char := ['!', '/']

/-- The text form of a location. -/
def logicalPath : Location → String
  | directory path => path
  | archive path => path
  | nested outer entry => outer ++ String.ofList nestedMark ++ entry

/-- The path on disk that a location starts from. -/
def diskPath : Location → String
  | directory path => path
  | archive path => path
  | nested outer _ => outer

/-- The entry inside the archive, for a nested archive. -/
def entry? : Location → Option String
  | nested _ entry => some entry
  | _ => none

/-- Reads a location. The first mark makes it a nested archive, whatever follows; without a mark the
disk decides between directory and archive, and what is absent counts as an archive. -/
def parse (isDirectory : String → Bool) (raw : String) : Location :=
  match Text.splitFirst? nestedMark raw.toList with
  | some (outer, entry) =>
    nested (String.ofList outer) (String.ofList (entry.dropWhile (· == '/')))
  | none => if isDirectory raw then directory raw else archive raw

/-- The key of a container's index: the hash of its logical path. -/
def cacheKey (l : Location) : String := Sha256.hexHash (Utf8.encode l.logicalPath)

end Location

end ClassCatalog
