import ClassCatalog.Text.Split

/-!
# Path text

What a path says without looking at a disk: its components, its last name, the extension of that
name, the path of its parent and the path of something below it. Repeated slashes and single dots
make no component, but for a dot at the start of a relative path.
-/

namespace ClassCatalog.FilePath

/-- One step of a path. -/
inductive Component where
  | root
  | current
  | parent
  | name (text : String)
  deriving DecidableEq, Repr

/-- The step that a part between slashes stands for. -/
def Component.ofPart (part : List Char) : Component :=
  if part = ['.'] then current
  else if part = ['.', '.'] then parent
  else name (String.ofList part)

def Component.text : Component → String
  | root => "/"
  | current => "."
  | parent => ".."
  | name text => text

/-- The steps that parts between slashes stand for, empty parts and dots left out. -/
def steps (parts : List (List Char)) : List Component :=
  (parts.filter fun p => p ≠ [] ∧ p ≠ ['.']).map Component.ofPart

def components (path : String) : List Component :=
  match Text.splitAll '/' path.toList with
  | [] => []
  | [] :: parts => if parts = [] then [] else .root :: steps parts
  | first :: parts => if first = ['.'] then .current :: steps parts else steps (first :: parts)

/-- Whether two paths have the same components. -/
def same (a b : String) : Bool := components a == components b

/-- The name a path ends in. -/
def fileName? (path : String) : Option String :=
  match (components path).getLast? with
  | some (.name text) => some text
  | _ => none

/-- What follows the last dot of a file name, unless the dot is its first character. -/
def extension? (path : String) : Option String := do
  let name ← fileName? path
  let (before, after) ← Text.splitLast? '.' name.toList
  if before = [] then none else some (String.ofList after)

/-- A path as seen from a directory. An absolute path stays as it is. -/
def join (directory path : String) : String :=
  if path.toList.head? = some '/' ∨ directory = "" then path
  else if directory.toList.getLast? = some '/' then directory ++ path
  else directory ++ "/" ++ path

/-- The path of components. -/
def ofComponents : List Component → String
  | .root :: rest => "/" ++ "/".intercalate (rest.map Component.text)
  | parts => "/".intercalate (parts.map Component.text)

/-- The path of the directory that holds what a path names, unless the path is empty or a root. -/
def parent? (path : String) : Option String :=
  match (components path).getLast? with
  | none | some .root => none
  | some _ => some (ofComponents (components path).dropLast)

end ClassCatalog.FilePath
