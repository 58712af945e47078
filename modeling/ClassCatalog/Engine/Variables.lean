import ClassCatalog.Decimal.Natural
import ClassCatalog.Engine.Basic
import ClassCatalog.Failure

/-!
# Options from environment variables

Variables override the options they are applied to, in a fixed order; the first variable with a value
that cannot be read is reported.
-/

namespace ClassCatalog

namespace EngineOptions

/-- The words for yes and no. An empty text is a no. -/
def boolean? (text : String) : Option Bool :=
  if ["1", "true", "yes", "on"].contains text then some true
  else if ["0", "false", "no", "off", ""].contains text then some false
  else none

/-- Reads a variable that switches something, in either case of the letters. -/
def readSwitch (name text : String) : Except Failure Bool :=
  let word := Text.lowerAscii (String.ofList (Text.trim text.toList))
  match boolean? word with
  | some b => .ok b
  | none => .error { message := "Invalid boolean for " ++ name ++ ": " ++ word }

/-- Below this lie the numbers of threads that can be asked for. -/
def threadLimit : Nat := UInt64.size

/-- Reads a number of threads. There is at least one. -/
def readThreads (name text : String) : Except Failure Nat :=
  match Decimal.naturalBelow threadLimit (Text.trim text.toList) with
  | .ok n => .ok (max n 1)
  | .error fault =>
    .error ⟨"Invalid " ++ name ++ " value: " ++ text, [fault.message]⟩

/-- Reads a variable, if it is set. -/
def readIfSet {α : Type} (lookup : String → Option String)
    (read : String → String → Except Failure α) (name : String) (unset : α) :
    Except Failure α :=
  match lookup name with
  | none => .ok unset
  | some text => read name text

/-- The policy that a switch for digests stands for. -/
def policyOfSwitch (digest : Bool) : IdentityPolicy :=
  if digest then .contentDigest else .timestampSize

/-- The path of the store that a variable names; a blank one names none. -/
def storePath (lookup : String → Option String) (unset : Option String) : Option String :=
  match lookup "ANNOCACHE_DB" with
  | some path => if Text.trim path.toList = [] then unset else some path
  | none => unset

/-- The variables that are looked at. -/
def variableNames : List String :=
  ["ANNOCACHE_DB", "ANNOCACHE_DISABLED", "ANNOCACHE_READ_ONLY", "ANNOCACHE_ALWAYS_VALID",
    "ANNOCACHE_DIGEST", "ANNOCACHE_THREADS", "ANNOCACHE_LOG_QUERIES", "XDG_DATA_HOME", "HOME"]

/-- The options as variables change them. -/
def withVariables (o : EngineOptions) (lookup : String → Option String) :
    Except Failure EngineOptions := do
  let disabled ← readIfSet lookup readSwitch "ANNOCACHE_DISABLED" o.disabled
  let readOnly ← readIfSet lookup readSwitch "ANNOCACHE_READ_ONLY" o.readOnly
  let alwaysValid ← readIfSet lookup readSwitch "ANNOCACHE_ALWAYS_VALID" o.alwaysValid
  let identityPolicy ← readIfSet lookup (fun name text =>
    (readSwitch name text).map policyOfSwitch) "ANNOCACHE_DIGEST" o.identityPolicy
  let scanThreads ← readIfSet lookup (fun name text =>
    (readThreads name text).map some) "ANNOCACHE_THREADS" o.scanThreads
  let logQueries ← readIfSet lookup readSwitch "ANNOCACHE_LOG_QUERIES" o.logQueries
  return { o with
    cachePath := storePath lookup o.cachePath
    disabled, readOnly, alwaysValid, identityPolicy, scanThreads, logQueries }

/-- The directory for data of programs. -/
def dataDirectory? (lookup : String → Option String) : Option String :=
  match (lookup "XDG_DATA_HOME").filter fun path => path.toList.head? = some '/' with
  | some path => some path
  | none => ((lookup "HOME").filter (· ≠ "")).map fun home => FilePath.join home ".local/share"

/-- Where the store lives: at the given path, or else among the data of programs. -/
def resolvedPath (o : EngineOptions) (lookup : String → Option String) : Except Failure String :=
  match o.cachePath with
  | some path => .ok path
  | none =>
    match dataDirectory? lookup with
    | some directory => .ok (FilePath.join (FilePath.join directory "annocache") "cache.lmdb")
    | none => .error { message := "Failed to resolve data directory" }

end EngineOptions

end ClassCatalog
