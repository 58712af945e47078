import ClassCatalog.Container.Location

/-!
# Scan policies and container specifications

How a container takes part in queries, and how that is written behind its location.
-/

namespace ClassCatalog

/-- How the classes of a container take part in queries. -/
inductive ScanPolicy where
  /-- Classes of the module proper. -/
  | seed
  /-- Fragments whose metadata is complete. -/
  | fragment
  /-- Fragments left out by an ordering. -/
  | excluded
  /-- Libraries that only complete the type hierarchy. -/
  | external
  deriving DecidableEq, Repr, Inhabited

namespace ScanPolicy

def all : List ScanPolicy := [seed, fragment, excluded, external]

def name : ScanPolicy → String
  | seed => "seed"
  | fragment => "partial"
  | excluded => "excluded"
  | external => "external"

/-- The policy with a name, in either case of its letters. -/
def ofName? (text : String) : Option ScanPolicy :=
  all.find? fun p => p.name == Text.lowerAscii text

/-- Says that a name is no policy. -/
def unknown (text : String) : String := "unknown scan policy: " ++ Text.lowerAscii text

end ScanPolicy

/-- One entry of a module's ordered list of containers. -/
structure ContainerSpec where
  location : Location
  policy : ScanPolicy := .seed
  deriving DecidableEq, Repr, Inhabited

namespace ContainerSpec

/-- Reads a location with an optional policy behind its last colon. What follows the colon and is no
policy belongs to the location. -/
def parse (isDirectory : String → Bool) (raw : String) : ContainerSpec :=
  let whole : ContainerSpec := ⟨Location.parse isDirectory raw, .seed⟩
  match Text.splitLast? ':' raw.toList with
  | none => whole
  | some (path, policy) =>
    match ScanPolicy.ofName? (String.ofList policy) with
    | some policy => ⟨Location.parse isDirectory (String.ofList path), policy⟩
    | none => whole

end ContainerSpec

end ClassCatalog
