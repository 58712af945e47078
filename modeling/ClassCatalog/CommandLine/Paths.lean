import ClassCatalog.CommandLine.Run

/-!
# The paths of a run

Which paths a run can look at or change: those of the containers and libraries, and the store with
its lock. Everything below such a path counts too, and for libraries the ignore rules above them.
-/

namespace ClassCatalog.CommandLine

/-- The path on disk that a container specification starts from, with and without its policy. -/
def specPaths (raw : String) : List String :=
  let never : String → Bool := fun _ => false
  [(Location.parse never raw).diskPath, (ContainerSpec.parse never raw).location.diskPath]

def storePaths (i : Invocation) (lookup : String → Option String) : List String :=
  match i.engineOptions lookup with
  | .error _ => []
  | .ok o =>
    match o.resolvedPath lookup with
    | .error _ => []
    | .ok path => [path, Database.lockPath path]

/-- The paths that a command names. -/
def Command.paths : Command → List String
  | .invalidate container => specPaths container
  | _ => []

def paths (lookup : String → Option String) (args : List String) : List String :=
  match Invocation.ofArguments args with
  | .error _ => []
  | .ok i =>
    i.general.containers.flatMap specPaths ++ i.general.libraries ++ i.command.paths ++
      storePaths i lookup

/-- The paths of the directories on the way to a path, and the path itself. -/
def way (path : String) : List String :=
  let parts := FilePath.components path
  (List.range parts.length).map fun n => FilePath.ofComponents (parts.take (n + 1))

end ClassCatalog.CommandLine
