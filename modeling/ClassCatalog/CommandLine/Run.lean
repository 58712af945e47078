import ClassCatalog.CommandLine.Help
import ClassCatalog.CommandLine.Report
import ClassCatalog.Engine.OnDisk

/-!
# Running a command

A run takes variables, arguments and a disk, and gives an outcome and the disk afterwards. What was
done before a failure stays done. A refused command line has exit code 2, a failure has 1.
-/

namespace ClassCatalog.CommandLine

/-- What a run shows. -/
structure Outcome where
  code : Nat
  /-- The output, given how long opening the containers took in milliseconds. -/
  output : Nat → String := fun _ => ""
  errors : String := ""

/-- The exit code when no report can be made. -/
def abortCode : Nat := 101

/-- The containers that arguments name: those listed, and behind them the archives in the libraries. -/
def containerSpecs (g : General) (d : Disk) : List ContainerSpec :=
  (g.containers.map (ContainerSpec.parse d.isDirectory)) ++
    g.libraries.flatMap fun directory =>
      (d.archives directory).map fun path => ⟨.archive path, .external⟩

abbrev Running := ExceptT Failure (StateM Disk)

/-- Fails with the words of an error in a container or a query. -/
def failScan {α : Type} (e : ScanError) : Running α := throw { message := e.message }

/-- The report of a run, given the time that opening the containers took; none can be made if some
identity has no stamp. -/
abbrev Pending := Nat → Option Report

/-- A report that does not depend on time. -/
def fixed (r : Report) : Pending := fun _ => some r

def openEngine (o : EngineOptions) (lookup : String → Option String) :
    Running (Environment DiskWorld × Engine × DiskWorld) := do
  let d ← get
  match Engine.openOnDisk o lookup d with
  | .ok (env, engine, world) => do
    set world.disk
    return (env, engine, world)
  | .error f => throw f

def queryOptions (o : EngineOptions) (strict all : Bool) : QueryOptions :=
  let base := o.queryOptions
  { base with strict, policies := if all then ScanPolicy.all else base.policies }

/-- Answers a query for names. -/
def askNames (v : View) (o : QueryOptions) (request : Query.Request) : Running Pending := do
  match ((request.run v o).run.run {}).1 with
  | .error e => failScan e
  | .ok (.names names) => return fixed (.found request.kind request.target names)
  | .ok (.usages _) => return fixed (.found request.kind request.target [])

/-- The answer of a command on an open view. -/
def onView (engine : Engine) (v : View) : Command → Running Pending
  | .annotated target inherited strict all =>
    askNames v (queryOptions engine.options strict all) (.annotated target inherited)
  | .assignable target strict all =>
    askNames v (queryOptions engine.options strict all) (.assignable target)
  | .inPackage target all =>
    askNames v (queryOptions engine.options false all) (.inPackage target)
  | .chain name =>
    return fixed (.chain name ((v.containerOf? name).map ViewContainer.name) (v.superChain name)
      (v.computeInherited name).names)
  | _ => return fun elapsed => Report.scan? v engine.cache.decodeCalls elapsed

/-- Opens the containers and answers a command on them. -/
def withView (o : EngineOptions) (lookup : String → Option String) (g : General) (c : Command) :
    Running Pending := do
  let specs := containerSpecs g (← get)
  if specs = [] then
    throw { message := "No containers given; use -c PATH[:policy] or --lib DIR" }
  let (env, engine, world) ← openEngine o lookup
  let (view, engine, world) := engine.openModule env specs false world
  set world.disk
  match view with
  | .error e => failScan e
  | .ok v => onView engine v c

/-- Removes the store. -/
def clear (o : EngineOptions) (lookup : String → Option String) : Running Pending := do
  let path ← (o.resolvedPath lookup : Except Failure String)
  let d ← (Disk.removeStore (← get) path : Except Failure Disk)
  set d
  return fixed (.cleared path)

/-- Counts what is stored. -/
def stats (o : EngineOptions) (lookup : String → Option String) : Running Pending := do
  let (env, engine, world) ← openEngine o lookup
  match engine.stats env world with
  | .ok s => return fixed (.stats s)
  | .error e => throw e.failure

/-- Has a container made anew when it is next opened. -/
def invalidate (o : EngineOptions) (lookup : String → Option String) (container : String) :
    Running Pending := do
  let (env, engine, world) ← openEngine o lookup
  let location := Location.parse world.disk.isDirectory container
  let (result, _, world) := engine.invalidate env location world
  set world.disk
  match result with
  | .ok () => return fixed (.invalidated location.logicalPath)
  | .error e => throw (e.failure.within ("Failed to invalidate " ++ container))

def carryOut (i : Invocation) (lookup : String → Option String) : Running Pending := do
  let o ← (i.engineOptions lookup : Except Failure EngineOptions)
  match i.command with
  | .clear => clear o lookup
  | .stats => stats o lookup
  | .invalidate container => invalidate o lookup container
  | command => withView o lookup i.general command

/-- The outcome of a report in a format. -/
def Outcome.ofReport (format : OutputFormat) (r : Pending) : Outcome :=
  if (r 0).isNone then { code := abortCode }
  else { code := 0, output := fun elapsed => ((r elapsed).map fun r => r.render format).getD "" }

def run (lookup : String → Option String) (args : List String) (d : Disk) : Outcome × Disk :=
  match Invocation.ofArguments args with
  | .error (.help command) => ({ code := 0, output := fun _ => Help.text command }, d)
  | .error .misuse => ({ code := 2, errors := Help.usage }, d)
  | .ok i =>
    match (carryOut i lookup).run.run d with
    | (.error f, d) => ({ code := 1, errors := f.report }, d)
    | (.ok r, d) => (Outcome.ofReport i.format r, d)

end ClassCatalog.CommandLine
