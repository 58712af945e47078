import ClassCatalog.ScanError
import ClassCatalog.View.Hierarchy

/-!
# Queries over a view

Every answer is listed in the order of the class names. A strict query fails when its target, or for
queries that follow the hierarchy some ancestor of a class it looks at, is neither defined in the
view nor assumed to belong to the platform.
-/

namespace ClassCatalog

/-- The prefixes of names that are assumed to belong to the platform. -/
def defaultPlatformPrefixes : List String := ["java.", "javax.", "jdk.", "sun."]

/-- What a query is to look at. -/
structure QueryOptions where
  /-- Only classes of containers with these policies are reported. -/
  policies : List ScanPolicy := [.seed, .fragment]
  strict : Bool := false
  /-- The prefixes of platform types. -/
  platform : List String := defaultPlatformPrefixes
  deriving DecidableEq, Repr, Inhabited

namespace Query

/-- A question that a strict query may refuse to answer. -/
abbrev Ask := ExceptT ScanError View.Ask

/-- Whether a name is assumed to belong to the platform. -/
def isPlatform (options : QueryOptions) (name : String) : Bool :=
  options.platform.any fun start => start.toList.isPrefixOf name.toList

/-- Whether a strict query may meet this name. -/
def isKnown (v : View) (options : QueryOptions) (name : String) : Bool :=
  v.contains name || isPlatform options name

/-- Refuses a name that is not known, if the query is strict. -/
def checkKnown (v : View) (options : QueryOptions) (name : String) : Ask Unit :=
  if options.strict && !isKnown v options name then throw (.unknownReferenceType name)
  else pure ()

/-- Refuses a class with an ancestor that is not known, if the query is strict. -/
def checkBoundaries (v : View) (options : QueryOptions) (className : String) : Ask Unit := do
  if options.strict then
    let boundary ← (v.boundaryTypes className : View.Ask (List String))
    boundary.forM (checkKnown v options)

/-- The classes a query may report. -/
def candidates (v : View) (options : QueryOptions) : List ClassRecord :=
  v.classesWithPolicy options.policies

/-- The names of the records that pass a test. -/
def select (test : ClassRecord → Ask Bool) : List ClassRecord → Ask (List String)
  | [] => pure []
  | r :: rest => do
    let passes ← test r
    let others ← select test rest
    return if passes then r.name :: others else others

/-- The classes with an annotation, of their own or, if `inherited`, of an ancestor. -/
def annotated (v : View) (target : String) (inherited : Bool) (options : QueryOptions) :
    Ask (List String) := do
  checkKnown v options target
  select (fun r => do
    if inherited then checkBoundaries v options r.name
    if r.hasOnClass target then return true
    else if inherited then
      let names ← (v.inheritedAnnotations r.name : View.Ask NameSet)
      return names.contains target
    else return false) (candidates v options)

/-- The type itself and all classes derived from it. -/
def assignable (v : View) (target : String) (options : QueryOptions) : Ask (List String) := do
  checkKnown v options target
  select (fun r => do
    checkBoundaries v options r.name
    if r.name = target then return true
    else
      let names ← (v.supertypes r.name : View.Ask NameSet)
      return names.contains target) (candidates v options)

/-- Whether a package is `target` or lies below it; everything lies below the empty target. -/
def isInPackage (target package : List Char) : Bool :=
  target.isEmpty || package == target ||
  match Text.dropStart? target package with
  | some ('.' :: _) => true
  | _ => false

/-- The classes of a package and of the packages below it. Dots at the end of the target are
ignored. -/
def inPackage (v : View) (target : String) (options : QueryOptions) : List String :=
  let target := (target.toList.reverse.dropWhile (· == '.')).reverse
  ((candidates v options).filter fun r =>
    isInPackage target (ClassName.package r.name).toList).map (·.name)

def fieldAnnotated (v : View) (target : String) (options : QueryOptions) : Ask (List String) := do
  checkKnown v options target
  return ((candidates v options).filter fun r => r.hasOnField target).map (·.name)

def methodAnnotated (v : View) (target : String) (options : QueryOptions) :
    Ask (List String) := do
  checkKnown v options target
  return ((candidates v options).filter fun r => r.hasOnMethod target).map (·.name)

/-- The annotations on a class; none if it is not defined. -/
def annotationsOn (v : View) (target : String) (options : QueryOptions) : Ask (List Usage) := do
  checkKnown v options target
  return ((v.class? target).map (·.classAnnotations)).getD []

/-! ### Requests -/

/-- A query with its target. -/
inductive Request where
  | annotated (target : String) (inherited : Bool)
  | assignable (target : String)
  | inPackage (target : String)
  | fieldAnnotated (target : String)
  | methodAnnotated (target : String)
  | annotationsOn (target : String)
  deriving DecidableEq, Repr

inductive Answer where
  | names (found : List String)
  | usages (found : List Usage)

def Answer.size : Answer → Nat
  | names found => found.length
  | usages found => found.length

namespace Request

def kind : Request → String
  | annotated .. => "annotated"
  | assignable _ => "assignable"
  | inPackage _ => "package"
  | fieldAnnotated _ => "field-annotated"
  | methodAnnotated _ => "method-annotated"
  | annotationsOn _ => "annotations-on"

/-- What a query asks for. -/
def target : Request → String
  | annotated t _ => t
  | assignable t => t
  | inPackage t => t
  | fieldAnnotated t => t
  | methodAnnotated t => t
  | annotationsOn t => t

def run (v : View) (options : QueryOptions) : Request → Ask Answer
  | annotated t inherited => do
    let found ← Query.annotated v t inherited options
    return .names found
  | assignable t => do
    let found ← Query.assignable v t options
    return .names found
  | inPackage t => return .names (Query.inPackage v t options)
  | fieldAnnotated t => do
    let found ← Query.fieldAnnotated v t options
    return .names found
  | methodAnnotated t => do
    let found ← Query.methodAnnotated v t options
    return .names found
  | annotationsOn t => do
    let found ← Query.annotationsOn v t options
    return .usages found

end Request

end Query

end ClassCatalog
