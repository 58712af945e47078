import ClassCatalog.CommandLine.Arguments
import ClassCatalog.Text.JsonValue

/-!
# Reports

What a command answers, as a JSON value and as plain text.
-/

namespace ClassCatalog.CommandLine

/-- What a command answers. -/
structure Report where
  json : JsonValue
  plain : String

namespace Report

/-- The text of a report in a format; it ends with a line break. -/
def render (r : Report) (format : OutputFormat) : String :=
  let content := match format with
    | .json => r.json.text
    | .text => r.plain
  if content.toList.getLast? = some '\n' then content else content ++ "\n"

def lines (ls : List String) : String := String.join (ls.map (· ++ "\n"))

def failures (fs : List (String × String)) : JsonValue :=
  .array (fs.map fun f => .strings [f.1, f.2])

/-- A container of a view, with its row in the table. -/
def container (c : ViewContainer) (row : ContainerRow) : JsonValue :=
  .object
    [ ("name", .string row.name),
      ("policy", .string row.policy.name),
      ("signature", .string row.signature),
      ("classes", .number c.index.classes.size),
      ("incomplete", .boolean c.index.incomplete),
      ("failures", failures c.index.failures) ]

def containerLine (c : ViewContainer) : String :=
  "- " ++ c.name ++ " [" ++ c.spec.policy.name ++ "] " ++ toString c.index.classes.size ++
    " classes" ++ (if c.index.incomplete then " (incomplete)" else "")

/-- A hidden definition. -/
def shadowed (s : Shadowed) : JsonValue :=
  .object
    [ ("class_name", .string s.className),
      ("winner", .string s.winner),
      ("shadowed", .string s.shadowed) ]

def shadowedLine (s : Shadowed) : String :=
  "shadowed: " ++ s.className ++ " in " ++ s.shadowed ++ " by " ++ s.winner

/-- What a scan found. There is no report if some container has no row. -/
def scan? (v : View) (decoded elapsed : Nat) : Option Report := do
  let rows ← v.table?
  return {
    json := .object
      [ ("classes", .number v.lookup.size),
        ("decoded_classes", .number decoded),
        ("duration_ms", .number elapsed),
        ("containers", .array ((v.containers.zip rows).map fun p => container p.1 p.2)),
        ("shadowed", .array (v.shadowed.map shadowed)) ]
    plain := lines
      (["classes: " ++ toString v.lookup.size, "decoded: " ++ toString decoded] ++
        v.containers.map containerLine ++ v.shadowed.map shadowedLine) }

/-- The names a query found. -/
def found (query target : String) (names : List String) : Report where
  json := .object
    [ ("query", .string query),
      ("target", .string target),
      ("count", .number names.length),
      ("classes", .strings names) ]
  plain := "\n".intercalate names

/-- The superclasses of a class and the annotations on all it is derived from. -/
def chain (className : String) (container : Option String) (superclasses inherited : List String) :
    Report where
  json := .object
    [ ("class_name", .string className),
      ("container", (container.map JsonValue.string).getD .null),
      ("super_chain", .strings superclasses),
      ("inherited_annotations", .strings inherited) ]
  plain := " -> ".intercalate superclasses ++ "\n" ++ lines (inherited.map ("@" ++ ·))

/-- That a container was invalidated. -/
def invalidated (container : String) : Report where
  json := .object [("container", .string container)]
  plain := "invalidated " ++ container

/-- That a store was removed. -/
def cleared (path : String) : Report where
  json := .object [("db_path", .string path)]
  plain := "cleared " ++ path

/-- Counts of an engine's work. -/
def stats (s : EngineStats) : Report where
  json := .object
    [ ("store", .string s.store),
      ("stored_indexes", .number s.storedIndexes),
      ("published_indexes", .number s.publishedIndexes),
      ("decode_calls", .number s.decodeCalls),
      ("decode_passes", .number s.decodePasses),
      ("cache_hits", .number s.cacheHits),
      ("store_hits", .number s.storeHits),
      ("cache_misses", .number s.cacheMisses),
      ("corrupt_entries", .number s.corruptEntries),
      ("class_failures", .number s.classFailures),
      ("partial_scans", .number s.partialScans),
      ("writes", .number s.writes),
      ("write_failures", .number s.writeFailures),
      ("invalidations", .number s.invalidations),
      ("queries", .number s.queries) ]
  plain := "store: " ++ s.store ++ "\nstored_indexes: " ++ toString s.storedIndexes

end Report

end ClassCatalog.CommandLine
