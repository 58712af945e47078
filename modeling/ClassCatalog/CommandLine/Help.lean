import ClassCatalog.CommandLine.Arguments

/-!
# Help

The texts that explain the command line: in general, and for each command.
-/

namespace ClassCatalog.CommandLine.Help

def program : String := "annocache"

/-- A row of a list: what is explained, and how. -/
abbrev Row := String × String

/-- The rows of a list under each other, the explanations in one column. -/
def table (rows : List Row) : String :=
  let width := (rows.map fun r => r.1.length).foldl max 0
  String.join (rows.map fun r =>
    "  " ++ r.1 ++ String.ofList (List.replicate (width - r.1.length) ' ') ++ "  " ++ r.2 ++ "\n")

def helpRow : Row := ("-h, --help", "Print help")

/-- The row for a switch without a letter. -/
def switchRow (name explanation : String) : Row := ("    --" ++ name, explanation)

/-- What a command does. -/
def about : String → String
  | "scan" => "Open the module and summarize its containers"
  | "chain" => "Superclass chain and inherited annotations of one class"
  | _ => ""

/-- What a switch of a command does. -/
def aboutSwitch : String → String
  | "all" => "Report classes from every container, not only seed and partial ones"
  | _ => ""

def generalRows : List Row :=
  [ ("-c, --container <PATH[:POLICY]>",
      "Container in classpath order, optionally suffixed with `:seed`, `:partial`, `:excluded` or " ++
        "`:external`. Nested archives use `outer.war!/WEB-INF/lib/inner.jar`"),
    switchRow "lib <DIR>" "Directory whose archives are appended as external containers",
    switchRow "db <PATH>" "LMDB file, or an existing directory for one file per index",
    switchRow "no-cache" "",
    switchRow "read-only" "",
    switchRow "always-valid" "",
    switchRow "digest" "Include a content digest in container identities",
    switchRow "threads <N>" "",
    switchRow "log-queries" "",
    switchRow "platform <PREFIX>" "Package prefix treated as platform types by strict queries",
    ("-f, --format <FORMAT>", "[default: json] [possible values: json, text]"),
    helpRow ]

def usage : String := "Usage: " ++ program ++ " [OPTIONS] <COMMAND>\n"

def general : String :=
  "Scan Java class files for annotations and cache the results per container\n\n" ++ usage ++
  "\nCommands:\n" ++
  table (commandForms.map (fun f => (f.name, about f.name)) ++
    [("help", "Print this message or the help of the given subcommand(s)")]) ++
  "\nOptions:\n" ++ table generalRows

def onCommand (f : CommandForm) : String :=
  let subject := match f.subject with
    | some s => " <" ++ s ++ ">"
    | none => ""
  let options := if f.switches = [] then "" else " [OPTIONS]"
  (if about f.name = "" then "" else about f.name ++ "\n\n") ++
  "Usage: " ++ program ++ " " ++ f.name ++ options ++ subject ++ "\n" ++
  (match f.subject with
    | some s => "\nArguments:\n" ++ table [("<" ++ s ++ ">", "")]
    | none => "") ++
  "\nOptions:\n" ++ table ((f.switches.map fun s => switchRow s (aboutSwitch s)) ++ [helpRow])

/-- The help on a command, or in general. -/
def text : Option String → String
  | none => general
  | some name =>
    match commandForm? name with
    | some f => onCommand f
    | none => general

end ClassCatalog.CommandLine.Help
