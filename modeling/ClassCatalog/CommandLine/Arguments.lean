import ClassCatalog.Engine.Variables

/-!
# Command line arguments

General options come first, then a command, then what belongs to the command. A word that starts
with a dash is an option unless it is a dash alone or stands behind `--`; an option never takes such a
word for its value. A switch, and an option with one value, may be given once.
-/

namespace ClassCatalog.CommandLine

inductive OutputFormat where
  | json
  | text
  deriving DecidableEq, Repr, Inhabited

def OutputFormat.name : OutputFormat → String
  | json => "json"
  | text => "text"

/-- What is to be done. -/
inductive Command where
  | scan
  | annotated (target : String) (inherited strict all : Bool)
  | assignable (target : String) (strict all : Bool)
  | inPackage (target : String) (all : Bool)
  | chain (className : String)
  | invalidate (container : String)
  | stats
  | clear
  deriving DecidableEq, Repr

/-- Why arguments are no invocation. -/
inductive Refusal where
  | misuse
  /-- They ask for help, with a command or in general. -/
  | help (command : Option String)
  deriving DecidableEq, Repr

/-! ### Words -/

/-- What a word is by its dashes. -/
inductive Word where
  | plain
  /-- Ends the options. -/
  | endOfOptions
  | long (name : String) (attached : Option String)
  | short (letter : Char) (attached : List Char)
  deriving DecidableEq, Repr

def Word.ofText (text : String) : Word :=
  match text.toList with
  | ['-', '-'] => endOfOptions
  | '-' :: '-' :: rest =>
    match Text.splitFirst? ['='] rest with
    | some (name, value) => long (String.ofList name) (some (String.ofList value))
    | none => long (String.ofList rest) none
  | '-' :: letter :: rest => short letter rest
  | _ => plain

/-! ### General options -/

/-- The general options. -/
structure General where
  containers : List String := []
  libraries : List String := []
  store : Option String := none
  threads : Option Nat := none
  platform : List String := []
  format : Option OutputFormat := none
  /-- The names of the switches given. -/
  switches : List String := []
  deriving DecidableEq, Repr, Inhabited

namespace General

/-- The general options that take a value. -/
inductive Valued where
  | container
  | library
  | store
  | threads
  | platform
  | format
  deriving DecidableEq, Repr

/-- The option of a name. -/
def Valued.ofLong? : String → Option Valued
  | "container" => some container
  | "lib" => some library
  | "db" => some store
  | "threads" => some threads
  | "platform" => some platform
  | "format" => some format
  | _ => none

/-- The option of a letter. -/
def Valued.ofShort? : Char → Option Valued
  | 'c' => some container
  | 'f' => some format
  | _ => none

def switchNames : List String := ["no-cache", "read-only", "always-valid", "digest", "log-queries"]

/-- The options with one more value, unless it is refused. -/
def give? (g : General) (value : String) : Valued → Option General
  | .container => some { g with containers := g.containers ++ [value] }
  | .library =>
    if value = "" then none else some { g with libraries := g.libraries ++ [value] }
  | .store => if value = "" ∨ g.store.isSome then none else some { g with store := some value }
  | .threads =>
    match g.threads, Decimal.naturalBelow EngineOptions.threadLimit value.toList with
    | none, .ok n => some { g with threads := some n }
    | _, _ => none
  | .platform => some { g with platform := g.platform ++ [value] }
  | .format =>
    match g.format, [OutputFormat.json, .text].find? fun f => f.name == value with
    | none, some f => some { g with format := some f }
    | _, _ => none

/-- The options with one more switch, unless it is unknown or there already. -/
def switchOn? (g : General) (name : String) : Option General :=
  if switchNames.contains name ∧ ¬ g.switches.contains name then
    some { g with switches := g.switches ++ [name] }
  else none

/-- The value written after the letter of an option. An equals sign may stand between. -/
def attachedValue : List Char → String
  | '=' :: rest => String.ofList rest
  | rest => String.ofList rest

end General

/-! ### Commands -/

/-- What may follow the name of a command, and which command that makes. -/
structure CommandForm where
  name : String
  /-- What the command is about, as usage lines write it; some commands are about nothing. -/
  subject : Option String
  switches : List String
  /-- The command for a subject and a choice of switches. -/
  make : String → (String → Bool) → Command

def commandForms : List CommandForm :=
  [ ⟨"scan", none, [], fun _ _ => .scan⟩,
    ⟨"annotated", some "ANNOTATION", ["inherited", "strict", "all"],
      fun target on => .annotated target (on "inherited") (on "strict") (on "all")⟩,
    ⟨"assignable", some "TYPE_NAME", ["strict", "all"],
      fun target on => .assignable target (on "strict") (on "all")⟩,
    ⟨"package", some "PREFIX", ["all"], fun target on => .inPackage target (on "all")⟩,
    ⟨"chain", some "CLASS_NAME", [], fun target _ => .chain target⟩,
    ⟨"invalidate", some "CONTAINER", [], fun target _ => .invalidate target⟩,
    ⟨"stats", none, [], fun _ _ => .stats⟩,
    ⟨"clear", none, [], fun _ _ => .clear⟩ ]

def commandForm? (name : String) : Option CommandForm := commandForms.find? fun f => f.name == name

/-- What has been read of a command. -/
structure Details where
  subject : Option String := none
  switches : List String := []
  /-- Whether all further words are plain. -/
  plainOnly : Bool := false
  deriving DecidableEq, Repr, Inhabited

namespace Details

/-- Takes a word as the subject. -/
def takeSubject (form : CommandForm) (d : Details) (text : String) : Except Refusal Details :=
  if form.subject.isSome ∧ d.subject.isNone then .ok { d with subject := some text }
  else .error .misuse

/-- Takes one word. -/
def take (form : CommandForm) (d : Details) (text : String) : Except Refusal Details :=
  if d.plainOnly then d.takeSubject form text
  else
    match Word.ofText text with
    | .plain => d.takeSubject form text
    | .endOfOptions => .ok { d with plainOnly := true }
    | .short letter _ => .error (if letter = 'h' then .help (some form.name) else .misuse)
    | .long name attached =>
      if attached.isSome then .error .misuse
      else if name = "help" then .error (.help (some form.name))
      else if form.switches.contains name ∧ ¬ d.switches.contains name then
        .ok { d with switches := d.switches ++ [name] }
      else .error .misuse

def takeAll (form : CommandForm) : Details → List String → Except Refusal Details
  | d, [] => .ok d
  | d, text :: rest =>
    match d.take form text with
    | .ok d => takeAll form d rest
    | .error e => .error e

/-- The command that the words amount to. -/
def command (form : CommandForm) (d : Details) : Except Refusal Command :=
  if form.subject.isSome ∧ d.subject.isNone then .error .misuse
  else .ok (form.make (d.subject.getD "") d.switches.contains)

end Details

/-! ### Invocations -/

/-- General options and a command. -/
structure Invocation where
  general : General
  command : Command
  deriving DecidableEq, Repr

namespace Invocation

/-- What asking for help on words comes to. -/
def helpOn : List String → Refusal
  | [] => .help none
  | ["help"] => .help none
  | [name] => if (commandForm? name).isSome then .help (some name) else .misuse
  | _ => .misuse

/-- Reads a command and what belongs to it. -/
def ofCommand (g : General) (name : String) (rest : List String) : Except Refusal Invocation :=
  match commandForm? name with
  | none => .error (if name = "help" then helpOn rest else .misuse)
  | some form => do
    let details ← Details.takeAll form {} rest
    let command ← details.command form
    return ⟨g, command⟩

/-- What a word among the general options leads to. -/
inductive Step where
  | refuse (r : Refusal)
  | go (g : General)
  /-- The next word is the value of an option. -/
  | await (o : General.Valued)
  | command

/-- A step that goes on if there is something to go on with. -/
def Step.ofOption : Option General → Step
  | some g => .go g
  | none => .refuse .misuse

def step (g : General) (text : String) : Step :=
  match Word.ofText text with
  | .plain => .command
  | .endOfOptions => .refuse .misuse
  | .short letter attached =>
    match General.Valued.ofShort? letter, attached with
    | some o, [] => .await o
    | some o, attached => Step.ofOption (g.give? (General.attachedValue attached) o)
    | none, _ => .refuse (if letter = 'h' then .help none else .misuse)
  | .long name attached =>
    match General.Valued.ofLong? name, attached with
    | some o, none => .await o
    | some o, some value => Step.ofOption (g.give? value o)
    | none, some _ => .refuse .misuse
    | none, none => if name = "help" then .refuse (.help none) else Step.ofOption (g.switchOn? name)

/-- Reads arguments, given the general options so far and the option that waits for its value. -/
def ofWords (g : General) : Option General.Valued → List String → Except Refusal Invocation
  | _, [] => .error .misuse
  | some o, text :: rest =>
    match Word.ofText text, g.give? text o with
    | .plain, some g => ofWords g none rest
    | _, _ => .error .misuse
  | none, text :: rest =>
    match step g text with
    | .refuse r => .error r
    | .go g => ofWords g none rest
    | .await o => ofWords g (some o) rest
    | .command => ofCommand g text rest

def ofArguments (args : List String) : Except Refusal Invocation := ofWords {} none args

/-- How the answer is written. -/
def format (i : Invocation) : OutputFormat := i.general.format.getD .json

def isOn (i : Invocation) (name : String) : Bool := i.general.switches.contains name

/-- The options of the engine: what variables say, and the arguments on top. A switch never turns
anything off. -/
def engineOptions (i : Invocation) (lookup : String → Option String) :
    Except Failure EngineOptions := do
  let o ← EngineOptions.withVariables {} lookup
  return { o with
    cachePath := i.general.store.or o.cachePath
    disabled := o.disabled || i.isOn "no-cache"
    readOnly := o.readOnly || i.isOn "read-only"
    alwaysValid := o.alwaysValid || i.isOn "always-valid"
    logQueries := o.logQueries || i.isOn "log-queries"
    identityPolicy := if i.isOn "digest" then .contentDigest else o.identityPolicy
    scanThreads := (i.general.threads.map fun n => max n 1).or o.scanThreads
    platform := if i.general.platform = [] then o.platform else i.general.platform }

end Invocation

end ClassCatalog.CommandLine
