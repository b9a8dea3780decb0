/-
A run of the program, from its arguments to its exit code, over whatever host
gives it files and standard input. A run does all or nothing: it fails with the
first fault among the theme, the filter, the input, the document and the
output, and then has written nothing but the log and the fault.
-/
import SchemaDiagram.CommandLine.Arguments
import SchemaDiagram.CommandLine.FileTree
import SchemaDiagram.CommandLine.Log
import SchemaDiagram.Converter

namespace SchemaDiagram.CommandLine

/-! ## Hosts -/

/-- What a run needs from outside. A fault is given as text. -/
structure Host (m : Type → Type) where
  /-- Reads the standard input, unless a person is typing there. -/
  readInput : m (Except String (Option ByteArray))
  readFile (path : String) : m (Except String ByteArray)
  writeFile (path content : String) : m (Except String Unit)

/-- A standard input at which no person is typing. -/
inductive StandardInput
  | bytes (content : ByteArray)
  /-- Reading it ends in a fault. -/
  | broken (fault : String)

instance : Coe ByteArray StandardInput := ⟨.bytes⟩

def StandardInput.read : StandardInput → Except String ByteArray
  | .bytes content => .ok content
  | .broken fault => .error fault

/-- A host with a standard input over a file tree. -/
def Host.ofTree (input : StandardInput) : Host (StateM FileTree) where
  readInput := pure (input.read.map some)
  readFile path := fun tree =>
    match tree.read path with
    | .ok content => (.ok content, tree)
    | .error fault => (.error fault.message, tree)
  writeFile path content := fun tree =>
    match tree.write path content.toUTF8 with
    | .ok tree => (.ok (), tree)
    | .error fault => (.error fault.message, tree)

/-- The variables of the environment that count, and the logger that goes by the second one. -/
structure Environment where
  theme : Option String := none
  log : Option String := none
  logger : Logger := .plain

/-! ## Failures -/

inductive Failure
  | config (cause : ConfigError)
  | readFile (path fault : String)
  | readInput (fault : String)
  | parse (cause : Document.ParseError)
  | writeFile (path fault : String)
  deriving DecidableEq, Repr

def Failure.message : Failure → String
  | .config cause => cause.message
  | .readFile path fault => "Failed to read " ++ path ++ ": " ++ fault
  | .readInput fault => "Failed to read stdin: " ++ fault
  | .parse cause => cause.message
  | .writeFile path fault => "Failed to write " ++ path ++ ": " ++ fault

/-- How a failure is reported. -/
def Failure.line (f : Failure) : String := "Error: " ++ f.message

/-! ## Reports -/

/-- How a run ends, whatever it has logged. -/
structure Ending where
  code : Nat
  output : String
  failure? : Option Failure
  deriving DecidableEq, Repr

def Ending.success (output : String) : Ending := ⟨0, output, none⟩

def Ending.failure (f : Failure) : Ending := ⟨1, "", some f⟩

/-- What a run leaves behind. -/
structure Report extends Ending where
  log : List String
  deriving DecidableEq, Repr

namespace Report

def success (log : List String) (output : String) : Report := ⟨.success output, log⟩

def failure (log : List String) (f : Failure) : Report := ⟨.failure f, log⟩

/-- The entries of the standard error: the log, and behind it the failure. -/
def errors (r : Report) : List String := r.log ++ (r.failure?.map Failure.line).toList

/-- The text of the standard error. Every entry ends its last line. -/
def errorText (r : Report) : String := String.join (r.errors.map (· ++ "\n"))

end Report

/-! ## Stages of a run -/

/-- The configuration of a run. The theme is taken from the arguments, else from the environment,
else it is the default one. -/
def configOf (env : Environment) (a : Arguments) : Except ConfigError Config :=
  match Config.themeOf ((a.theme <|> env.theme).getD Theme.default.name) with
  | .error cause => .error cause
  | .ok theme =>
    match a.filter with
    | none => .ok { theme, html := a.html }
    | some text =>
      match Config.filterOf text with
      | .error cause => .error cause
      | .ok filter => .ok { theme, filter := some filter, html := a.html }

/-- The text that bytes stand for. -/
def decode (bytes : ByteArray) : Except String String :=
  match String.fromUTF8? bytes with
  | some s => .ok s
  | none => .error "stream did not contain valid UTF-8"

/-- The document to convert: that of the input file, or else of the standard input, if there is
one at all. -/
def readSource {m : Type → Type} [Monad m] (host : Host m) (input : Option String) :
    m (Except Failure (Option String)) := do
  match input with
  | some path =>
    match (← host.readFile path).bind decode with
    | .ok source => return .ok (some source)
    | .error fault => return .error (.readFile path fault)
  | none =>
    match ← host.readInput with
    | .ok none => return .ok none
    | .ok (some bytes) =>
      match decode bytes with
      | .ok source => return .ok (some source)
      | .error fault => return .error (.readInput fault)
    | .error fault => return .error (.readInput fault)

/-- The event that a verbose run begins with. -/
def beginning (a : Arguments) (config : Config) : List Event :=
  if a.verbose then
    [.converting (a.input.getD "STDIN") config.theme config.html
      ((config.filter.map TableFilter.text).getD "No")]
  else []

/-- What the diagram or the page of a run is, with the events on the way. -/
def contentOf (config : Config) (source : String) : Except Failure String × List Event :=
  let converter : Converter := { config }
  match converter.convert source with
  | (.error cause, _) => (.error (.parse cause), converter.events source)
  | (.ok diagram, after) => (.ok (after.page?.getD diagram), converter.events source)

/-- Delivers the content: to the output file, or else as output. -/
def deliver {m : Type → Type} [Monad m] (host : Host m) (output : Option String)
    (log : List String) (content : String) : m Report := do
  match output with
  | none => return .success log content
  | some path =>
    match ← host.writeFile path content with
    | .ok () => return .success log ("Output written to " ++ path ++ "\n")
    | .error fault => return .failure log (.writeFile path fault)

/-! ## Fixed texts -/

def version : String := "dbml2mmd 0.1.0\n"

def help : String :=
  "Convert DBML schemas to Mermaid ER diagrams\n\n" ++
  "Usage: dbml2mmd [OPTIONS] [INPUT]\n\n" ++
  "Arguments:\n" ++
  "  [INPUT]  Input DBML file (reads stdin when omitted)\n\n" ++
  "Options:\n" ++
  "  -o, --output <FILE>  Write to file instead of stdout\n" ++
  "  -t, --theme <THEME>  Mermaid theme: default, dark, neutral, forest\n" ++
  "                       [env: DBML2MMD_THEME=] [default: default]\n" ++
  "      --html           Generate HTML output with embedded Mermaid viewer\n" ++
  "      --only <TABLES>  Only include specific tables (comma-separated list)\n" ++
  "  -v, --verbose        Enable verbose output\n" ++
  "  -h, --help           Print help\n" ++
  "  -V, --version        Print version\n\n" ++
  "Examples:\n" ++
  "  dbml2mmd input.dbml                        Convert file and print to stdout\n" ++
  "  dbml2mmd -o output.mmd input.dbml          Convert file and save to output.mmd\n" ++
  "  dbml2mmd --html -o output.html input.dbml  Generate HTML with Mermaid viewer\n" ++
  "  dbml2mmd --theme dark input.dbml           Use dark theme for diagram\n" ++
  "  dbml2mmd --only users,posts input.dbml     Only include specific tables\n" ++
  "  cat input.dbml | dbml2mmd                  Read from stdin\n"

/-! ## The whole command -/

/-- A run with arguments that are in order. Without a document to convert it shows the help. -/
def run {m : Type → Type} [Monad m] (host : Host m) (env : Environment) (a : Arguments) :
    m Report := do
  match configOf env a with
  | .error cause => return .failure [] (.config cause)
  | .ok config =>
    match ← readSource host a.input with
    | .error failure => return .failure [] failure
    | .ok none => return .success [] help
    | .ok (some source) =>
      let (content, events) := contentOf config source
      let log := env.logger.lines env.log a.verbose (beginning a config ++ events)
      match content with
      | .error failure => return .failure log failure
      | .ok text => deliver host a.output log text

/-- How a command ends: with a report, or with a fault in its arguments. -/
inductive Outcome
  | finished (report : Report)
  | misused (fault : UsageError)
  deriving DecidableEq, Repr

/-- Carries out a command. -/
def execute {m : Type → Type} [Monad m] (host : Host m) (env : Environment)
    (args : List String) : m Outcome := do
  match Invocation.ofArguments args with
  | .error fault => return .misused fault
  | .ok .version => return .finished (.success [] version)
  | .ok .help => return .finished (.success [] help)
  | .ok (.convert a) => return .finished (← run host env a)

end SchemaDiagram.CommandLine
