/-
The arguments of the command. They are read from left to right, and the first
fault ends the reading. Options with a value take it from the next argument,
or from the same one behind `=` or, for a letter, directly. Letters can be
written together behind one hyphen; a letter that takes a value ends such a
group. Nothing but the input file may stand free, and only once; no option may
be given twice. Behind `--` there are no options any more. Asking for the
version or for help ends the reading at once.
-/

namespace SchemaDiagram.CommandLine

/-- What a run of the program is asked for. -/
structure Arguments where
  input : Option String := none
  output : Option String := none
  theme : Option String := none
  html : Bool := false
  filter : Option String := none
  verbose : Bool := false
  deriving DecidableEq, Repr

/-- What the arguments as a whole ask for. -/
inductive Invocation
  | convert (arguments : Arguments)
  | version
  | help
  deriving DecidableEq, Repr

inductive UsageError
  | unknownArgument (text : String)
  | missingValue (option : String)
  | unwantedValue (option : String)
  | emptyValue (option : String)
  | repeated (option : String)
  deriving DecidableEq, Repr

def UsageError.message : UsageError → String
  | .unknownArgument text => "error: unexpected argument '" ++ text ++ "' found"
  | .missingValue option => "error: a value is required for '" ++ option ++ "' but none was supplied"
  | .unwantedValue option => "error: no value is allowed for '" ++ option ++ "'"
  | .emptyValue option => "error: a value is required for '" ++ option ++ "' but it is empty"
  | .repeated option => "error: the argument '" ++ option ++ "' cannot be used multiple times"

/-! ## Options -/

/-- Options without a value. -/
inductive Switch
  | html
  | verbose
  | help
  | version
  deriving DecidableEq, Repr

/-- Options with a value. -/
inductive Valued
  | output
  | theme
  | only
  deriving DecidableEq, Repr

inductive OptionKey
  | switch (s : Switch)
  | valued (v : Valued)
  deriving DecidableEq, Repr

namespace OptionKey

/-- The option of a word behind two hyphens. -/
def ofWord? : String → Option OptionKey
  | "html" => some (.switch .html)
  | "verbose" => some (.switch .verbose)
  | "help" => some (.switch .help)
  | "version" => some (.switch .version)
  | "output" => some (.valued .output)
  | "theme" => some (.valued .theme)
  | "only" => some (.valued .only)
  | _ => none

/-- The option of a letter behind one hyphen. -/
def ofLetter? : Char → Option OptionKey
  | 'v' => some (.switch .verbose)
  | 'h' => some (.switch .help)
  | 'V' => some (.switch .version)
  | 'o' => some (.valued .output)
  | 't' => some (.valued .theme)
  | _ => none

end OptionKey

/-! ## Taking options in -/

/-- How reading goes on behind an option: with more known, or not at all. -/
inductive Progress
  | more (arguments : Arguments)
  | answered (invocation : Invocation)
  deriving DecidableEq, Repr

namespace Arguments

/-- Takes in a switch. -/
def switch (a : Arguments) : Switch → Except UsageError Progress
  | .html =>
    if a.html then .error (.repeated "--html") else .ok (.more { a with html := true })
  | .verbose =>
    if a.verbose then .error (.repeated "--verbose") else .ok (.more { a with verbose := true })
  | .help => .ok (.answered .help)
  | .version => .ok (.answered .version)

/-- Takes in an option with its value. A file must have a name; the other values may be empty. -/
def set (a : Arguments) (value : String) : Valued → Except UsageError Arguments
  | .output =>
    if value = "" then .error (.emptyValue "--output")
    else if a.output.isSome then .error (.repeated "--output")
    else .ok { a with output := some value }
  | .theme =>
    if a.theme.isSome then .error (.repeated "--theme") else .ok { a with theme := some value }
  | .only =>
    if a.filter.isSome then .error (.repeated "--only") else .ok { a with filter := some value }

/-- Takes in the input file. -/
def setInput (a : Arguments) (value : String) : Except UsageError Arguments :=
  if value = "" then .error (.emptyValue "INPUT")
  else if a.input.isSome then .error (.unknownArgument value)
  else .ok { a with input := some value }

end Arguments

/-! ## Groups of letters -/

/-- How a group of letters ends. -/
inductive GroupEnd
  | done (progress : Progress)
  /-- The last letter takes its value from the next argument. -/
  | wants (option : Valued) (arguments : Arguments)
  deriving DecidableEq, Repr

/-- The value written behind a letter, with or without a sign of equality. -/
def attachedValue : List Char → String
  | '=' :: value => String.ofList value
  | value => String.ofList value

/-- Reads the letters behind one hyphen. -/
def readGroup (a : Arguments) : List Char → Except UsageError GroupEnd
  | [] => .ok (.done (.more a))
  | c :: rest =>
    match OptionKey.ofLetter? c with
    | none => .error (.unknownArgument ("-" ++ c.toString))
    | some (.switch s) =>
      match a.switch s with
      | .error e => .error e
      | .ok (.answered invocation) => .ok (.done (.answered invocation))
      | .ok (.more a) => readGroup a rest
    | some (.valued v) =>
      if rest.isEmpty then .ok (.wants v a)
      else
        match a.set (attachedValue rest) v with
        | .error e => .error e
        | .ok a => .ok (.done (.more a))

/-! ## Reading all arguments -/

/-- Whether an argument can be the value of the option before it. A lone hyphen can. -/
def isValue (arg : String) : Bool := arg == "-" || arg.toList.head? != some '-'

/-- Splits an option at the first sign of equality. -/
def splitValue (s : List Char) : String × Option String :=
  match s.dropWhile (· ≠ '=') with
  | [] => (String.ofList s, none)
  | _ :: value => (String.ofList (s.takeWhile (· ≠ '=')), some (String.ofList value))

/-- Reads arguments none of which is an option. -/
def readInputs (a : Arguments) : List String → Except UsageError Invocation
  | [] => .ok (.convert a)
  | arg :: rest =>
    match a.setInput arg with
    | .error e => .error e
    | .ok a => readInputs a rest

/-- Reads arguments, the options known so far being `a`. -/
def readArguments (a : Arguments) : List String → Except UsageError Invocation
  | [] => .ok (.convert a)
  | arg :: rest =>
    match arg.toList with
    | ['-', '-'] => readInputs a rest
    | '-' :: '-' :: option =>
      let (word, value?) := splitValue option
      match OptionKey.ofWord? word, value? with
      | none, _ => .error (.unknownArgument arg)
      | some (.switch _), some _ => .error (.unwantedValue ("--" ++ word))
      | some (.switch s), none =>
        match a.switch s with
        | .error e => .error e
        | .ok (.answered invocation) => .ok invocation
        | .ok (.more a) => readArguments a rest
      | some (.valued v), some value =>
        match a.set value v with
        | .error e => .error e
        | .ok a => readArguments a rest
      | some (.valued v), none =>
        match rest with
        | [] => .error (.missingValue ("--" ++ word))
        | value :: rest =>
          if isValue value then
            match a.set value v with
            | .error e => .error e
            | .ok a => readArguments a rest
          else .error (.missingValue ("--" ++ word))
    | '-' :: c :: letters =>
      match readGroup a (c :: letters) with
      | .error e => .error e
      | .ok (.done (.answered invocation)) => .ok invocation
      | .ok (.done (.more a)) => readArguments a rest
      | .ok (.wants v a) =>
        match rest with
        | [] => .error (.missingValue arg)
        | value :: rest =>
          if isValue value then
            match a.set value v with
            | .error e => .error e
            | .ok a => readArguments a rest
          else .error (.missingValue arg)
    | _ =>
      match a.setInput arg with
      | .error e => .error e
      | .ok a => readArguments a rest

/-- What the arguments of the command ask for. -/
def Invocation.ofArguments (args : List String) : Except UsageError Invocation :=
  readArguments {} args

end SchemaDiagram.CommandLine
