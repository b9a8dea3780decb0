/-
The log: the events of a run, as they are written. What is written, and how, is
up to a logger, of which nothing is assumed. All that a run decides is which
directives the logger goes by: those of a variable of the environment, if they
are in order, otherwise its own.
-/
import SchemaDiagram.Event

namespace SchemaDiagram.CommandLine

/-- What writes events. Its directives are a language of its own. -/
structure Logger where
  /-- The events that directives let through, if the directives are in order. -/
  filter? (directives : String) : Option (Event → Bool)
  /-- The events that directives let through when those out of order among them do not count. -/
  lossyFilter (directives : String) : Event → Bool
  /-- What is written for an event. The place that the event has in the log tells it from others
  like it, which may have been at another time. -/
  line (place : Nat) (e : Event) : String

namespace Logger

/-- The directives of a run for which none are set. -/
def ownDirectives (verbose : Bool) : String := if verbose then "dbml2mmd=debug" else "warn"

/-- Whether an event is shown. Directives that are set win over those of the run. -/
def shows (l : Logger) (setting : Option String) (verbose : Bool) : Event → Bool :=
  (setting.bind l.filter?).getD (l.lossyFilter (ownDirectives verbose))

/-- The log of a run in which some events happen. -/
def lines (l : Logger) (setting : Option String) (verbose : Bool) (events : List Event) :
    List String :=
  (events.filter (l.shows setting verbose)).mapIdx l.line

end Logger

/-! ## A plain logger

Its directives are one level, for everything or for the program by its name, and its lines have no
time in front of them. -/

/-- How much is logged: events up to a level of detail. -/
inductive Verbosity
  | off
  | error
  | warn
  | info
  | debug
  deriving DecidableEq, Repr

namespace Verbosity

/-- Reads a level; every level of detail beyond `debug` shows the same. -/
def ofDirectives? : String → Option Verbosity
  | "off" => some .off
  | "error" => some .error
  | "warn" => some .warn
  | "info" => some .info
  | "debug" | "trace" | "dbml2mmd=debug" => some .debug
  | _ => none

def rank : Verbosity → Nat
  | .off => 0
  | .error => 1
  | .warn => 2
  | .info => 3
  | .debug => 4

/-- The least verbosity at which events of a level are shown. -/
def needed : Level → Verbosity
  | .warn => .warn
  | .info => .info
  | .debug => .debug

def shows (v : Verbosity) (e : Event) : Bool := (needed e.level).rank ≤ v.rank

end Verbosity

/-- The name of a level, set flush right in five columns. -/
def levelName : Level → String
  | .warn => " WARN"
  | .info => " INFO"
  | .debug => "DEBUG"

/-- An event as a line. -/
def plainLine (e : Event) : String :=
  levelName e.level ++ " " ++ e.message ++
    String.join (e.fields.map fun (key, value) => " " ++ key ++ "=" ++ value.shown)

def Logger.plain : Logger where
  filter? directives := (Verbosity.ofDirectives? directives).map Verbosity.shows
  lossyFilter directives := ((Verbosity.ofDirectives? directives).getD .error).shows
  line _ e := plainLine e

end SchemaDiagram.CommandLine
