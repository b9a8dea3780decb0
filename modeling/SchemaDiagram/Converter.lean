/-
Converting documents to diagrams. A converter works with one configuration and
remembers the diagram of its last successful conversion, which the page is made
of. A conversion that fails leaves what is remembered as it was, and drawing a
schema without converting it does so too.
-/
import SchemaDiagram.Diagram
import SchemaDiagram.Document
import SchemaDiagram.Page

namespace SchemaDiagram

structure Converter where
  config : Config
  registry : Registry := .builtin
  remembered : Option String := none
  deriving DecidableEq, Repr

namespace Converter

/-- The diagram of a schema; nothing is remembered. -/
def render (c : Converter) (schema : Schema) : String := Diagram.render c.registry c.config schema

/-- The diagram of a schema, and the converter that remembers it. -/
def convertSchema (c : Converter) (schema : Schema) : String × Converter :=
  (c.render schema, { c with remembered := some (c.render schema) })

/-- The diagram of a document, or why it has none. -/
def convert (c : Converter) (source : String) : Except Document.ParseError String × Converter :=
  match Document.parse source with
  | .error cause => (.error cause, c)
  | .ok schema =>
    let (diagram, c) := c.convertSchema schema
    (.ok diagram, c)

/-- What happens while a document is converted. -/
def events (c : Converter) (source : String) : List Event :=
  let (result, events) := Document.parseWithEvents source
  match result with
  | .error _ => events
  | .ok schema => events ++ Diagram.events c.config schema

/-- The page around the remembered diagram, if pages are wanted and there is a diagram. -/
def page? (c : Converter) : Option String :=
  if c.config.html then c.remembered.map (Page.render · c.config.theme) else none

/-! ## Requests

The requests a converter can be given, one after another. -/

inductive Request
  | convert (source : String)
  | convertSchema (schema : Schema)
  | render (schema : Schema)
  | page

inductive Answer
  | diagram (text : String)
  | failed (cause : Document.ParseError)
  | page (text : Option String)
  deriving DecidableEq, Repr

/-- Answers a request. -/
def answer (c : Converter) : Request → Answer × Converter
  | .convert source =>
    match c.convert source with
    | (.ok diagram, c) => (.diagram diagram, c)
    | (.error cause, c) => (.failed cause, c)
  | .convertSchema schema =>
    let (diagram, c) := c.convertSchema schema
    (.diagram diagram, c)
  | .render schema => (.diagram (c.render schema), c)
  | .page => (.page c.page?, c)

/-- Answers requests one after another. -/
def answerAll (c : Converter) : List Request → List Answer
  | [] => []
  | r :: rest =>
    let (a, c) := c.answer r
    a :: c.answerAll rest

end Converter

/-! ## Converting in one call -/

inductive Error
  | config (cause : ConfigError)
  | parse (cause : Document.ParseError)
  /-- A page was wanted and there is none. -/
  | noPage
  deriving DecidableEq, Repr

def Error.message : Error → String
  | .config cause => cause.message
  | .parse cause => cause.message
  | .noPage => "HTML output unavailable"

/-- The theme of a name, or else the default one. -/
def themeNamed : Option String → Except ConfigError Theme
  | none => .ok .default
  | some name => Config.themeOf name

/-- The filter for the names in an array, if there is one. Entries that are no texts do not count. -/
def filterListed : Option (List (Option String)) → Except ConfigError (Option TableFilter)
  | none => .ok none
  | some entries =>
    match TableFilter.ofNames (entries.filterMap id) with
    | .ok filter => .ok (some filter)
    | .error cause => .error (.filter cause)

/-- The configuration of a call. -/
def configFor (theme : Option String) (only : Option (List (Option String))) (html : Bool) :
    Except Error Config :=
  match themeNamed theme with
  | .error cause => .error (.config cause)
  | .ok theme =>
    match filterListed only with
    | .error cause => .error (.config cause)
    | .ok filter => .ok { theme, filter, html }

/-- The diagram of a document in a theme. If tables are listed, it has these only. -/
def diagramOf (theme : Option String) (source : String)
    (only : Option (List (Option String)) := none) : Except Error String :=
  match configFor theme only false with
  | .error cause => .error cause
  | .ok config =>
    match (Converter.convert { config } source).1 with
    | .ok diagram => .ok diagram
    | .error cause => .error (.parse cause)

/-- The page that shows the diagram of a document in a theme. -/
def pageOf (theme : Option String) (source : String)
    (only : Option (List (Option String)) := none) : Except Error String :=
  match configFor theme only true with
  | .error cause => .error cause
  | .ok config =>
    match Converter.convert { config } source with
    | (.error cause, _) => .error (.parse cause)
    | (.ok _, converter) =>
      match converter.page? with
      | some page => .ok page
      | none => .error .noPage

end SchemaDiagram
