/-
Documents: reading a whole text into a schema. The definitions are read one by
one; a second table of a name is refused as soon as it is complete. At the end
aliases are replaced by the tables they stand for, in every relationship and
wherever the alias was declared, and a document that declares nothing is
refused.

A reader can be used again after it has answered. It goes on with the tokens
that are left and knows the aliases declared so far; tables and relationships
are gathered anew.
-/
import SchemaDiagram.Document.Definition

namespace SchemaDiagram

namespace Document

/-! ## Gathering a schema -/

/-- A schema with what a definition adds to it. The table it declares must be new. -/
def extend (schema : Schema) : Definition → Except ParseError Schema
  | .table b =>
    if schema.declares b.name then .error (.duplicateTable b.name b.head.line)
    else .ok ⟨schema.tables ++ [b.table], schema.relationships ++ b.relationships⟩
  | d => .ok { schema with relationships := schema.relationships ++ d.relationships }

/-- The finished schema: not empty, and with all aliases resolved. -/
def finish (aliases : Aliases) (schema : Schema) : Except ParseError Schema :=
  if schema.tables.isEmpty && schema.relationships.isEmpty then .error .noDefinitions
  else .ok { schema with relationships := schema.relationships.map aliases.resolveEnds }

/-! ## Readers -/

/-- The tokens that are left to read and the aliases known so far. -/
structure Reader where
  rest : List Located
  aliases : Aliases
  deriving DecidableEq, Repr

/-- The answer of a reader, the events on the way to it, and the reader to go on with. -/
structure Outcome where
  result : Except ParseError Schema
  events : List Event
  reader : Reader

/-- An outcome with events that came before. -/
def Outcome.preceded (events : List Event) (o : Outcome) : Outcome :=
  { o with events := events ++ o.events }

/-- The events at the end of a document. -/
def finishEvents : Except ParseError Schema → List Event
  | .ok schema => [.parsedSchema schema.tables.length schema.relationships.length]
  | .error _ => []

/-- Reads definitions up to the end of the tokens, or to the first error. -/
def readFrom (schema : Schema) (aliases : Aliases) (toks : List Located) : Outcome :=
  if atEnd toks then
    let result := finish aliases schema
    ⟨result, finishEvents result, ⟨toks, aliases⟩⟩
  else
    match _h : Definition.read toks with
    | .error cause rest =>
      ⟨.error cause, Definition.eventsBroken toks,
        ⟨rest, Definition.aliasesBroken toks ++ aliases⟩⟩
    | .ok d rest =>
      match extend schema d with
      | .error cause => ⟨.error cause, [], ⟨rest, d.aliases ++ aliases⟩⟩
      | .ok schema => (readFrom schema (d.aliases ++ aliases) rest).preceded d.events
termination_by toks.length
decreasing_by exact (Definition.spells_of_read _h).length_lt (Definition.tokens_ne_nil d)

namespace Reader

/-- A reader before the first token of a text. -/
def ofSource (source : String) : Except ParseError Reader :=
  match tokenize source with
  | .error cause => .error (.lexical cause)
  | .ok toks => .ok ⟨toks, []⟩

/-- Reads as far as it goes, to the end or to the first error. -/
def run (r : Reader) : Outcome := readFrom ⟨[], []⟩ r.aliases r.rest

end Reader

/-- Reads a whole text, with the events on the way. -/
def parseWithEvents (source : String) : Except ParseError Schema × List Event :=
  match Reader.ofSource source with
  | .error cause => (.error cause, [])
  | .ok reader =>
    let outcome := reader.run
    (outcome.result, outcome.events)

/-- The schema of a text. -/
def parse (source : String) : Except ParseError Schema := (parseWithEvents source).1

end Document

end SchemaDiagram
