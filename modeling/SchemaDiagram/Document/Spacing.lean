/-
The text of a run of tokens, with blanks set as a person would: `note: 'text'`,
`default: -1`, `default: now(1, 2)`. Blanks of the source do not count, so two
spellings of a setting that differ only in layout have the same text.
-/
import SchemaDiagram.Token

namespace SchemaDiagram.Document

/-- Whether a token stands right behind the one before it, without a blank. -/
def standsTight (before here : Token) : Bool :=
  match before, here with
  | _, .mark .colon | _, .mark .comma | _, .mark .rightParen | _, .mark .dot => true
  | .mark .leftParen, _ | .mark .dot, _ => true
  | .mark .minus, .number _ => true
  | .word _, .mark .leftParen => true
  | _, _ => false

/-- The text of tokens that follow another one. -/
def textAfter (before : Token) : List Token → String
  | [] => ""
  | t :: rest => (if standsTight before t then "" else " ") ++ t.text ++ textAfter t rest

/-- The text of a run of tokens. -/
def spacedText : List Token → String
  | [] => ""
  | t :: rest => t.text ++ textAfter t rest

end SchemaDiagram.Document
