/-
Tokens of the schema language: words, texts between quotes, numbers, colours,
expressions and punctuation marks. A token knows the text it is shown with;
for a quoted text that is not always the text it was written with, because
the escapes of the source are gone.
-/

namespace SchemaDiagram

/-- Punctuation marks. -/
inductive Mark
  | leftBrace
  | rightBrace
  | leftParen
  | rightParen
  | leftBracket
  | rightBracket
  | comma
  | colon
  | dot
  | less
  | greater
  | minus
  | lessGreater
  deriving DecidableEq, Repr

def Mark.text : Mark → String
  | .leftBrace => "\x7b"
  | .rightBrace => "\x7d"
  | .leftParen => "("
  | .rightParen => ")"
  | .leftBracket => "["
  | .rightBracket => "]"
  | .comma => ","
  | .colon => ":"
  | .dot => "."
  | .less => "<"
  | .greater => ">"
  | .minus => "-"
  | .lessGreater => "<>"

/-- The marks of one character that no longer mark begins with. -/
def Mark.ofChar? : Char → Option Mark
  | '{' => some .leftBrace
  | '}' => some .rightBrace
  | '(' => some .leftParen
  | ')' => some .rightParen
  | '[' => some .leftBracket
  | ']' => some .rightBracket
  | ',' => some .comma
  | ':' => some .colon
  | '.' => some .dot
  | '>' => some .greater
  | '-' => some .minus
  | _ => none

inductive Token
  /-- A bare name or keyword. -/
  | word (text : String)
  /-- A name in double quotes. -/
  | quoted (text : String)
  /-- A text in single quotes, or in three of them. -/
  | string (text : String)
  | number (text : String)
  /-- A text between backticks. -/
  | expression (text : String)
  /-- A number sign and what follows it. -/
  | color (text : String)
  | mark (m : Mark)
  | endOfInput
  deriving DecidableEq, Repr

namespace Token

/-- The text a token is shown with in settings and in messages. -/
def text : Token → String
  | .word s => s
  | .quoted s => "\"" ++ s ++ "\""
  | .string s => "'" ++ String.ofList (s.toList.flatMap escapeApostrophe) ++ "'"
  | .number s => s
  | .expression s => "`" ++ s ++ "`"
  | .color s => s
  | .mark m => m.text
  | .endOfInput => "end of input"
where
  escapeApostrophe (c : Char) : List Char := if c = '\'' then ['\\', '\''] else [c]

end Token

/-- A token and the line it starts on; lines count from 1. -/
structure Located where
  token : Token
  line : Nat
  deriving DecidableEq, Repr

end SchemaDiagram
