/-
What can be wrong with a schema document. An error is a cause with the data of
its message; the wording is given once, by `ParseError.message`.
-/
import SchemaDiagram.Token.Lexer

namespace SchemaDiagram.Document

/-- What a reader was looking for when it met something else. -/
inductive Expected
  | definition
  | tableName
  | tableAlias
  | tableOpen
  | tableClose
  | columnName
  | columnType
  | typeArgument
  | noteText
  | columnSetting
  | settingsSeparator
  | settingsClose
  | operator
  | referencesOpen
  | referencesClose
  | blockOpen
  | blockClose
  deriving DecidableEq, Repr

def Expected.text : Expected → String
  | .definition => "Table, Ref, Enum, Project, TableGroup or Note"
  | .tableName => "table name"
  | .tableAlias => "table alias"
  | .tableOpen => "'\x7b' after table name"
  | .tableClose => "'\x7d' closing table"
  | .columnName => "column name"
  | .columnType => "column type"
  | .typeArgument => "type argument or ')'"
  | .noteText => "note string"
  | .columnSetting => "column setting"
  | .settingsSeparator => "',' or ']' in settings"
  | .settingsClose => "']' closing settings"
  | .operator => "relationship operator (<, >, -, <>)"
  | .referencesOpen => "':' or '\x7b' after Ref"
  | .referencesClose => "'\x7d' closing Ref block"
  | .blockOpen => "'\x7b' opening block"
  | .blockClose => "'\x7d' closing block"

inductive ParseError
  | lexical (cause : LexError)
  | unexpected (found : Token) (expected : Expected) (line : Nat)
  | unexpectedEnd (expected : Expected)
  /-- A second table of a name, on the line of its keyword. -/
  | duplicateTable (name : String) (line : Nat)
  /-- An endpoint without a column, on the line of its first name. -/
  | invalidEndpoint (endpoint : String) (line : Nat)
  /-- A document with neither tables nor relationships. -/
  | noDefinitions
  deriving DecidableEq, Repr

def ParseError.message : ParseError → String
  | .lexical cause => "Lex error: " ++ cause.message
  | .unexpected found expected line =>
    "Unexpected token '" ++ found.text ++ "' on line " ++ toString line ++ ", expected " ++
      expected.text
  | .unexpectedEnd expected => "Unexpected end of input, expected " ++ expected.text
  | .duplicateTable name line => "Duplicate table '" ++ name ++ "' on line " ++ toString line
  | .invalidEndpoint endpoint line =>
    "Invalid reference endpoint '" ++ endpoint ++ "' on line " ++ toString line ++
      ", expected <table>.<column>"
  | .noDefinitions => "No Table or Ref definitions found"

end SchemaDiagram.Document
