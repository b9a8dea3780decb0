/-
The characters of bare names. A name opens with a letter or an underscore and
goes on with letters, numeric characters and underscores.
-/
import SchemaDiagram.Text.Alphabetic
import SchemaDiagram.Text.Numeric

namespace SchemaDiagram.Text

/-- Letters and numeric characters of every script. -/
def isAlphanumeric (c : Char) : Bool := isAlphabetic c || isNumeric c

def isNameStart (c : Char) : Bool := isAlphabetic c || c == '_'

def isNameChar (c : Char) : Bool := isAlphanumeric c || c == '_'

/-- Whether a text can stand as a bare name. -/
def isName : List Char → Bool
  | [] => false
  | c :: s => isNameStart c && s.all isNameChar

end SchemaDiagram.Text
