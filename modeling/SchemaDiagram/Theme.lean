/-
Themes of a diagram, and the presets that set the colours of a theme. A preset
is written as a directive in front of the diagram. The theme `default` needs
none.
-/
import SchemaDiagram.Text.Blank
import SchemaDiagram.Text.Case

namespace SchemaDiagram

inductive Theme
  | default
  | dark
  | neutral
  | forest
  deriving DecidableEq, Repr, Inhabited

namespace Theme

def name : Theme → String
  | .default => "default"
  | .dark => "dark"
  | .neutral => "neutral"
  | .forest => "forest"

def all : List Theme := [.default, .dark, .neutral, .forest]

/-- Reads the name of a theme, in any case and with blanks around it. -/
def ofName? (text : String) : Option Theme :=
  all.find? fun theme => Text.sameWord theme.name (Text.trim text)

end Theme

/-- A theme and the values set for its variables, in the order they are written. -/
structure Preset where
  theme : Theme
  assignments : List (String × String)
  deriving DecidableEq, Repr

/-- One line that sets the theme and its variables. -/
def Preset.directive (p : Preset) : String :=
  "%%\x7binit: \x7b'theme': '" ++ p.theme.name ++ "', 'themeVariables': \x7b" ++
    ", ".intercalate (p.assignments.map fun (key, value) => "'" ++ key ++ "': '" ++ value ++ "'") ++
    "\x7d\x7d\x7d%%"

/-- A registry of presets; of two presets for one theme the first one counts. -/
structure Registry where
  presets : List Preset
  deriving DecidableEq, Repr

namespace Registry

def preset? (r : Registry) (theme : Theme) : Option Preset := r.presets.find? (·.theme == theme)

/-- Colours for the themes `dark`, `neutral` and `forest`. -/
def builtin : Registry where
  presets :=
    [{ theme := .dark
       assignments :=
        [("primaryColor", "#2A2A2A"), ("primaryTextColor", "#E0E0E0"),
          ("primaryBorderColor", "#555555"), ("secondaryColor", "#3A3A3A"),
          ("tertiaryColor", "#1E1E1E"), ("lineColor", "#AAAAAA")] },
      { theme := .neutral
        assignments :=
          [("primaryColor", "#F4F4F4"), ("primaryTextColor", "#333333"),
            ("primaryBorderColor", "#999999"), ("secondaryColor", "#E8E8E8"),
            ("tertiaryColor", "#FFFFFF"), ("lineColor", "#666666")] },
      { theme := .forest
        assignments :=
          [("primaryColor", "#CDE498"), ("primaryTextColor", "#13540C"),
            ("primaryBorderColor", "#13540C"), ("secondaryColor", "#CDFFB2"),
            ("tertiaryColor", "#F4FCEB"), ("lineColor", "#6EAA49")] }]

end Registry

end SchemaDiagram
