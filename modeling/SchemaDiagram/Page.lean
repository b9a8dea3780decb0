/-
Pages: a hypertext document that shows a diagram in a browser. The diagram
stands in the page as text, with the two characters escaped that markup could
begin with; a greater-than sign needs no escape there, which keeps labels such
as `user_id > id` readable.
-/
import SchemaDiagram.Theme

namespace SchemaDiagram

namespace Page

def escapeChar : Char → List Char
  | '&' => "&amp;".toList
  | '<' => "&lt;".toList
  | c => [c]

/-- A text as the content of an element. -/
def escape (text : String) : String := String.ofList (text.toList.flatMap escapeChar)

/-- Where a browser loads the program that draws diagrams. -/
def scriptAddress : String := "https://cdn.jsdelivr.net/npm/mermaid@10/dist/mermaid.esm.min.mjs"

/-- The page up to the diagram. -/
def head : String :=
  "<!DOCTYPE html>\n" ++
  "<html lang=\"en\">\n" ++
  "<head>\n" ++
  "  <meta charset=\"utf-8\">\n" ++
  "  <title>ER Diagram</title>\n" ++
  "  <style>\n" ++
  "    body \x7b font-family: sans-serif; margin: 2rem; \x7d\n" ++
  "    .mermaid \x7b display: flex; justify-content: center; \x7d\n" ++
  "  </style>\n" ++
  "</head>\n" ++
  "<body>\n" ++
  "<pre class=\"mermaid\">\n"

/-- The page behind the diagram. -/
def tail (theme : Theme) : String :=
  "</pre>\n" ++
  "<script type=\"module\">\n" ++
  "  import mermaid from '" ++ scriptAddress ++ "';\n" ++
  "  mermaid.initialize(\x7b startOnLoad: true, theme: '" ++ theme.name ++ "' \x7d);\n" ++
  "</script>\n" ++
  "</body>\n" ++
  "</html>\n"

/-- What a text lacks to end in a newline. -/
def lineEnd (text : String) : String :=
  if text.toList.getLast? = some '\n' then "" else "\n"

/-- The page that shows a diagram in a theme. -/
def render (diagram : String) (theme : Theme) : String :=
  head ++ (escape diagram ++ (lineEnd diagram ++ tail theme))

end Page

end SchemaDiagram
