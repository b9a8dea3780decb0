/-
Layout: what may stand between two lexemes and means nothing. It is made of
blanks, of comments from `//` to the end of their line, and of comments from
`/*` to the first `*/` after those two characters. A comment of the second
kind that is never closed is an error, reported at the line it was opened on.
-/
import SchemaDiagram.Text.Blank
import SchemaDiagram.Text.Lines

namespace SchemaDiagram

/-- A place in a text: the characters that follow it and the line it is on. -/
structure Cursor where
  rest : List Char
  line : Nat
  deriving DecidableEq, Repr

/-- The place before the first character of a text. -/
def Cursor.start (source : String) : Cursor := ⟨source.toList, 1⟩

/-- The line that follows the character `c` on a line. -/
def lineAfter (c : Char) (line : Nat) : Nat := if c = '\n' then line + 1 else line

namespace Layout

/-- What kind of layout a reader is inside of. -/
inductive Within
  | blanks
  | lineComment
  /-- A comment with the line it was opened on. -/
  | comment (opened : Nat)
  deriving DecidableEq, Repr

/-- The place where layout ends, or the line of a comment that takes the whole rest of the text. -/
inductive Skipped
  | stopped (place : Cursor)
  | neverClosed (opened : Nat) (finish : Cursor)
  deriving DecidableEq, Repr

/-- Skips layout. A line comment leaves its newline in place, which is a blank. -/
def skip : Within → Nat → List Char → Skipped
  | .comment opened, line, [] => .neverClosed opened ⟨[], line⟩
  | _, line, [] => .stopped ⟨[], line⟩
  | .blanks, line, '/' :: '/' :: s => skip .lineComment line s
  | .blanks, line, '/' :: '*' :: s => skip (.comment line) line s
  | .blanks, line, c :: s =>
    if Text.isBlank c then skip .blanks (lineAfter c line) s else .stopped ⟨c :: s, line⟩
  | .lineComment, line, c :: s =>
    skip (if c = '\n' then .blanks else .lineComment) (lineAfter c line) s
  | .comment _, line, '*' :: '/' :: s => skip .blanks line s
  | .comment opened, line, c :: s => skip (.comment opened) (lineAfter c line) s

end Layout

/-- Moves a place behind the layout that follows it. -/
def Cursor.skipLayout (c : Cursor) : Layout.Skipped := Layout.skip .blanks c.line c.rest

/-- Skipping only moves forward. -/
theorem Layout.length_le_of_skip {w : Within} {line : Nat} {s : List Char} {c : Cursor}
    (h : skip w line s = .stopped c) : c.rest.length ≤ s.length := by
  fun_induction skip w line s <;> grind

end SchemaDiagram
