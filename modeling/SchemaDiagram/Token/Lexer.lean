/-
Reading tokens one after another. A cursor gives its next token, with the line
it starts on, and the place after it; when no token can be read it gives the
cause and the place where reading can go on. At the end of the text it gives
the token `endOfInput` for ever.
-/
import SchemaDiagram.Token.Layout
import SchemaDiagram.Token.Lexeme

namespace SchemaDiagram

/-- A fault and the line it is reported on: that of the character itself, or the line on which
the text that is never closed begins. -/
structure LexError where
  fault : LexFault
  line : Nat
  deriving DecidableEq, Repr

def Enclosure.name : Enclosure → String
  | .string => "string"
  | .comment => "comment"
  | .expression => "expression"

def LexError.message (e : LexError) : String :=
  match e.fault with
  | .unexpected c => "Unexpected character '" ++ c.toString ++ "' on line " ++ toString e.line
  | .unterminated kind => "Unterminated " ++ kind.name ++ " starting on line " ++ toString e.line

namespace Cursor

/-- The next token, or why there is none, and the place after it. An unexpected character is
passed over; a text that is never closed takes the whole rest along. -/
def next (c : Cursor) : Except LexError Located × Cursor :=
  match c.skipLayout with
  | .neverClosed opened finish => (.error ⟨.unterminated .comment, opened⟩, finish)
  | .stopped ⟨[], line⟩ => (.ok ⟨.endOfInput, line⟩, ⟨[], line⟩)
  | .stopped ⟨ch :: s, line⟩ =>
    match Lexeme.read ch s with
    | .ok x => (.ok ⟨x.token, line⟩, ⟨x.rest, line + Text.newlines x.text⟩)
    | .error (.unexpected d) => (.error ⟨.unexpected d, line⟩, ⟨s, line⟩)
    | .error (.unterminated kind) =>
      (.error ⟨.unterminated kind, line⟩, ⟨[], line + Text.newlines s⟩)

/-- A token other than the end takes at least one character. -/
theorem length_rest_next {c c' : Cursor} {t : Located} (h : c.next = (.ok t, c'))
    (ht : t.token ≠ .endOfInput) : c'.rest.length < c.rest.length := by
  unfold next at h
  split at h
  · cases h
  · cases h; exact absurd rfl ht
  · rename_i ch s line hs
    have := Layout.length_le_of_skip hs
    split at h
    · rename_i x hx
      cases h
      have := Lexeme.length_rest_read hx
      simp only [List.length_cons] at *
      omega
    · cases h
    · cases h

/-- All tokens from a place on, the last one being the end of the input. -/
def tokens (c : Cursor) : Except LexError (List Located) :=
  match _h : c.next with
  | (.error e, _) => .error e
  | (.ok t, c') => if _ht : t.token = .endOfInput then .ok [t] else (c'.tokens).map (t :: ·)
termination_by c.rest.length
decreasing_by exact length_rest_next ‹_› ‹_›

end Cursor

/-- The tokens of a text. -/
def tokenize (source : String) : Except LexError (List Located) := (Cursor.start source).tokens

end SchemaDiagram
