/-
Blocks in braces whose contents carry nothing for the schema: indexes, notes,
and the bodies of enums, projects and table groups. Such a block may hold any
tokens as long as its braces balance. A note may also be given as one text
behind a colon.
-/
import SchemaDiagram.Document.Step

namespace SchemaDiagram.Document

namespace Block

/-- Reads the contents of a block and the brace that closes it, while `depth` blocks inside it are
open. An end of the input that is met is read too. -/
def readBody (depth : Nat) : List Located → Step (List Token)
  | [] => .error (.unexpectedEnd .blockClose) []
  | t :: rest =>
    match t.token with
    | .endOfInput => .error (.unexpectedEnd .blockClose) rest
    | .mark .leftBrace => (readBody (depth + 1) rest).map (t.token :: ·)
    | .mark .rightBrace =>
      match depth with
      | 0 => .ok [] rest
      | depth + 1 => (readBody depth rest).map (t.token :: ·)
    | _ => (readBody depth rest).map (t.token :: ·)

theorem spells_of_readBody {depth : Nat} {toks rest : List Located} {body : List Token}
    (h : readBody depth toks = .ok body rest) :
    Spells toks (body ++ [.mark .rightBrace]) rest := by
  fun_induction readBody depth toks generalizing body with
  | case1 | case2 => cases h
  | case3 depth t toks _ ih =>
    obtain ⟨body', h', rfl⟩ := Step.map_eq_ok_iff.1 h
    exact (ih h').cons
  | case4 t toks ht => cases h; exact ht ▸ Spells.nil.cons
  | case5 t toks _ depth ih =>
    obtain ⟨body', h', rfl⟩ := Step.map_eq_ok_iff.1 h
    exact (ih h').cons
  | case6 depth t toks _ _ _ ih =>
    obtain ⟨body', h', rfl⟩ := Step.map_eq_ok_iff.1 h
    exact (ih h').cons

end Block

/-- Reads the text of a note, which stands in single quotes. -/
def readNoteText : List Located → Step String
  | [] => unexpected .noteText []
  | t :: rest =>
    match t.token with
    | .string s => .ok s rest
    | _ => unexpected .noteText (t :: rest)

theorem spells_of_readNoteText {toks rest : List Located} {s : String}
    (h : readNoteText toks = .ok s rest) : Spells toks [.string s] rest := by
  cases toks with
  | nil => cases h
  | cons t toks =>
    simp only [readNoteText] at h
    split at h
    · rename_i ht
      cases h
      exact ht ▸ Spells.nil.cons
    · cases h

/-! ## Definitions that are skipped -/

/-- The part of a skipped definition that ends it. -/
inductive SkippedBody
  | note (text : String)
  | block (body : List Token)
  deriving DecidableEq, Repr

/-- A definition that adds nothing to the schema: its keyword, a header of any tokens but braces
that open and colons, and its body. -/
structure Skipped where
  keyword : String
  header : List Token
  body : SkippedBody
  deriving DecidableEq, Repr

namespace Skipped

/-- The keywords of skipped definitions. -/
def keywords : List String := ["enum", "project", "tablegroup", "note"]

def bodyTokens : SkippedBody → List Token
  | .note s => [.mark .colon, .string s]
  | .block body => .mark .leftBrace :: body ++ [.mark .rightBrace]

def tokens (s : Skipped) : List Token := .word s.keyword :: (s.header ++ bodyTokens s.body)

/-- Reads header and body. The first brace that opens, or the first colon, ends the header. -/
def readFrom : List Located → Step (List Token × SkippedBody)
  | [] => .error (.unexpectedEnd .blockOpen) []
  | t :: rest =>
    match t.token with
    | .endOfInput => .error (.unexpectedEnd .blockOpen) (t :: rest)
    | .mark .leftBrace => (Block.readBody 0 rest).map fun body => ([], .block body)
    | .mark .colon => (readNoteText rest).map fun s => ([], .note s)
    | _ => (readFrom rest).map fun (header, body) => (t.token :: header, body)

/-- Reads a skipped definition behind its keyword. -/
def read (keyword : String) (toks : List Located) : Step Skipped :=
  (readFrom toks).map fun (header, body) => ⟨keyword, header, body⟩

theorem spells_of_readFrom {toks rest : List Located} {header : List Token} {body : SkippedBody}
    (h : readFrom toks = .ok (header, body) rest) :
    Spells toks (header ++ bodyTokens body) rest := by
  fun_induction readFrom toks generalizing header body with
  | case1 | case2 => cases h
  | case3 t toks ht =>
    obtain ⟨body', h', he⟩ := Step.map_eq_ok_iff.1 h
    cases he
    exact (Block.spells_of_readBody h').cons_of_eq ht
  | case4 t toks ht =>
    obtain ⟨s, h', he⟩ := Step.map_eq_ok_iff.1 h
    cases he
    exact (spells_of_readNoteText h').cons_of_eq ht
  | case5 t toks _ _ _ ih =>
    obtain ⟨⟨header', body'⟩, h', he⟩ := Step.map_eq_ok_iff.1 h
    cases he
    exact (ih h').cons

theorem spells_of_read {keyword : String} {t : Located} {toks rest : List Located} {s : Skipped}
    (ht : t.token = .word keyword) (h : read keyword toks = .ok s rest) :
    Spells (t :: toks) s.tokens rest := by
  obtain ⟨⟨header, body⟩, h', rfl⟩ := Step.map_eq_ok_iff.1 h
  exact (spells_of_readFrom h').cons_of_eq ht

end Skipped

end SchemaDiagram.Document
