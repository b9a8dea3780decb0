/-
The grammar of documents, said without the reader.

A derivation is a list of definitions, the trees that the reader also
builds; what a tree is written with is its `tokens`. The trees alone admit
more than the language does: `WellFormed` says of each what its shape cannot,
that the keywords are keywords, that skipped blocks balance their braces,
that a plain setting ends nowhere before its end. `Derives` says which
definitions a list of tokens is written with, and `schemaOf` what they mean.
-/
import SchemaDiagram.Document

namespace SchemaDiagram.Document

/-! ## Types of columns -/

/-- Places between commas, each empty or filled with one argument. -/
def IsArguments (args : List Token) : Prop :=
  ∃ places : List (Option Token), (∀ t, some t ∈ places → TypeName.isArgument t = true) ∧
    args = [.mark .comma].intercalate (places.map Option.toList)

def TypeName.WellFormed (t : TypeName) : Prop := ∀ args, t.arguments = some args → IsArguments args

/-! ## Settings -/

/-- The number of open parentheses behind a token. One that closes without having been opened does
not count. -/
def parensAfter (depth : Nat) : Token → Nat
  | .mark .leftParen => depth + 1
  | .mark .rightParen => depth - 1
  | _ => depth

/-- The number of open parentheses behind a run of tokens that begins with `depth` of them. -/
def openParens (depth : Nat) (run : List Token) : Nat := run.foldl parensAfter depth

/-- What ends a setting outside parentheses. -/
def EndsSetting (t : Token) : Prop := t = .mark .comma ∨ t = .mark .rightBracket

/-- A run of tokens in which `depth` parentheses are open at first and none at the end. What could
end it stands only where some are open. -/
structure IsRun (depth : Nat) (run : List Token) : Prop where
  inner : ∀ front t back, run = front ++ t :: back → EndsSetting t → openParens depth front ≠ 0
  final : openParens depth run = 0
  input : .endOfInput ∉ run

def Setting.WellFormed : Setting → Prop
  | .reference keyword _ _ => Text.sameWord keyword "ref" = true
  | .plain run =>
    run ≠ [] ∧ IsRun 0 run ∧
      ∀ s more, run = .word s :: .mark .colon :: more → Text.sameWord s "ref" = false

structure Settings.WellFormed (ss : Settings) : Prop where
  items : ∀ s ∈ ss.items, s.WellFormed
  comma : ss.items = [] → ss.trailingComma = false

/-- A list of settings that may be left out. -/
def Settings.OptionalWellFormed (ss : Option Settings) : Prop := ∀ s, ss = some s → s.WellFormed

/-! ## Blocks that are skipped -/

/-- Any tokens with balanced braces. -/
inductive Balanced : List Token → Prop
  | nil : Balanced []
  | other {t : Token} {more : List Token} : t ≠ .mark .leftBrace → t ≠ .mark .rightBrace →
      t ≠ .endOfInput → Balanced more → Balanced (t :: more)
  | block {inner more : List Token} : Balanced inner → Balanced more →
      Balanced (.mark .leftBrace :: (inner ++ .mark .rightBrace :: more))

/-- What may stand between the keyword of a skipped definition and its body. -/
def IsHeader (header : List Token) : Prop :=
  ∀ t ∈ header, t ≠ .mark .leftBrace ∧ t ≠ .mark .colon ∧ t ≠ .endOfInput

structure Skipped.WellFormed (s : Skipped) : Prop where
  keyword : ∃ k ∈ Skipped.keywords, Text.sameWord s.keyword k = true
  header : IsHeader s.header
  body : ∀ body, s.body = .block body → Balanced body

/-! ## Tables -/

structure ColumnLine.WellFormed (c : ColumnLine) : Prop where
  type : c.type.WellFormed
  settings : Settings.OptionalWellFormed c.settings
  /-- Two brackets right behind a type make an array of it; they are no empty list of settings. -/
  array : c.type.isArray = false → c.settings ≠ some ⟨[], false⟩

def Member.WellFormed : Member → Prop
  | .column line => line.WellFormed
  | .note keyword _ => Text.sameWord keyword "note" = true
  | .block keyword body =>
    (Text.sameWord keyword "indexes" = true ∨ Text.sameWord keyword "note" = true) ∧ Balanced body

structure TableHead.WellFormed (h : TableHead) : Prop where
  keyword : Text.sameWord h.keyword "table" = true
  short : ∀ word name, h.shortName = some (word, name) → Text.sameWord word "as" = true

structure TableBlock.WellFormed (b : TableBlock) : Prop where
  head : b.head.WellFormed
  settings : Settings.OptionalWellFormed b.settings
  members : ∀ m ∈ b.members, m.WellFormed

/-! ## References -/

def Reference.WellFormed (r : Reference) : Prop := Settings.OptionalWellFormed r.settings

structure ReferenceGroup.WellFormed (g : ReferenceGroup) : Prop where
  keyword : Text.sameWord g.keyword "ref" = true
  references : ∀ r ∈ g.references, r.WellFormed

/-! ## Documents -/

def Definition.WellFormed : Definition → Prop
  | .table b => b.WellFormed
  | .references g => g.WellFormed
  | .skipped s => s.WellFormed

/-- The tokens are written with the definitions, up to the end of the input. -/
structure Derives (toks : List Token) (ds : List Definition) : Prop where
  tokens : toks = ds.flatMap Definition.tokens ++ [.endOfInput]
  wellFormed : ∀ d ∈ ds, d.WellFormed

/-- A text is written with the definitions. -/
def IsDocument (source : String) (ds : List Definition) : Prop :=
  ∃ toks, tokenize source = .ok toks ∧ Derives (toks.map Located.token) ds

/-- The table blocks among definitions. -/
def tableBlocks (ds : List Definition) : List TableBlock := ds.filterMap Definition.table?

def tableNames (ds : List Definition) : List String := (tableBlocks ds).map TableBlock.name

/-- The aliases that definitions declare, the last declaration first. -/
def aliasesOf (ds : List Definition) : Aliases := ds.reverse.flatMap Definition.aliases

/-- What definitions mean: their tables, and their relationships with all aliases resolved. -/
def schemaOf (ds : List Definition) : Schema where
  tables := (tableBlocks ds).map TableBlock.table
  relationships := (ds.flatMap Definition.relationships).map (aliasesOf ds).resolveEnds

/-- Definitions that make up a schema: no two tables of a name, and not nothing at all. -/
structure Admissible (ds : List Definition) : Prop where
  names : (tableNames ds).Nodup
  nonempty : (schemaOf ds).tables ≠ [] ∨ (schemaOf ds).relationships ≠ []

end SchemaDiagram.Document
