/-
The definitions a document is made of: tables, references, and definitions that
are skipped. The keyword tells which one comes. What a definition adds to a
schema is read off it afterwards; reading it does not depend on what was read
before.
-/
import SchemaDiagram.Event
import SchemaDiagram.Document.Reference
import SchemaDiagram.Document.Table

namespace SchemaDiagram.Document

/-- Other names of tables, each with the name it stands for. The first entry of a name counts. -/
abbrev Aliases := List (String × String)

/-- The name that a name stands for; a name that is no alias stands for itself. -/
def Aliases.resolve (aliases : Aliases) (name : String) : String :=
  (aliases.lookup name).getD name

/-- A relationship with the names of both tables resolved. -/
def Aliases.resolveEnds (aliases : Aliases) (r : Relationship) : Relationship :=
  { r with fromTable := aliases.resolve r.fromTable, toTable := aliases.resolve r.toTable }

inductive Definition
  | table (block : TableBlock)
  | references (group : ReferenceGroup)
  | skipped (block : Skipped)
  deriving DecidableEq, Repr

namespace Definition

def tokens : Definition → List Token
  | .table b => b.tokens
  | .references g => g.tokens
  | .skipped s => s.tokens

/-- The table it declares. -/
def table? : Definition → Option TableBlock
  | .table b => some b
  | _ => none

/-- The relationships it adds, with tables named as written. -/
def relationships : Definition → List Relationship
  | .table b => b.relationships
  | .references g => g.relationships
  | .skipped _ => []

def aliases : Definition → Aliases
  | .table b => TableBlock.aliases b.head
  | _ => []

def events : Definition → List Event
  | .table b => [.parsedTable b.name b.columnLines.length]
  | .references _ => []
  | .skipped s => [.skippingBlock s.keyword]

/-- The keyword of a skipped definition as written and the tokens behind it, if one comes next. -/
def afterSkippedKeyword? (toks : List Located) : Option (String × List Located) :=
  Skipped.keywords.findSome? (afterKeyword? · toks)

/-- Reads one definition. -/
def read (toks : List Located) : Step Definition :=
  match afterKeyword? "table" toks with
  | some (keyword, rest) => (TableBlock.read keyword (lineOf toks) rest).map .table
  | none =>
    match afterKeyword? "ref" toks with
    | some (keyword, rest) => (ReferenceGroup.read keyword rest).map .references
    | none =>
      match afterSkippedKeyword? toks with
      | some (keyword, rest) => (Skipped.read keyword rest).map .skipped
      | none => unexpected .definition toks

/-! ## Definitions that break off -/

/-- The alias that a definition has declared although it breaks off later: that of a table whose
head could be read. -/
def aliasesBroken (toks : List Located) : Aliases :=
  match afterKeyword? "table" toks with
  | none => []
  | some (keyword, rest) =>
    match TableHead.read keyword (lineOf toks) rest with
    | .ok head _ => TableBlock.aliases head
    | .error _ _ => []

/-- The events of a definition that breaks off: a block is announced before it is skipped. -/
def eventsBroken (toks : List Located) : List Event :=
  if (afterKeyword? "table" toks).isSome || (afterKeyword? "ref" toks).isSome then []
  else (afterSkippedKeyword? toks).toList.map fun (keyword, _) => .skippingBlock keyword

theorem spells_of_afterSkippedKeyword? {keyword : String} {toks rest : List Located}
    (h : afterSkippedKeyword? toks = some (keyword, rest)) :
    Spells toks [.word keyword] rest := by
  obtain ⟨_, _, hk⟩ := List.exists_of_findSome?_eq_some h
  exact spells_of_afterKeyword? hk

theorem exists_of_spells_singleton {toks rest : List Located} {k : Token}
    (h : Spells toks [k] rest) : ∃ t, toks = t :: rest ∧ t.token = k := by
  obtain ⟨front, rfl, hf⟩ := h
  match front, hf with
  | [t], hf => exact ⟨t, rfl, by simpa using hf⟩

theorem spells_of_read {toks rest : List Located} {d : Definition}
    (h : read toks = .ok d rest) : Spells toks d.tokens rest := by
  unfold read at h
  repeat' split at h
  · obtain ⟨b, hb, rfl⟩ := Step.map_eq_ok_iff.1 h
    obtain ⟨t, rfl, ht⟩ := exists_of_spells_singleton (spells_of_afterKeyword? ‹_›)
    exact TableBlock.spells_of_read ht hb
  · obtain ⟨g, hg, rfl⟩ := Step.map_eq_ok_iff.1 h
    obtain ⟨t, rfl, ht⟩ := exists_of_spells_singleton (spells_of_afterKeyword? ‹_›)
    exact ReferenceGroup.spells_of_read ht hg
  · obtain ⟨s, hs, rfl⟩ := Step.map_eq_ok_iff.1 h
    obtain ⟨t, rfl, ht⟩ := exists_of_spells_singleton (spells_of_afterSkippedKeyword? ‹_›)
    exact Skipped.spells_of_read ht hs
  · cases h

theorem tokens_ne_nil (d : Definition) : d.tokens ≠ [] := by
  cases d <;> simp [tokens, TableBlock.tokens, ReferenceGroup.tokens, Skipped.tokens]

end Definition

end SchemaDiagram.Document
