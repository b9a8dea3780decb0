/-
Tables as a document writes them: a head with name and alias, settings that are
read and dropped, and a body of columns, notes and indexes. Only the columns
carry anything. A word such as `note` or `indexes` is the keyword of a member
only directly before its mark; otherwise it names a column.
-/
import SchemaDiagram.Document.Block
import SchemaDiagram.Document.Setting
import SchemaDiagram.Document.TypeName

namespace SchemaDiagram.Document

/-! ## Columns -/

structure ColumnLine where
  name : Name
  type : TypeName
  settings : Option Settings
  deriving DecidableEq, Repr

namespace ColumnLine

def tokens (c : ColumnLine) : List Token :=
  c.name.token :: (c.type.tokens ++ Settings.optionalTokens c.settings)

def items (c : ColumnLine) : List Setting :=
  match c.settings with
  | none => []
  | some ss => ss.items

/-- The column that the line declares. -/
def column (c : ColumnLine) : Column where
  name := c.name.text
  type := c.type.text
  attributes := c.items.map Setting.text

/-- The references in the settings of a column, each from this column of this table. -/
def relationships (table : String) (c : ColumnLine) : List Relationship :=
  c.items.filterMap fun
    | .reference _ cardinality target =>
      some ⟨table, c.name.text, target.table.text, target.field.text, cardinality⟩
    | .plain _ => none

def read (toks : List Located) : Step ColumnLine :=
  (Name.read .columnName toks).bind fun name rest =>
    (TypeName.read rest).bind fun type rest =>
      (Settings.readOptional rest).map fun settings => ⟨name, type, settings⟩

theorem spells_of_read {toks rest : List Located} {c : ColumnLine}
    (h : read toks = .ok c rest) : Spells toks c.tokens rest := by
  obtain ⟨name, r, hn, h⟩ := Step.bind_eq_ok_iff.1 h
  obtain ⟨type, r', ht, h⟩ := Step.bind_eq_ok_iff.1 h
  obtain ⟨ss, hs, rfl⟩ := Step.map_eq_ok_iff.1 h
  exact (Name.spells_of_read hn).append
    ((TypeName.spells_of_read ht).append (Settings.spells_of_readOptional hs))

end ColumnLine

/-! ## Members of a table -/

inductive Member
  | column (line : ColumnLine)
  | note (keyword text : String)
  /-- A block of indexes or of notes. -/
  | block (keyword : String) (body : List Token)
  deriving DecidableEq, Repr

namespace Member

def tokens : Member → List Token
  | .column line => line.tokens
  | .note keyword text => [.word keyword, .mark .colon, .string text]
  | .block keyword body =>
    .word keyword :: .mark .leftBrace :: (body ++ [.mark .rightBrace])

def column? : Member → Option ColumnLine
  | .column line => some line
  | _ => none

def read (toks : List Located) : Step Member :=
  match afterKeywordMark? "indexes" .leftBrace toks with
  | some (keyword, rest) => (Block.readBody 0 rest).map (.block keyword)
  | none =>
    match afterKeywordMark? "note" .colon toks with
    | some (keyword, rest) => (readNoteText rest).map (.note keyword)
    | none =>
      match afterKeywordMark? "note" .leftBrace toks with
      | some (keyword, rest) => (Block.readBody 0 rest).map (.block keyword)
      | none => (ColumnLine.read toks).map .column

theorem spells_of_read {toks rest : List Located} {m : Member} (h : read toks = .ok m rest) :
    Spells toks m.tokens rest := by
  unfold read at h
  repeat' split at h
  all_goals obtain ⟨a, ha, rfl⟩ := Step.map_eq_ok_iff.1 h
  · exact (spells_of_afterKeywordMark? ‹_›).append (Block.spells_of_readBody ha)
  · exact (spells_of_afterKeywordMark? ‹_›).append (spells_of_readNoteText ha)
  · exact (spells_of_afterKeywordMark? ‹_›).append (Block.spells_of_readBody ha)
  · exact ColumnLine.spells_of_read ha

theorem tokens_ne_nil (m : Member) : m.tokens ≠ [] := by
  cases m <;> simp [tokens, ColumnLine.tokens]

/-- Reads members up to the brace that closes the table. -/
def readAll (toks : List Located) : Step (List Member) :=
  match afterMark? .rightBrace toks with
  | some rest => .ok [] rest
  | none =>
    if atEnd toks then unexpected .tableClose toks
    else
      match _h : read toks with
      | .error cause rest => .error cause rest
      | .ok m rest => (readAll rest).map (m :: ·)
termination_by toks.length
decreasing_by exact (spells_of_read _h).length_lt (tokens_ne_nil _)

theorem spells_of_readAll {toks rest : List Located} {ms : List Member}
    (h : readAll toks = .ok ms rest) :
    Spells toks (ms.flatMap tokens ++ [.mark .rightBrace]) rest := by
  fun_induction readAll toks generalizing ms with
  | case1 toks r hr => cases h; exact spells_of_afterMark? hr
  | case2 => cases h
  | case3 => cases h
  | case4 toks _ _ m r hm ih =>
    obtain ⟨ms', h', rfl⟩ := Step.map_eq_ok_iff.1 h
    simpa using (spells_of_read hm).append (ih h')

end Member

/-! ## Tables -/

/-- The head of a table: its keyword and the line that stands on, its name, and its alias behind
the word `as`. -/
structure TableHead where
  keyword : String
  line : Nat
  name : QualifiedName
  shortName : Option (String × Name)
  deriving DecidableEq, Repr

namespace TableHead

def shortNameTokens : Option (String × Name) → List Token
  | none => []
  | some (word, name) => [.word word, name.token]

/-- The tokens behind the keyword. -/
def tokens (h : TableHead) : List Token := h.name.tokens ++ shortNameTokens h.shortName

def readShortName (toks : List Located) : Step (Option (String × Name)) :=
  match afterKeyword? "as" toks with
  | none => .ok none toks
  | some (word, rest) => (Name.read .tableAlias rest).map fun name => some (word, name)

/-- Reads the head of a table behind its keyword. -/
def read (keyword : String) (line : Nat) (toks : List Located) : Step TableHead :=
  (QualifiedName.read .tableName .tableName toks).bind fun name rest =>
    (readShortName rest).map fun short => ⟨keyword, line, name, short⟩

theorem spells_of_readShortName {toks rest : List Located} {short : Option (String × Name)}
    (h : readShortName toks = .ok short rest) : Spells toks (shortNameTokens short) rest := by
  unfold readShortName at h
  split at h
  · cases h; exact .nil
  · rename_i word r hw
    obtain ⟨name, hn, rfl⟩ := Step.map_eq_ok_iff.1 h
    exact (spells_of_afterKeyword? hw).append (Name.spells_of_read hn)

theorem spells_of_read {keyword : String} {line : Nat} {toks rest : List Located}
    {head : TableHead} (h : read keyword line toks = .ok head rest) :
    Spells toks head.tokens rest ∧ head.keyword = keyword ∧ head.line = line := by
  obtain ⟨name, r, hn, h⟩ := Step.bind_eq_ok_iff.1 h
  obtain ⟨short, ha, rfl⟩ := Step.map_eq_ok_iff.1 h
  exact ⟨(QualifiedName.spells_of_read hn).append (spells_of_readShortName ha), rfl, rfl⟩

end TableHead

structure TableBlock where
  head : TableHead
  settings : Option Settings
  members : List Member
  deriving DecidableEq, Repr

namespace TableBlock

def name (b : TableBlock) : String := b.head.name.text

def columnLines (b : TableBlock) : List ColumnLine := b.members.filterMap Member.column?

/-- The table that the block declares. -/
def table (b : TableBlock) : Table := ⟨b.name, b.columnLines.map ColumnLine.column⟩

/-- The references in the settings of its columns. -/
def relationships (b : TableBlock) : List Relationship :=
  b.columnLines.flatMap (ColumnLine.relationships b.name)

/-- The alias of the table, if it has one, with the name it stands for. -/
def aliases (head : TableHead) : List (String × String) :=
  head.shortName.toList.map fun (_, short) => (short.text, head.name.text)

def tokens (b : TableBlock) : List Token :=
  .word b.head.keyword ::
    (b.head.tokens ++ (Settings.optionalTokens b.settings ++
      .mark .leftBrace :: (b.members.flatMap Member.tokens ++ [.mark .rightBrace])))

/-- Reads what follows the head. -/
def readBody (head : TableHead) (toks : List Located) : Step TableBlock :=
  (Settings.readOptional toks).bind fun settings rest =>
    match afterMark? .leftBrace rest with
    | none => unexpected .tableOpen rest
    | some rest => (Member.readAll rest).map fun members => ⟨head, settings, members⟩

/-- Reads a table behind its keyword. -/
def read (keyword : String) (line : Nat) (toks : List Located) : Step TableBlock :=
  (TableHead.read keyword line toks).bind readBody

theorem spells_of_readBody {head : TableHead} {toks rest : List Located} {b : TableBlock}
    (h : readBody head toks = .ok b rest) :
    b.head = head ∧ Spells toks (Settings.optionalTokens b.settings ++
      .mark .leftBrace :: (b.members.flatMap Member.tokens ++ [.mark .rightBrace])) rest := by
  obtain ⟨ss, r, hs, h⟩ := Step.bind_eq_ok_iff.1 h
  split at h
  · cases h
  · rename_i r' hb
    obtain ⟨ms, hm, rfl⟩ := Step.map_eq_ok_iff.1 h
    exact ⟨rfl, (Settings.spells_of_readOptional hs).append
      ((spells_of_afterMark? hb).append (Member.spells_of_readAll hm))⟩

theorem spells_of_read {keyword : String} {t : Located} {line : Nat} {toks rest : List Located}
    {b : TableBlock} (ht : t.token = .word keyword) (h : read keyword line toks = .ok b rest) :
    Spells (t :: toks) b.tokens rest := by
  obtain ⟨head, r, hh, hb⟩ := Step.bind_eq_ok_iff.1 h
  obtain ⟨rfl, hbody⟩ := spells_of_readBody hb
  obtain ⟨hhead, rfl, rfl⟩ := TableHead.spells_of_read hh
  exact (hhead.append hbody).cons_of_eq ht

end TableBlock

end SchemaDiagram.Document
