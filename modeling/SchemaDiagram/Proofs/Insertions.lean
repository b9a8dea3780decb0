/-
Constructs without meaning may stand anywhere (`parse_insert`).

A definition that is skipped can be put between any two definitions, and a note
or a block of indexes between any two members of a table. In the grammar this is
plain: what is well-formed stays so, and what definitions mean does not look at
these constructs. Nothing else is needed of the reader, since by exactness it
reads whatever the grammar derives; how it finds the brace that closes a skipped
block, and where the phrases around it end, was settled there.
-/
import SchemaDiagram.Proofs.Openings
import SchemaDiagram.Proofs.Rewriting
import SchemaDiagram.Proofs.TokenTexts

namespace SchemaDiagram.Document

/-- A construct and the place where it is put. -/
inductive Insertion
  /-- A skipped definition, between two definitions or at an end. -/
  | definition (before : List Definition) (s : Skipped) (after : List Definition)
  /-- A member of a table, between two members or at an end. -/
  | member (before : List Definition) (head : TableHead) (settings : Option Settings)
      (above : List Member) (m : Member) (below : List Member) (after : List Definition)

namespace Insertion

/-- The definitions before the construct is inserted. -/
def without : Insertion → List Definition
  | definition before _ after => before ++ after
  | member before head settings above _ below after =>
    before ++ .table ⟨head, settings, above ++ below⟩ :: after

/-- The definitions with the construct. -/
def result : Insertion → List Definition
  | definition before s after => before ++ .skipped s :: after
  | member before head settings above m below after =>
    before ++ .table ⟨head, settings, above ++ m :: below⟩ :: after

/-- The tokens in front of the place. -/
def front : Insertion → List Token
  | definition before _ _ => before.flatMap Definition.tokens
  | member before head settings above _ _ _ =>
    before.flatMap Definition.tokens ++
      (Opening.bodyFront head settings ++ above.flatMap Member.tokens)

def inserted : Insertion → List Token
  | definition _ s _ => s.tokens
  | member _ _ _ _ m _ _ => m.tokens

/-- The tokens behind the place. -/
def back : Insertion → List Token
  | definition _ _ after => after.flatMap Definition.tokens
  | member _ _ _ _ _ below after =>
    below.flatMap Member.tokens ++ .mark .rightBrace :: after.flatMap Definition.tokens

/-- What is inserted is well-formed and declares no column. -/
def Inert : Insertion → Prop
  | definition _ s _ => s.WellFormed
  | member _ _ _ _ m _ _ => m.WellFormed ∧ m.column? = none

variable (i : Insertion)

theorem tokens_without : i.without.flatMap Definition.tokens = i.front ++ i.back := by
  cases i <;>
    simp [without, front, back, Definition.tokens, TableBlock.tokens, Opening.bodyFront]

theorem tokens_result :
    i.result.flatMap Definition.tokens = i.front ++ (i.inserted ++ i.back) := by
  cases i <;>
    simp [result, front, inserted, back, Definition.tokens, TableBlock.tokens, Opening.bodyFront]

variable {i}

theorem wellFormed_result (hinert : i.Inert) (h : ∀ d ∈ i.without, d.WellFormed) :
    ∀ d ∈ i.result, d.WellFormed := by
  cases i with
  | definition before s after =>
    simp only [without, result, List.forall_mem_append, List.forall_mem_cons] at h ⊢
    exact ⟨h.1, hinert, h.2⟩
  | member before head settings above m below after =>
    simp only [without, result, List.forall_mem_append, List.forall_mem_cons] at h ⊢
    obtain ⟨hbefore, htable, hafter⟩ := h
    refine ⟨hbefore, ⟨htable.head, htable.settings, ?_⟩, hafter⟩
    obtain ⟨habove, hbelow⟩ := List.forall_mem_append.1 htable.members
    exact List.forall_mem_append.2 ⟨habove, List.forall_mem_cons.2 ⟨hinert.1, hbelow⟩⟩

/-- What is inserted means nothing. -/
theorem schemaOf_result (hinert : i.Inert) : schemaOf i.result = schemaOf i.without := by
  cases i with
  | definition before s after =>
    simp [schemaOf, result, without, tableBlocks, aliasesOf, Definition.table?,
      Definition.relationships, Definition.aliases, List.filterMap_cons]
  | member before head settings above m below after =>
    have hcolumns : TableBlock.columnLines ⟨head, settings, above ++ m :: below⟩ =
        TableBlock.columnLines ⟨head, settings, above ++ below⟩ := by
      simp [TableBlock.columnLines, hinert.2]
    simp [schemaOf, result, without, tableBlocks, aliasesOf, Definition.table?,
      Definition.relationships, Definition.aliases, TableBlock.table, TableBlock.relationships,
      TableBlock.name, hcolumns]

end Insertion

/-- Documents that mean the same are accepted alike. -/
theorem IsDocument.parse_of_schemaOf_eq {source source' : String} {schema : Schema}
    {ds ds' : List Definition} (hdocument : IsDocument source ds)
    (hdocument' : IsDocument source' ds') (hmeaning : schemaOf ds' = schemaOf ds)
    (hparse : parse source = .ok schema) : parse source' = .ok schema := by
  obtain ⟨⟨hnames, hnonempty⟩, rfl⟩ := (hdocument.parse_eq_ok_iff_admissible schema).1 hparse
  rw [← names_schemaOf, ← hmeaning, names_schemaOf] at hnames
  rw [← hmeaning] at hnonempty
  exact (hdocument'.parse_eq_ok_iff_admissible _).2 ⟨⟨hnames, hnonempty⟩, hmeaning.symm⟩

/-- **Constructs without meaning contribute nothing, wherever they stand.** A text that is accepted can
be taken apart at any place between two definitions or between two members of a table; and with a
skipped definition there, or a note or a block of indexes, it is accepted with the same schema,
whatever layout the construct is set in. -/
theorem parse_insert {source : String} {schema : Schema} (hparse : parse source = .ok schema) :
    (∃ ds, IsDocument source ds) ∧
      ∀ i : Insertion, IsDocument source i.without → i.Inert →
        (∃ front back, source = front ++ back ∧ HasTokens front i.front ∧ HasTokens back i.back) ∧
        (∀ front back text, HasTokens front i.front → HasTokens back i.back →
          HasTokens text i.inserted →
            parse (front ++ "\n" ++ text ++ "\n" ++ back) = .ok schema) ∧
        ∀ source', HasTokens source' (i.front ++ (i.inserted ++ i.back)) →
          parse source' = .ok schema := by
  refine ⟨exists_isDocument_of_parse hparse, fun i hdocument hinert => ?_⟩
  have hwell := Insertion.wellFormed_result hinert hdocument.wellFormed
  have hsame (source' : String) (h : HasTokens source' (i.front ++ (i.inserted ++ i.back))) :
      parse source' = .ok schema := by
    rw [← i.tokens_result] at h
    have hwritten : IsWritten source' i.result := h
    exact hdocument.parse_of_schemaOf_eq (hwritten.isDocument hwell)
      (Insertion.schemaOf_result hinert) hparse
  refine ⟨?_, fun front back text hfront hback htext => ?_, hsame⟩
  · have htokens : HasTokens source (i.without.flatMap Definition.tokens) := hdocument.isWritten
    rw [i.tokens_without] at htokens
    exact htokens.exists_split
  · have hall := (hfront.append_newline htext).append_newline hback
    rw [List.append_assoc] at hall
    exact hsame _ hall

/-- An enum in front of a table, and indexes behind its last column; the blocks hold definitions,
braces and brackets that close nothing. -/
theorem parse_insert_oddBlocks : ∃ schema,
    parse "Table t \x7b a int \x7d" = .ok schema ∧
      parse ("" ++ "\n" ++ "Enum \x7d Table \x7b Table t \x7b a \x7d ] : \x7d" ++ "\n" ++
        "Table t \x7b a int \x7d") = .ok schema ∧
      parse ("Table t \x7b a int" ++ "\n" ++ "Indexes \x7b (a) [pk] \x7b ref: < \x7d \x7d" ++
        "\n" ++ "\x7d") = .ok schema := by
  let head : TableHead := ⟨"Table", 0, ⟨.bare "t", []⟩, none⟩
  let column : Member := .column ⟨.bare "a", ⟨⟨.bare "int", []⟩, none, false⟩, none⟩
  let enum : Skipped := ⟨"Enum", [.mark .rightBrace, .word "Table"], .block [.word "Table", .word "t",
    .mark .leftBrace, .word "a", .mark .rightBrace, .mark .rightBracket, .mark .colon]⟩
  let indexes : Member := .block "Indexes" [.mark .leftParen, .word "a", .mark .rightParen,
    .mark .leftBracket, .word "pk", .mark .rightBracket, .mark .leftBrace, .word "ref", .mark .colon,
    .mark .less, .mark .rightBrace]
  have hdocument : IsDocument "Table t \x7b a int \x7d" [.table ⟨head, none, [column]⟩] :=
    isDocument_of_tokenize (by decide +kernel) (by decide +kernel)
  have hparse := (hdocument.parse_eq_ok_iff_admissible _).2
    ⟨⟨by decide +kernel, .inl (by decide +kernel)⟩, rfl⟩
  have henum : enum.WellFormed := by
    have hread : Definition.read ((Definition.skipped enum).tokens.map (⟨·, 0⟩)) =
      .ok (.skipped enum) [] := by decide +kernel
    exact Definition.wellFormed_of_read hread
  have hindexes : indexes.WellFormed := by
    have hread : Member.read (indexes.tokens.map (⟨·, 0⟩)) = .ok indexes [] := by decide +kernel
    exact Member.wellFormed_of_read hread
  have hinsert := (parse_insert hparse).2
  obtain ⟨-, hfirst, -⟩ :=
    hinsert (.definition [] enum [.table ⟨head, none, [column]⟩]) hdocument henum
  obtain ⟨-, hlast, -⟩ :=
    hinsert (.member [] head none [column] indexes [] []) hdocument ⟨hindexes, rfl⟩
  refine ⟨_, hparse, hfirst _ _ _ ?_ ?_ ?_, hlast _ _ _ ?_ ?_ ?_⟩
  all_goals exact hasTokens_of_tokenize (by decide +kernel)

end SchemaDiagram.Document
