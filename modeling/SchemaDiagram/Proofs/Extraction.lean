/-
Inline references and references of their own (`parse_extract`).

A reference in the settings of a column can be taken out and written behind the
table instead. Both ways add the same relationship at the same place of the
list, since the definition behind a table is the next one that adds any, and
what is left of the column has the same skeleton: a setting that is a reference
never makes a primary key. What has to be looked at is the grammar, because
settings of which nothing is left have to go together with their brackets: a
type and two brackets would be an array.
-/
import SchemaDiagram.Proofs.Concatenation
import SchemaDiagram.Proofs.InlineReferences
import SchemaDiagram.Proofs.Rewriting

namespace SchemaDiagram.Document

/-! ## Taking references out -/

/-- The settings that are no references; nothing, if there were only references. -/
def Settings.withoutReferences (ss : Settings) : Option Settings :=
  let kept := ss.items.filter fun s => !s.isReference
  if kept.isEmpty && !ss.items.isEmpty then none else some { ss with items := kept }

def ColumnLine.withoutReferences (c : ColumnLine) : ColumnLine :=
  { c with settings := c.settings.bind Settings.withoutReferences }

def Member.withoutReferences : Member → Member
  | .column line => .column line.withoutReferences
  | m => m

def TableBlock.withoutReferences (b : TableBlock) : TableBlock :=
  { b with members := b.members.map Member.withoutReferences }

/-- The references of a column as definitions of their own, each from this column of the table. -/
def ColumnLine.extracted (table : QualifiedName) (c : ColumnLine) : List Definition :=
  c.items.filterMap fun
    | .reference _ cardinality target =>
      some (.references ⟨"Ref", none, .single ⟨⟨table, c.name⟩, cardinality, target, none⟩⟩)
    | .plain _ => none

def TableBlock.extracted (b : TableBlock) : List Definition :=
  b.columnLines.flatMap (ColumnLine.extracted b.head.name)

/-- Definitions with the references of one table right behind it. -/
def extract (before : List Definition) (b : TableBlock) (after : List Definition) :
    List Definition :=
  before ++ .table b.withoutReferences :: (b.extracted ++ after)

/-! ## What is left of a table -/

namespace ColumnLine

theorem items_withoutReferences (c : ColumnLine) :
    c.withoutReferences.items = c.items.filter fun s => !s.isReference := by
  obtain ⟨name, type, settings⟩ := c
  cases settings with
  | none => rfl
  | some ss =>
    simp only [withoutReferences, Option.bind_some, Settings.withoutReferences]
    split
    · rename_i hnone
      simp only [Bool.and_eq_true, List.isEmpty_iff] at hnone
      exact hnone.1.symm
    · rfl

theorem relationships_withoutReferences (table : String) (c : ColumnLine) :
    c.withoutReferences.relationships table = [] := by
  rw [relationships, items_withoutReferences, List.filterMap_eq_nil_iff]
  intro s hs
  obtain ⟨-, hplain⟩ := List.mem_filter.1 hs
  cases s with
  | reference => cases hplain
  | plain => rfl

theorem skeleton_withoutReferences (c : ColumnLine) :
    c.withoutReferences.column.skeleton = c.column.skeleton := by
  refine skeleton_congr rfl rfl ?_
  rw [items_withoutReferences, List.any_filter]
  congr 1
  funext s
  cases s with
  | reference => simp [Setting.isReference, Setting.isKey_reference]
  | plain => simp [Setting.isReference]

theorem wellFormed_withoutReferences {c : ColumnLine} (h : c.WellFormed) :
    c.withoutReferences.WellFormed := by
  have hsettings : ∀ ss', c.withoutReferences.settings = some ss' →
      ∃ ss, c.settings = some ss ∧ ss'.items = ss.items.filter (fun s => !s.isReference) ∧
        ss'.trailingComma = ss.trailingComma ∧ (ss'.items = [] → ss.items = []) := by
    intro ss' hss'
    obtain ⟨ss, hss, hkept⟩ := Option.bind_eq_some_iff.1 hss'
    simp only [Settings.withoutReferences] at hkept
    split at hkept
    · cases hkept
    · rename_i hsome
      cases hkept
      refine ⟨ss, hss, rfl, rfl, fun hempty => ?_⟩
      have hkept : ss.items.filter (fun s => !s.isReference) = [] := hempty
      rw [hkept] at hsome
      simpa using hsome
  refine ⟨h.type, fun ss' hss' => ?_, fun harray hempty => ?_⟩
  · obtain ⟨ss, hss, hitems, hcomma, hnone⟩ := hsettings ss' hss'
    have hwell := h.settings ss hss
    refine ⟨fun s hs => ?_, fun hempty => ?_⟩
    · rw [hitems] at hs
      exact hwell.items s (List.mem_filter.1 hs).1
    · rw [hcomma, hwell.comma (hnone hempty)]
  · obtain ⟨⟨items, trailing⟩, hss, -, hcomma, hnone⟩ := hsettings _ hempty
    obtain rfl : items = [] := hnone rfl
    obtain rfl : false = trailing := hcomma
    exact h.array harray hss

theorem writable_withoutReferences {c : ColumnLine} (h : Writable c.tokens) :
    Writable c.withoutReferences.tokens := by
  rw [writable_tokens, items_withoutReferences]
  obtain ⟨hname, htype, hitems⟩ := c.writable_tokens.1 h
  exact ⟨hname, htype, fun s hs => hitems s (List.mem_filter.1 hs).1⟩

/-! ## What is put behind it -/

/-- A reference adds the same relationship in both places. -/
theorem relationships_extracted (table : QualifiedName) (c : ColumnLine) :
    (c.extracted table).flatMap Definition.relationships = c.relationships table.text := by
  rw [extracted, relationships]
  induction c.items with
  | nil => rfl
  | cons s items ih =>
    cases s with
    | reference keyword cardinality target =>
      simp only [List.filterMap_cons, List.flatMap_cons, ih]
      rfl
    | plain run => simpa only [List.filterMap_cons] using ih

/-- What is extracted are references and nothing else. -/
theorem exists_of_mem_extracted {table : QualifiedName} {c : ColumnLine} {d : Definition}
    (h : d ∈ c.extracted table) : ∃ keyword cardinality target,
      .reference keyword cardinality target ∈ c.items ∧
        d = .references ⟨"Ref", none, .single ⟨⟨table, c.name⟩, cardinality, target, none⟩⟩ := by
  obtain ⟨s, hs, hd⟩ := List.mem_filterMap.1 h
  cases s with
  | reference keyword cardinality target => exact ⟨keyword, _, _, hs, (Option.some.inj hd).symm⟩
  | plain => cases hd

theorem writable_extracted {table : QualifiedName} {c : ColumnLine} {d : Definition}
    (htable : Writable table.tokens) (hc : Writable c.tokens) (h : d ∈ c.extracted table) :
    Writable d.tokens := by
  obtain ⟨hname, -, hitems⟩ := c.writable_tokens.1 hc
  obtain ⟨keyword, cardinality, target, hmem, rfl⟩ := exists_of_mem_extracted h
  have htarget := hitems _ hmem
  have hkeyword : HasLexeme (.word "Ref") := ⟨_, isLexeme_word (by decide +kernel)⟩
  simp only [Setting.tokens, writable_cons] at htarget
  simp [Definition.tokens, ReferenceGroup.tokens, ReferenceGroup.nameTokens,
    ReferenceGroup.bodyTokens, Reference.tokens, Settings.optionalTokens, Endpoint.writable_tokens,
    hkeyword, htable, hname, (Endpoint.writable_tokens target).1 htarget.2.2.2]

end ColumnLine

namespace TableBlock

variable (b : TableBlock)

theorem columnLines_withoutReferences :
    b.withoutReferences.columnLines = b.columnLines.map ColumnLine.withoutReferences := by
  simp only [columnLines, withoutReferences, List.filterMap_map, List.map_filterMap]
  congr 1
  funext m
  cases m <;> rfl

theorem relationships_withoutReferences : b.withoutReferences.relationships = [] := by
  simp [relationships, columnLines_withoutReferences, List.flatMap_map,
    ColumnLine.relationships_withoutReferences]

theorem relationships_extracted :
    b.extracted.flatMap Definition.relationships = b.relationships := by
  rw [extracted, relationships, List.flatMap_assoc]
  simp only [ColumnLine.relationships_extracted]
  rfl

theorem skeleton_withoutReferences : b.withoutReferences.table.skeleton = b.table.skeleton :=
  skeleton_congr rfl b.columnLines_withoutReferences ColumnLine.skeleton_withoutReferences

/-- The table that is left has the columns it had, without the attributes that were references. -/
theorem table_withoutReferences : b.withoutReferences.table = ⟨b.name, b.columnLines.map fun c =>
    ⟨c.name.text, c.type.text, (c.items.filter fun s => !s.isReference).map Setting.text⟩⟩ := by
  have hcolumn (c : ColumnLine) : c.withoutReferences.column = ⟨c.name.text, c.type.text,
      (c.items.filter fun s => !s.isReference).map Setting.text⟩ := by
    rw [ColumnLine.column, ColumnLine.items_withoutReferences]
    rfl
  rw [table, columnLines_withoutReferences, List.map_map]
  congr 1
  exact List.map_congr_left fun c _ => hcolumn c

variable {b}

theorem wellFormed_withoutReferences (h : b.WellFormed) : b.withoutReferences.WellFormed := by
  refine ⟨h.head, h.settings, fun m hm => ?_⟩
  obtain ⟨m', hm', rfl⟩ := List.mem_map.1 hm
  have hwell := h.members m' hm'
  cases m' with
  | column line => exact ColumnLine.wellFormed_withoutReferences hwell
  | note | block => exact hwell

theorem writable_withoutReferences (h : Writable b.tokens) : Writable b.withoutReferences.tokens := by
  simp only [tokens, withoutReferences, writable_cons, writable_append, writable_flatMap] at h ⊢
  obtain ⟨hkeyword, hhead, hsettings, hopen, hmembers, hclose⟩ := h
  refine ⟨hkeyword, hhead, hsettings, hopen, fun m hm => ?_, hclose⟩
  obtain ⟨m', hm', rfl⟩ := List.mem_map.1 hm
  have hwritable := hmembers m' hm'
  cases m' with
  | column line => exact ColumnLine.writable_withoutReferences hwritable
  | note | block => exact hwritable

theorem writable_extracted (h : Writable b.tokens) : ∀ d ∈ b.extracted, Writable d.tokens := by
  intro d hd
  obtain ⟨c, hc, hd⟩ := List.mem_flatMap.1 hd
  simp only [tokens, TableHead.tokens, writable_cons, writable_append, writable_flatMap] at h
  obtain ⟨-, ⟨hname, -⟩, -, -, hmembers, -⟩ := h
  exact ColumnLine.writable_extracted hname (hmembers _ (exists_column_of_mem_columnLines hc)) hd

end TableBlock

/-! ## Whole texts -/

section

variable (before : List Definition) (b : TableBlock) (after : List Definition)

/-- What is extracted declares neither tables nor aliases. -/
theorem tableBlocks_extracted : tableBlocks b.extracted = [] := by
  rw [tableBlocks, List.filterMap_eq_nil_iff]
  intro d hd
  obtain ⟨c, -, hd⟩ := List.mem_flatMap.1 hd
  obtain ⟨-, -, -, -, rfl⟩ := ColumnLine.exists_of_mem_extracted hd
  rfl

theorem aliasesOf_extracted : aliasesOf b.extracted = [] := by
  rw [aliasesOf, List.flatMap_eq_nil_iff]
  intro d hd
  obtain ⟨c, -, hd⟩ := List.mem_flatMap.1 (List.mem_reverse.1 hd)
  obtain ⟨-, -, -, -, rfl⟩ := ColumnLine.exists_of_mem_extracted hd
  rfl

theorem tableBlocks_extract : tableBlocks (extract before b after) =
    tableBlocks before ++ b.withoutReferences :: tableBlocks after := by
  have hextracted : b.extracted.filterMap Definition.table? = [] := tableBlocks_extracted b
  simp [extract, tableBlocks, hextracted, Definition.table?]

theorem aliasesOf_extract :
    aliasesOf (extract before b after) = aliasesOf (before ++ .table b :: after) := by
  simp only [extract, aliasesOf_append, aliasesOf_cons, aliasesOf_extracted, List.append_nil]
  rfl

theorem relationships_extract : (extract before b after).flatMap Definition.relationships =
    (before ++ .table b :: after).flatMap Definition.relationships := by
  simp only [extract, List.flatMap_append, List.flatMap_cons, TableBlock.relationships_extracted]
  simp [Definition.relationships, TableBlock.relationships_withoutReferences]

variable {before b after}

theorem wellFormed_extract (h : ∀ d ∈ before ++ .table b :: after, d.WellFormed) :
    ∀ d ∈ extract before b after, d.WellFormed := by
  intro d hd
  simp only [extract, List.mem_append, List.mem_cons] at hd
  obtain hd | rfl | hd | hd := hd
  · exact h d (by simp [hd])
  · have hb : b.WellFormed := h (.table b) (by simp)
    exact TableBlock.wellFormed_withoutReferences hb
  · obtain ⟨c, -, hd⟩ := List.mem_flatMap.1 hd
    obtain ⟨keyword, cardinality, target, -, rfl⟩ := ColumnLine.exists_of_mem_extracted hd
    have hkeyword : Text.sameWord "Ref" "ref" = true := by decide
    refine ⟨hkeyword, fun r hr => ?_⟩
    rw [List.mem_singleton.1 hr]
    exact fun ss hss => by cases hss
  · exact h d (by simp [hd])

theorem writable_extract (h : Writable ((before ++ .table b :: after).flatMap Definition.tokens)) :
    Writable ((extract before b after).flatMap Definition.tokens) := by
  simp only [extract, writable_flatMap, List.forall_mem_append, List.forall_mem_cons] at h ⊢
  obtain ⟨hbefore, hb, hafter⟩ := h
  exact ⟨hbefore, TableBlock.writable_withoutReferences hb, TableBlock.writable_extracted hb, hafter⟩

end

/-- The tables of the definitions, the one in the middle apart. -/
theorem tables_schemaOf (before : List Definition) (b : TableBlock) (after : List Definition) :
    (schemaOf (before ++ .table b :: after)).tables =
      (tableBlocks before).map TableBlock.table ++ b.table ::
        (tableBlocks after).map TableBlock.table := by
  simp [schemaOf, tableBlocks, Definition.table?]

/-- **Inline references and references of their own agree.** The text in which the references of one
table stand behind it has the same relationships in the same order and the same tables, but for the
attributes that were references; and it is converted alike, with the same warnings. -/
theorem parse_extract {source : String} {schema : Schema} {before after : List Definition}
    {b : TableBlock} (hdocument : IsDocument source (before ++ .table b :: after))
    (hparse : parse source = .ok schema) :
    (∃ source', IsWritten source' (extract before b after)) ∧
      ∀ source', IsWritten source' (extract before b after) →
        ∃ schema', parse source' = .ok schema' ∧
          schema'.relationships = schema.relationships ∧
          (∃ ts ts', ts.length = (tableBlocks before).length ∧
            schema.tables = ts ++ b.table :: ts' ∧
            schema'.tables = ts ++ ⟨b.name, b.columnLines.map fun c => ⟨c.name.text, c.type.text,
              (c.items.filter fun s => !s.isReference).map Setting.text⟩⟩ :: ts') ∧
          ∀ c : Converter, c.convert source' = c.convert source ∧
            c.warnings source' = c.warnings source := by
  obtain ⟨-, rfl⟩ := (hdocument.parse_eq_ok_iff_admissible schema).1 hparse
  have htables : (schemaOf (extract before b after)).tables =
      (tableBlocks before).map TableBlock.table ++ b.withoutReferences.table ::
        (tableBlocks after).map TableBlock.table := by
    simp [schemaOf, tableBlocks_extract]
  have hrelationships : (schemaOf (extract before b after)).relationships =
      (schemaOf (before ++ .table b :: after)).relationships := by
    simp only [schemaOf, relationships_extract, aliasesOf_extract]
  have hskeleton : (schemaOf (extract before b after)).skeleton =
      (schemaOf (before ++ .table b :: after)).skeleton := by
    rw [Schema.skeleton, Schema.skeleton, htables, tables_schemaOf, hrelationships]
    simp [TableBlock.skeleton_withoutReferences]
  obtain ⟨hexists, hsame⟩ := parse_of_skeleton hparse (wellFormed_extract hdocument.wellFormed)
    (writable_extract hdocument.writable) hskeleton
  refine ⟨hexists, fun source' hwritten => ?_⟩
  obtain ⟨hparse', hconvert⟩ := hsame source' hwritten
  refine ⟨_, hparse', hrelationships, ⟨_, _, List.length_map _, tables_schemaOf before b after, ?_⟩,
    hconvert⟩
  rw [htables, TableBlock.table_withoutReferences]

/-- The reference in the column of `posts` is written behind the table. -/
theorem parse_extract_posts :
    ∃ schema, parse "Table posts \x7b user_id int [ref: > users.id, not null] \x7d" = .ok schema ∧
      ∀ c : Converter,
        c.convert "Table posts \x7b user_id int [not null] \x7d Ref: posts.user_id > users.id" =
          c.convert "Table posts \x7b user_id int [ref: > users.id, not null] \x7d" := by
  let posts : TableBlock := ⟨⟨"Table", 0, ⟨.bare "posts", []⟩, none⟩, none,
    [.column ⟨.bare "user_id", ⟨⟨.bare "int", []⟩, none, false⟩,
      some ⟨[.reference "ref" .manyToOne ⟨⟨.bare "users", []⟩, .bare "id"⟩,
        .plain [.word "not", .word "null"]], false⟩⟩]⟩
  have hdocument : IsDocument "Table posts \x7b user_id int [ref: > users.id, not null] \x7d"
      ([] ++ .table posts :: []) := isDocument_of_tokenize (by decide +kernel) (by decide +kernel)
  have hwritten : IsDocument
      "Table posts \x7b user_id int [not null] \x7d Ref: posts.user_id > users.id"
      (extract [] posts []) := isDocument_of_tokenize (by decide +kernel) (by decide +kernel)
  have hparse := (hdocument.parse_eq_ok_iff_admissible _).2
    ⟨⟨by decide +kernel, .inl (by decide +kernel)⟩, rfl⟩
  obtain ⟨schema', -, -, -, hsame⟩ := (parse_extract hdocument hparse).2 _ hwritten.isWritten
  exact ⟨_, hparse, fun c => (hsame c).1⟩

end SchemaDiagram.Document
