/-
Aliases are abbreviations (`parse_expand`).

Aliases are replaced when everything has been read, so it makes no difference
where an alias is declared and where it is used. Written out, the endpoints name
the tables that the replacement would have named. The one place where both ways
could differ is a table whose own name is an alias of another one: its inline
references start at a table that is not written anywhere, and the replacement
would rename it. Hence the condition that no alias is the name of a table.
-/
import SchemaDiagram.Proofs.InlineReferences
import SchemaDiagram.Proofs.Rewriting

namespace SchemaDiagram.Document

/-! ## Writing aliases out -/

/-- The name of the table that a name is an alias of, as it is written there. -/
def realName (ds : List Definition) (name : QualifiedName) : QualifiedName :=
  match lastWithAlias? ds name.text with
  | some b => b.head.name
  | none => name

section

variable (ds : List Definition)

def Endpoint.expand (e : Endpoint) : Endpoint := { e with table := realName ds e.table }

def Setting.expand : Setting → Setting
  | .reference keyword cardinality target => .reference keyword cardinality (target.expand ds)
  | .plain run => .plain run

def ColumnLine.expand (c : ColumnLine) : ColumnLine :=
  { c with settings := c.settings.map fun ss => { ss with items := ss.items.map (Setting.expand ds) } }

def Member.expand : Member → Member
  | .column line => .column (line.expand ds)
  | m => m

/-- A table without its alias, and with the aliases of others written out in its columns. -/
def TableBlock.expand (b : TableBlock) : TableBlock :=
  { b with head := { b.head with shortName := none }, members := b.members.map (Member.expand ds) }

def Reference.expand (r : Reference) : Reference :=
  { r with source := r.source.expand ds, target := r.target.expand ds }

def ReferenceGroup.expand (g : ReferenceGroup) : ReferenceGroup :=
  { g with body :=
      match g.body with
      | .single r => .single (r.expand ds)
      | .block rs => .block (rs.map (Reference.expand ds)) }

def Definition.expand : Definition → Definition
  | .table b => .table (b.expand ds)
  | .references g => .references (g.expand ds)
  | .skipped s => .skipped s

/-- Definitions without aliases. -/
def expandAll : List Definition := ds.map (Definition.expand ds)

end

/-! ## What is written out means the same -/

section

variable {ds : List Definition}

theorem text_realName (name : QualifiedName) :
    (realName ds name).text = (aliasesOf ds).resolve name.text := by
  rw [realName, Aliases.resolve, lookup_aliasesOf]
  cases lastWithAlias? ds name.text <;> rfl

/-- The ends of a written reference are those that the aliases are replaced to. -/
theorem Reference.relationship_expand (r : Reference) :
    (r.expand ds).relationship = (aliasesOf ds).resolveEnds r.relationship := by
  simp only [relationship, expand, Endpoint.expand, text_realName, Aliases.resolveEnds]

theorem ReferenceGroup.references_expand (g : ReferenceGroup) :
    (g.expand ds).references = g.references.map (Reference.expand ds) := by
  obtain ⟨keyword, name, body⟩ := g
  cases body <;> rfl

namespace ColumnLine

theorem items_expand (c : ColumnLine) : (c.expand ds).items = c.items.map (Setting.expand ds) := by
  obtain ⟨name, type, settings⟩ := c
  cases settings <;> rfl

/-- The table at the start of an inline reference is not written, so its name must not be an alias. -/
theorem relationships_expand (c : ColumnLine) {table : String}
    (htable : (aliasesOf ds).resolve table = table) : (c.expand ds).relationships table =
      (c.relationships table).map (aliasesOf ds).resolveEnds := by
  rw [relationships, relationships, items_expand, List.filterMap_map, List.map_filterMap]
  congr 1
  funext s
  cases s with
  | reference keyword cardinality target =>
    simp only [Function.comp, Setting.expand, Endpoint.expand, text_realName, Option.map_some,
      Aliases.resolveEnds, htable]
    rfl
  | plain run => rfl

theorem skeleton_expand (c : ColumnLine) : (c.expand ds).column.skeleton = c.column.skeleton := by
  refine skeleton_congr rfl rfl ?_
  rw [items_expand, List.any_map]
  congr 1
  funext s
  cases s with
  | reference => simp [Setting.expand, Setting.isKey_reference]
  | plain => rfl

theorem wellFormed_expand {c : ColumnLine} (h : c.WellFormed) : (c.expand ds).WellFormed := by
  obtain ⟨name, type, settings⟩ := c
  cases settings with
  | none => exact h
  | some ss =>
    have hwell := h.settings ss rfl
    refine ⟨h.type, fun ss' hss' => ?_, fun harray hempty => ?_⟩
    · cases hss'
      refine ⟨fun s hs => ?_, fun hempty => hwell.comma (List.map_eq_nil_iff.1 hempty)⟩
      obtain ⟨s', hs', rfl⟩ := List.mem_map.1 hs
      have hsetting := hwell.items s' hs'
      cases s' <;> exact hsetting
    · obtain ⟨items, trailing⟩ := ss
      simp only [expand, Option.map_some, Option.some.injEq, Settings.mk.injEq,
        List.map_eq_nil_iff] at hempty
      obtain ⟨rfl, rfl⟩ := hempty
      exact h.array harray rfl

end ColumnLine

namespace TableBlock

theorem columnLines_expand (b : TableBlock) :
    (b.expand ds).columnLines = b.columnLines.map (ColumnLine.expand ds) := by
  simp only [columnLines, expand, List.filterMap_map, List.map_filterMap]
  congr 1
  funext m
  cases m <;> rfl

theorem relationships_expand {b : TableBlock} (h : (aliasesOf ds).resolve b.name = b.name) :
    (b.expand ds).relationships = b.relationships.map (aliasesOf ds).resolveEnds := by
  rw [relationships, relationships, columnLines_expand, List.flatMap_map, List.map_flatMap]
  congr 1
  funext c
  exact c.relationships_expand h

theorem skeleton_expand (b : TableBlock) : (b.expand ds).table.skeleton = b.table.skeleton :=
  skeleton_congr rfl b.columnLines_expand ColumnLine.skeleton_expand

theorem wellFormed_expand {b : TableBlock} (h : b.WellFormed) : (b.expand ds).WellFormed := by
  refine ⟨⟨h.head.keyword, fun word name hshort => by cases hshort⟩, h.settings, fun m hm => ?_⟩
  obtain ⟨m', hm', rfl⟩ := List.mem_map.1 hm
  have hwell := h.members m' hm'
  cases m' with
  | column line => exact ColumnLine.wellFormed_expand hwell
  | note | block => exact hwell

end TableBlock

namespace Definition

theorem wellFormed_expand {d : Definition} (h : d.WellFormed) : (d.expand ds).WellFormed := by
  cases d with
  | table b => exact TableBlock.wellFormed_expand h
  | references g =>
    refine ⟨h.keyword, fun r hr => ?_⟩
    rw [ReferenceGroup.references_expand] at hr
    obtain ⟨r', hr', rfl⟩ := List.mem_map.1 hr
    exact h.references r' hr'
  | skipped s => exact h

theorem aliases_expand (d : Definition) : (d.expand ds).aliases = [] := by
  cases d <;> rfl

theorem relationships_expand {d : Definition}
    (h : ∀ b, d = .table b → (aliasesOf ds).resolve b.name = b.name) :
    (d.expand ds).relationships = d.relationships.map (aliasesOf ds).resolveEnds := by
  cases d with
  | table b => exact TableBlock.relationships_expand (h b rfl)
  | references g =>
    simp only [expand, relationships, ReferenceGroup.relationships,
      ReferenceGroup.references_expand, List.map_map]
    exact List.map_congr_left fun r _ => r.relationship_expand
  | skipped s => rfl

end Definition

/-! ## What is written out can be written down -/

theorem exists_mem_of_lastWithAlias? {name : String} {b : TableBlock}
    (h : lastWithAlias? ds name = some b) : .table b ∈ ds ∧ b.alias? = some name := by
  have hmem := List.mem_of_find?_eq_some h
  have hfound := List.find?_some h
  obtain ⟨d, hd, htable⟩ := List.mem_filterMap.1 (List.mem_reverse.1 hmem)
  cases d with
  | table b' =>
    cases htable
    exact ⟨hd, by simpa using hfound⟩
  | references | skipped => cases htable

section

variable (hds : Writable (ds.flatMap Definition.tokens))
include hds

theorem writable_realName {name : QualifiedName} (h : Writable name.tokens) :
    Writable (realName ds name).tokens := by
  rw [realName]
  cases hlast : lastWithAlias? ds name.text with
  | none => exact h
  | some b =>
    have hb := writable_flatMap.1 hds _ (exists_mem_of_lastWithAlias? hlast).1
    simp only [Definition.tokens, TableBlock.tokens, TableHead.tokens, writable_cons,
      writable_append] at hb
    exact hb.2.1.1

theorem Endpoint.writable_expand {e : Endpoint} (h : Writable e.tokens) :
    Writable (e.expand ds).tokens := by
  rw [writable_tokens] at h ⊢
  exact ⟨writable_realName hds h.1, h.2⟩

theorem ColumnLine.writable_expand {c : ColumnLine} (h : Writable c.tokens) :
    Writable (c.expand ds).tokens := by
  rw [writable_tokens, items_expand]
  obtain ⟨hname, htype, hitems⟩ := c.writable_tokens.1 h
  refine ⟨hname, htype, fun s hs => ?_⟩
  obtain ⟨s', hs', rfl⟩ := List.mem_map.1 hs
  have hsetting := hitems s' hs'
  cases s' with
  | reference keyword cardinality target =>
    simp only [Setting.expand, Setting.tokens, writable_cons] at hsetting ⊢
    exact ⟨hsetting.1, hsetting.2.1, hsetting.2.2.1, Endpoint.writable_expand hds hsetting.2.2.2⟩
  | plain run => exact hsetting

theorem TableBlock.writable_expand {b : TableBlock} (h : Writable b.tokens) :
    Writable (b.expand ds).tokens := by
  simp only [tokens, expand, TableHead.tokens, writable_cons, writable_append, writable_flatMap] at h ⊢
  obtain ⟨hkeyword, ⟨hname, -⟩, hsettings, hopen, hmembers, hclose⟩ := h
  refine ⟨hkeyword, ⟨hname, writable_nil⟩, hsettings, hopen, fun m hm => ?_, hclose⟩
  obtain ⟨m', hm', rfl⟩ := List.mem_map.1 hm
  have hwritable := hmembers m' hm'
  cases m' with
  | column line => exact ColumnLine.writable_expand hds hwritable
  | note | block => exact hwritable

theorem Reference.writable_expand {r : Reference} (h : Writable r.tokens) :
    Writable (r.expand ds).tokens := by
  simp only [tokens, expand, writable_cons, writable_append] at h ⊢
  exact ⟨Endpoint.writable_expand hds h.1, h.2.1, Endpoint.writable_expand hds h.2.2.1, h.2.2.2⟩

theorem Definition.writable_expand {d : Definition} (h : Writable d.tokens) :
    Writable (d.expand ds).tokens := by
  cases d with
  | table b => exact TableBlock.writable_expand hds h
  | references g =>
    obtain ⟨keyword, name, body⟩ := g
    simp only [tokens, expand, ReferenceGroup.tokens, ReferenceGroup.expand, writable_cons,
      writable_append] at h ⊢
    refine ⟨h.1, h.2.1, ?_⟩
    cases body with
    | single r =>
      simp only [ReferenceGroup.bodyTokens, writable_cons] at h ⊢
      exact ⟨h.2.2.1, Reference.writable_expand hds h.2.2.2⟩
    | block rs =>
      simp only [ReferenceGroup.bodyTokens, writable_cons, writable_append, writable_flatMap] at h ⊢
      refine ⟨h.2.2.1, fun r hr => ?_, h.2.2.2.2⟩
      obtain ⟨r', hr', rfl⟩ := List.mem_map.1 hr
      exact Reference.writable_expand hds (h.2.2.2.1 r' hr')
  | skipped s => exact h

theorem writable_expandAll : Writable ((expandAll ds).flatMap Definition.tokens) := by
  rw [writable_flatMap]
  intro d hd
  obtain ⟨d', hd', rfl⟩ := List.mem_map.1 hd
  exact Definition.writable_expand hds (writable_flatMap.1 hds d' hd')

end

/-! ## Whole texts -/

theorem tableBlocks_expandAll :
    tableBlocks (expandAll ds) = (tableBlocks ds).map (TableBlock.expand ds) := by
  simp only [tableBlocks, expandAll, List.filterMap_map, List.map_filterMap]
  congr 1
  funext d
  cases d <;> rfl

theorem aliasesOf_expandAll : aliasesOf (expandAll ds) = [] := by
  rw [aliasesOf, List.flatMap_eq_nil_iff]
  intro d hd
  obtain ⟨d', -, rfl⟩ := List.mem_map.1 (List.mem_reverse.1 hd)
  exact d'.aliases_expand

/-- With no aliases left, the relationships stand as they are written. -/
theorem relationships_schemaOf_expandAll
    (h : ∀ b ∈ tableBlocks ds, (aliasesOf ds).resolve b.name = b.name) :
    (schemaOf (expandAll ds)).relationships = (schemaOf ds).relationships := by
  have hself : (aliasesOf (expandAll ds)).resolveEnds = id := by
    rw [aliasesOf_expandAll]
    rfl
  have heach : (ds.map fun d => (d.expand ds).relationships) =
      ds.map fun d => d.relationships.map (aliasesOf ds).resolveEnds := by
    refine List.map_congr_left fun d hd => Definition.relationships_expand fun b hb => ?_
    exact h b (List.mem_filterMap.2 ⟨d, hd, hb ▸ rfl⟩)
  rw [schemaOf, schemaOf, hself, List.map_id, expandAll, List.flatMap_map, List.flatMap_def, heach,
    List.map_flatMap, List.flatMap_def]

end

/-- **Aliases are abbreviations.** If no alias is the name of a table, the text in which all aliases are
written out and none is declared has the same relationships and the same tables, but for the texts
of the settings of their columns; and it is converted alike, with the same warnings. -/
theorem parse_expand {source : String} {schema : Schema} {ds : List Definition}
    (hdocument : IsDocument source ds) (hparse : parse source = .ok schema)
    (halias : ∀ b ∈ tableBlocks ds, ∀ t ∈ tableBlocks ds, b.alias? ≠ some t.name) :
    (∃ source', IsWritten source' (expandAll ds)) ∧
      ∀ source', IsWritten source' (expandAll ds) →
        ∃ schema', parse source' = .ok schema' ∧
          schema'.relationships = schema.relationships ∧
          (schema'.tables.map fun t => (t.name, t.columns.map fun c => (c.name, c.type))) =
            (schema.tables.map fun t => (t.name, t.columns.map fun c => (c.name, c.type))) ∧
          ∀ c : Converter, c.convert source' = c.convert source ∧
            c.warnings source' = c.warnings source := by
  obtain ⟨-, rfl⟩ := (hdocument.parse_eq_ok_iff_admissible schema).1 hparse
  have hown : ∀ b ∈ tableBlocks ds, (aliasesOf ds).resolve b.name = b.name := by
    intro b hb
    rw [resolve_eq_self_iff]
    intro t ht
    obtain ⟨hmem, hname⟩ := exists_mem_of_lastWithAlias? ht
    exact absurd hname (halias t (List.mem_filterMap.2 ⟨_, hmem, rfl⟩) b hb)
  have hwell : ∀ d ∈ expandAll ds, d.WellFormed := by
    intro d hd
    obtain ⟨d', hd', rfl⟩ := List.mem_map.1 hd
    exact Definition.wellFormed_expand (hdocument.wellFormed d' hd')
  have hrelationships := relationships_schemaOf_expandAll hown
  have htables : (schemaOf (expandAll ds)).tables.map Table.skeleton =
      (schemaOf ds).tables.map Table.skeleton := by
    simp only [schemaOf, tableBlocks_expandAll, List.map_map]
    exact List.map_congr_left fun b _ => b.skeleton_expand
  have hskeleton : (schemaOf (expandAll ds)).skeleton = (schemaOf ds).skeleton := by
    rw [Schema.skeleton, Schema.skeleton, htables, hrelationships]
  obtain ⟨hexists, hsame⟩ := parse_of_skeleton hparse hwell
    (writable_expandAll hdocument.writable) hskeleton
  refine ⟨hexists, fun source' hwritten => ?_⟩
  obtain ⟨hparse', hconvert⟩ := hsame source' hwritten
  refine ⟨_, hparse', hrelationships, ?_, hconvert⟩
  have hshown (ts : List Table) : (ts.map fun t => (t.name, t.columns.map fun c => (c.name, c.type))) =
      ((ts.map Table.skeleton).map fun t => (t.name, t.columns.map fun c => (c.name, c.type))) := by
    simp [Table.skeleton, Column.skeleton]
  rw [hshown, htables, ← hshown]

/-- The alias of `users` is used in front of its declaration and inside the table that declares it. -/
theorem parse_expand_users :
    ∃ schema, parse ("Ref: posts.user_id > u.id\n" ++
        "Table users as u \x7b id int [pk] parent int [ref: > u.id] \x7d") = .ok schema ∧
      ∀ c : Converter,
        c.convert ("Ref: posts.user_id > users.id\n" ++
            "Table users \x7b id int [pk] parent int [ref: > users.id] \x7d") =
          c.convert ("Ref: posts.user_id > u.id\n" ++
            "Table users as u \x7b id int [pk] parent int [ref: > u.id] \x7d") := by
  let users : TableBlock := ⟨⟨"Table", 0, ⟨.bare "users", []⟩, some ("as", .bare "u")⟩, none,
    [.column ⟨.bare "id", ⟨⟨.bare "int", []⟩, none, false⟩, some ⟨[.plain [.word "pk"]], false⟩⟩,
      .column ⟨.bare "parent", ⟨⟨.bare "int", []⟩, none, false⟩,
        some ⟨[.reference "ref" .manyToOne ⟨⟨.bare "u", []⟩, .bare "id"⟩], false⟩⟩]⟩
  let ds : List Definition := [.references ⟨"Ref", none, .single ⟨⟨⟨.bare "posts", []⟩,
    .bare "user_id"⟩, .manyToOne, ⟨⟨.bare "u", []⟩, .bare "id"⟩, none⟩⟩, .table users]
  have hdocument : IsDocument ("Ref: posts.user_id > u.id\n" ++
      "Table users as u \x7b id int [pk] parent int [ref: > u.id] \x7d") ds :=
    isDocument_of_tokenize (by decide +kernel) (by decide +kernel)
  have hwritten : IsDocument ("Ref: posts.user_id > users.id\n" ++
      "Table users \x7b id int [pk] parent int [ref: > users.id] \x7d") (expandAll ds) :=
    isDocument_of_tokenize (by decide +kernel) (by decide +kernel)
  have hparse := (hdocument.parse_eq_ok_iff_admissible _).2
    ⟨⟨by decide +kernel, .inl (by decide +kernel)⟩, rfl⟩
  have halias : ∀ b ∈ tableBlocks ds, ∀ t ∈ tableBlocks ds, b.alias? ≠ some t.name := by
    decide +kernel
  obtain ⟨schema', -, -, -, hsame⟩ := (parse_expand hdocument hparse halias).2 _ hwritten.isWritten
  exact ⟨_, hparse, fun c => (hsame c).1⟩

end SchemaDiagram.Document
