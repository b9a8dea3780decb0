/-
Two texts, one behind the other (`parse_append`).

The tokens of the joined text are those of both (`Proofs.TextJoins`), and its
definitions those of both as well: no definition reaches over the end of one
that is complete. So the reader gathers the tables and relationships of the
first text and goes on with the second. What the texts share is only the names
of their tables, which are compared at every table, and the aliases, which are
replaced at the end; an alias of one text that the other refers to would change
what the other one means.
-/
import SchemaDiagram.Proofs.Failures
import SchemaDiagram.Proofs.TextJoins

namespace SchemaDiagram.Document

/-! ## Answers -/

/-- What a reader answers that has found the schema: nothing at all is no schema. -/
def answerOf (schema : Schema) : Except ParseError Schema :=
  if schema.tables.isEmpty && schema.relationships.isEmpty then .error .noDefinitions
  else .ok schema

theorem finish_eq_answerOf (aliases : Aliases) (schema : Schema) : finish aliases schema =
    answerOf { schema with relationships := schema.relationships.map aliases.resolveEnds } := by
  simp [finish, answerOf]

theorem eq_gather_of_extend {schema schema' : Schema} {d : Definition}
    (h : extend schema d = .ok schema') : schema' = gather schema [d] := by
  cases d with
  | table b =>
    simp only [extend] at h
    split at h <;> cases h
    simp [gather, Definition.relationships]
  | references g | skipped s =>
    cases h
    simp [gather]

/-- Definitions that are well-formed and whose tables are new are gathered, and the reader goes on
behind them. -/
theorem result_readFrom_append {schema : Schema} {aliases : Aliases} {toks mid : List Located}
    {ds : List Definition} (hnames : (gather schema ds).names.Nodup)
    (hds : ∀ d ∈ ds, d.WellFormed) (h : Spells toks (ds.flatMap Definition.tokens) mid)
    (hmid : Separate mid) :
    (readFrom schema aliases toks).result =
      (readFrom (gather schema ds) (aliasesOf ds ++ aliases) mid).result := by
  induction ds generalizing schema aliases toks with
  | nil =>
    rw [spells_nil_iff.1 h, gather_nil]
    rfl
  | cons d ds ih =>
    rw [List.flatMap_cons] at h
    obtain ⟨next, hd, h⟩ := spells_append_iff.1 h
    have hread := Definition.read_of_spells (hds d (by simp)) hd
      (separate_of_spells_definitions h hmid)
    have hstart : ¬ atEnd toks = true := by simp [Definition.atEnd_eq_false hd]
    rw [gather_cons] at hnames ⊢
    have hfirst : (gather schema [d]).names.Nodup := by
      rw [names_gather] at hnames
      exact (List.nodup_append.1 hnames).1
    have hschema : schema.names.Nodup := by
      rw [names_gather] at hfirst
      exact (List.nodup_append.1 hfirst).1
    have hextend : extend schema (d.atLine (lineOf toks)) = .ok (gather schema [d]) :=
      (extend_eq_ok_iff hschema).2 (by simpa [Definition.gather_atLine] using hfirst)
    rw [(readFrom_of_extend hstart hread hextend).1, ih hnames (fun d hd => hds d (by simp [hd])) h,
      Definition.aliases_atLine, aliasesOf_cons, List.append_assoc]

theorem gather_empty (ds : List Definition) : gather ⟨[], []⟩ ds =
    ⟨(tableBlocks ds).map TableBlock.table, ds.flatMap Definition.relationships⟩ := by
  simp [gather]

theorem IsDocument.parse_eq_answerOf {source : String} {ds : List Definition}
    (h : IsDocument source ds) (hnames : (tableNames ds).Nodup) :
    parse source = answerOf (schemaOf ds) := by
  obtain ⟨toks, htoks, hspells, hds⟩ := h
  obtain ⟨e, hspells, he⟩ := exists_spells_of_map hspells
  have hend : atEnd [e] = true := by simp [atEnd, he]
  have hgather : (gather ⟨[], []⟩ ds).names.Nodup := by
    rw [names_gather]
    simpa [Schema.names] using hnames
  rw [parse_of_tokenize htoks, result_readFrom_append hgather hds hspells (.of_atEnd hend),
    (readFrom_of_atEnd hend).1, finish_eq_answerOf, gather_empty, List.append_nil]
  rfl

/-- A reader that finds nothing has read definitions that declare nothing. -/
theorem exists_spells_of_noDefinitions {schema : Schema} {aliases : Aliases} {toks : List Located}
    (h : (readFrom schema aliases toks).result = .error .noDefinitions) :
    ∃ (ds : List Definition) (rest : List Located),
      Spells toks (ds.flatMap Definition.tokens) rest ∧ atEnd rest = true ∧
        (∀ d ∈ ds, d.WellFormed) ∧ (gather schema ds).tables = [] ∧
          (gather schema ds).relationships = [] := by
  fun_induction readFrom schema aliases toks with
  | case1 schema aliases toks hend =>
    have hempty : schema.tables = [] ∧ schema.relationships = [] := by
      have hfinish : finish aliases schema = .error .noDefinitions := h
      unfold finish at hfinish
      split at hfinish
      · rename_i he
        simpa using he
      · cases hfinish
    exact ⟨[], toks, .nil, hend, by simp, by simpa [gather_nil] using hempty⟩
  | case2 schema aliases toks hend cause rest hread =>
    have hcause : cause = .noDefinitions := by injection h
    obtain ⟨front, -, hstops⟩ := Definition.stopsAt_of_read hread
    rw [hcause] at hstops
    exact absurd hstops id
  | case3 schema aliases toks hend d rest hread cause hextend =>
    obtain ⟨b, -, rfl, -⟩ := exists_table_of_extend_error hextend
    cases h
  | case4 schema aliases toks hend d rest hread schema' hextend ih =>
    obtain ⟨ds, rest', hspells, hend', hds, hempty⟩ := ih h
    rw [eq_gather_of_extend hextend, ← gather_cons] at hempty
    exact ⟨d :: ds, rest', (Definition.spells_of_read hread).append hspells, hend',
      List.forall_mem_cons.2 ⟨Definition.wellFormed_of_read hread, hds⟩, hempty⟩

/-- **A text that is read to its end is a document,** also if there is nothing in it. -/
theorem exists_isDocument_of_answerOf {source : String} {schema : Schema}
    (h : parse source = answerOf schema) :
    ∃ ds, IsDocument source ds ∧ (tableNames ds).Nodup ∧ schema = schemaOf ds := by
  by_cases hempty : (schema.tables.isEmpty && schema.relationships.isEmpty) = true
  · rw [answerOf, if_pos hempty] at h
    cases htoks : tokenize source with
    | error cause =>
      simp only [parse, parseWithEvents, Reader.ofSource, htoks] at h
      cases h
    | ok toks =>
      rw [parse_of_tokenize htoks] at h
      obtain ⟨ds, rest, hspells, hend, hds, htables, hrelationships⟩ :=
        exists_spells_of_noDefinitions h
      rw [gather_empty] at htables hrelationships
      have hblocks : tableBlocks ds = [] := List.map_eq_nil_iff.1 htables
      obtain ⟨tables, relationships⟩ := schema
      simp only [Bool.and_eq_true, List.isEmpty_iff] at hempty
      obtain ⟨rfl, rfl⟩ := hempty
      refine ⟨ds, isDocument_of_spells htoks hspells hend hds, by simp [tableNames, hblocks], ?_⟩
      simp only at hrelationships
      simp [schemaOf, hblocks, hrelationships]
  · rw [answerOf, if_neg hempty] at h
    obtain ⟨ds, hdocument⟩ := exists_isDocument_of_parse h
    obtain ⟨hadmissible, rfl⟩ := (hdocument.parse_eq_ok_iff_admissible schema).1 h
    exact ⟨ds, hdocument, hadmissible.names, rfl⟩

/-! ## Names that definitions declare and use -/

theorem Definition.atLine_atLine (d : Definition) (line line' : Nat) :
    (d.atLine line).atLine line' = d.atLine line' := by
  cases d <;> rfl

/-- Definitions of the same tokens are the same but for the lines of their tables. -/
theorem map_atLine_eq_of_spells {toks rest rest' : List Located} {ds ds' : List Definition}
    (hds : ∀ d ∈ ds, d.WellFormed) (hds' : ∀ d ∈ ds', d.WellFormed)
    (h : Spells toks (ds.flatMap Definition.tokens) rest) (hend : atEnd rest = true)
    (h' : Spells toks (ds'.flatMap Definition.tokens) rest') (hend' : atEnd rest' = true) :
    ds.map (Definition.atLine 0) = ds'.map (Definition.atLine 0) := by
  induction ds generalizing toks ds' with
  | nil =>
    rw [spells_nil_iff.1 h] at h'
    cases ds' with
    | nil => rfl
    | cons d' ds' =>
      rw [List.flatMap_cons] at h'
      obtain ⟨next, hd', -⟩ := spells_append_iff.1 h'
      rw [Definition.atEnd_eq_false hd'] at hend
      cases hend
  | cons d ds ih =>
    rw [List.flatMap_cons] at h
    obtain ⟨next, hd, h⟩ := spells_append_iff.1 h
    cases ds' with
    | nil =>
      rw [← spells_nil_iff.1 h', Definition.atEnd_eq_false hd] at hend'
      cases hend'
    | cons d' ds' =>
      rw [List.flatMap_cons] at h'
      obtain ⟨next', hd', h'⟩ := spells_append_iff.1 h'
      have hread := Definition.read_of_spells (hds d (by simp)) hd
        (separate_of_spells_definitions h (.of_atEnd hend))
      rw [Definition.read_of_spells (hds' d' (by simp)) hd'
        (separate_of_spells_definitions h' (.of_atEnd hend'))] at hread
      injection hread with hsame hnext
      subst hnext
      have hfirst : d.atLine 0 = d'.atLine 0 := by
        have hlines := congrArg (Definition.atLine 0) hsame
        rwa [Definition.atLine_atLine, Definition.atLine_atLine, eq_comm] at hlines
      rw [List.map_cons, List.map_cons, hfirst, ih (fun d hd => hds d (by simp [hd]))
        (fun d hd => hds' d (by simp [hd])) h h']

/-- A text is a document in one way, but for the lines of its tables, which mean nothing. -/
theorem IsDocument.map_atLine_eq {source : String} {ds ds' : List Definition}
    (h : IsDocument source ds) (h' : IsDocument source ds') :
    ds.map (Definition.atLine 0) = ds'.map (Definition.atLine 0) := by
  obtain ⟨toks, htoks, hspells, hds⟩ := h
  obtain ⟨toks', htoks', hspells', hds'⟩ := h'
  rw [htoks] at htoks'
  cases htoks'
  obtain ⟨e, hspells, he⟩ := exists_spells_of_map hspells
  obtain ⟨e', hspells', he'⟩ := exists_spells_of_map hspells'
  exact map_atLine_eq_of_spells hds hds' hspells (by simp [atEnd, he]) hspells' (by simp [atEnd, he'])

/-- The name is the alias of a table of the text. -/
def DeclaresAlias (source name : String) : Prop :=
  ∃ ds, IsDocument source ds ∧ name ∈ (aliasesOf ds).map Prod.fst

/-- The name stands for a table at an end of a relationship of the text, as written; the table that
holds an inline reference stands at one end of it. -/
def RefersTo (source name : String) : Prop :=
  ∃ ds, IsDocument source ds ∧
    ∃ r ∈ ds.flatMap Definition.relationships, r.fromTable = name ∨ r.toTable = name

theorem aliasesOf_map_atLine (ds : List Definition) (line : Nat) :
    aliasesOf (ds.map (Definition.atLine line)) = aliasesOf ds := by
  induction ds with
  | nil => rfl
  | cons d ds ih => rw [List.map_cons, aliasesOf_cons, aliasesOf_cons, ih, Definition.aliases_atLine]

theorem relationships_map_atLine (ds : List Definition) (line : Nat) :
    (ds.map (Definition.atLine line)).flatMap Definition.relationships =
      ds.flatMap Definition.relationships := by
  induction ds with
  | nil => rfl
  | cons d ds ih =>
    rw [List.map_cons, List.flatMap_cons, List.flatMap_cons, ih]
    cases d <;> rfl

theorem IsDocument.declaresAlias_iff {source name : String} {ds : List Definition}
    (h : IsDocument source ds) :
    DeclaresAlias source name ↔ name ∈ (aliasesOf ds).map Prod.fst := by
  refine ⟨fun ⟨ds', h', hmem⟩ => ?_, fun hmem => ⟨ds, h, hmem⟩⟩
  rwa [← aliasesOf_map_atLine ds 0, h.map_atLine_eq h', aliasesOf_map_atLine]

theorem IsDocument.refersTo_iff {source name : String} {ds : List Definition}
    (h : IsDocument source ds) : RefersTo source name ↔
      ∃ r ∈ ds.flatMap Definition.relationships, r.fromTable = name ∨ r.toTable = name := by
  refine ⟨fun ⟨ds', h', hmem⟩ => ?_, fun hmem => ⟨ds, h, hmem⟩⟩
  rwa [← relationships_map_atLine ds 0, h.map_atLine_eq h', relationships_map_atLine]

/-! ## Aliases of two texts -/

theorem aliasesOf_append (ds ds' : List Definition) :
    aliasesOf (ds ++ ds') = aliasesOf ds' ++ aliasesOf ds := by
  simp [aliasesOf]

theorem lookup_eq_none_of_not_mem {x : Aliases} {name : String} (h : name ∉ x.map Prod.fst) :
    x.lookup name = none := by
  rw [List.lookup_eq_none_iff]
  intro p hp
  exact bne_iff_ne.2 fun he => h (List.mem_map.2 ⟨p, hp, he.symm⟩)

namespace Aliases

variable {x y : Aliases} {name : String}

theorem resolve_append_of_not_mem_left (h : name ∉ x.map Prod.fst) :
    resolve (x ++ y) name = y.resolve name := by
  rw [resolve, List.lookup_append, lookup_eq_none_of_not_mem h]
  rfl

theorem resolve_append_of_not_mem_right (h : name ∉ y.map Prod.fst) :
    resolve (x ++ y) name = x.resolve name := by
  rw [resolve, List.lookup_append, lookup_eq_none_of_not_mem h, Option.or_none]
  rfl

end Aliases

/-- No name of the relationships of `ds'` is an alias that `ds` declares. -/
def AliasesApart (ds ds' : List Definition) : Prop :=
  ∀ r ∈ ds'.flatMap Definition.relationships,
    r.fromTable ∉ (aliasesOf ds).map Prod.fst ∧ r.toTable ∉ (aliasesOf ds).map Prod.fst

/-- Definitions that do not use each other's aliases mean together what they mean apart. -/
theorem schemaOf_append {ds ds' : List Definition} (h : AliasesApart ds ds')
    (h' : AliasesApart ds' ds) : schemaOf (ds ++ ds') =
      ⟨(schemaOf ds).tables ++ (schemaOf ds').tables,
        (schemaOf ds).relationships ++ (schemaOf ds').relationships⟩ := by
  have hfirst : (ds.flatMap Definition.relationships).map (aliasesOf (ds ++ ds')).resolveEnds =
      (ds.flatMap Definition.relationships).map (aliasesOf ds).resolveEnds := by
    refine List.map_congr_left fun r hr => ?_
    simp only [Aliases.resolveEnds, aliasesOf_append,
      Aliases.resolve_append_of_not_mem_left (h' r hr).1,
      Aliases.resolve_append_of_not_mem_left (h' r hr).2]
  have hsecond : (ds'.flatMap Definition.relationships).map (aliasesOf (ds ++ ds')).resolveEnds =
      (ds'.flatMap Definition.relationships).map (aliasesOf ds').resolveEnds := by
    refine List.map_congr_left fun r hr => ?_
    simp only [Aliases.resolveEnds, aliasesOf_append,
      Aliases.resolve_append_of_not_mem_right (h r hr).1,
      Aliases.resolve_append_of_not_mem_right (h r hr).2]
  simp only [schemaOf, List.flatMap_append, List.map_append, hfirst, hsecond, tableBlocks,
    List.filterMap_append]

/-! ## Two texts -/

/-- The table of the text that `n` tables stand in front of begins on the line. -/
def TableOnLine (source : String) (n line : Nat) : Prop :=
  ∃ before b after toks t, IsDocument source (before ++ .table b :: after) ∧
    (tableBlocks before).length = n ∧ tokenize source = .ok toks ∧
      toks[(before.flatMap Definition.tokens).length]? = some t ∧ t.line = line

/-- The tokens of two documents with a newline between them. -/
theorem exists_tokens_append {a b : String} {ds ds' : List Definition} (ha : IsDocument a ds)
    (hb : IsDocument b ds') : ∃ toks mid toks' e, tokenize (a ++ "\n" ++ b) = .ok toks ∧
      Spells toks (ds.flatMap Definition.tokens) mid ∧ tokenize b = .ok toks' ∧
        mid = toks'.map (Located.lower (Text.newlines a.toList + 1)) ∧
          Spells mid (ds'.flatMap Definition.tokens) [e] ∧ e.token = .endOfInput := by
  obtain ⟨toks, htoks, hspells, -⟩ := ha
  obtain ⟨toks', htoks', hspells', -⟩ := hb
  obtain ⟨e, ⟨x, rfl, hx⟩, he⟩ := exists_spells_of_map hspells
  have hlower : (toks'.map (Located.lower (Text.newlines a.toList + 1))).map Located.token =
      toks'.map Located.token := by simp [Located.lower]
  rw [← hlower] at hspells'
  obtain ⟨e', hspells', he'⟩ := exists_spells_of_map hspells'
  exact ⟨_, _, toks', e', tokenize_append htoks htoks', ⟨x, rfl, hx⟩, htoks', rfl, hspells', he'⟩

theorem IsDocument.append {a b : String} {ds ds' : List Definition} (ha : IsDocument a ds)
    (hb : IsDocument b ds') : IsDocument (a ++ "\n" ++ b) (ds ++ ds') := by
  obtain ⟨toks, mid, toks', e, htoks, hspells, -, -, hspells', he⟩ := exists_tokens_append ha hb
  have hboth : Spells toks ((ds ++ ds').flatMap Definition.tokens) [e] := by
    rw [List.flatMap_append]
    exact hspells.append hspells'
  refine isDocument_of_spells htoks hboth (by simp [atEnd, he]) fun d hd => ?_
  obtain hd | hd := List.mem_append.1 hd
  · exact ha.wellFormed d hd
  · exact hb.wellFormed d hd

theorem lineOf_map_lower {toks front mid : List Located} {k : Nat}
    (h : toks.map (Located.lower k) = front ++ mid) (hmid : mid ≠ []) :
    ∃ t, toks[front.length]? = some t ∧ lineOf mid = k + t.line := by
  cases mid with
  | nil => exact absurd rfl hmid
  | cons u mid =>
    have hu : (toks.map (Located.lower k))[front.length]? = some u := by rw [h]; simp
    rw [List.getElem?_map] at hu
    obtain ⟨t, ht, rfl⟩ := Option.map_eq_some_iff.1 hu
    exact ⟨t, ht, Nat.add_comm t.line k⟩

/-- A table of the second text that the first one declares too is refused, on its line in the joined
text, if the tables in front of it are new. -/
theorem parse_append_of_mem {a b : String} {ds before after : List Definition} {block : TableBlock}
    (ha : IsDocument a ds) (hb : IsDocument b (before ++ .table block :: after))
    (hnames : (tableNames (ds ++ before)).Nodup) (hmem : block.name ∈ tableNames ds) :
    ∃ line, TableOnLine b (tableBlocks before).length line ∧ parse (a ++ "\n" ++ b) =
      .error (.duplicateTable block.name (Text.newlines a.toList + 1 + line)) := by
  obtain ⟨toks, mid, toks', e, htoks, hfirst, htoks', hmid, hsecond, he⟩ :=
    exists_tokens_append ha hb
  rw [List.flatMap_append, List.flatMap_cons] at hsecond
  obtain ⟨next, hbefore, hsecond⟩ := spells_append_iff.1 hsecond
  obtain ⟨rest, hblock, hafter⟩ := spells_append_iff.1 hsecond
  -- The reader comes to the table with what both texts declare in front of it.
  have hreaches : Spells toks ((ds ++ before).flatMap Definition.tokens) next := by
    rw [List.flatMap_append]
    exact hfirst.append hbefore
  have hwell : ∀ d ∈ ds ++ before, d.WellFormed := by
    intro d hd
    obtain hd | hd := List.mem_append.1 hd
    · exact ha.wellFormed d hd
    · exact hb.wellFormed d (by simp [hd])
  have hrest : Separate rest :=
    separate_of_spells_definitions hafter (.of_atEnd (by simp [atEnd, he]))
  have hsingle : Spells next ([Definition.table block].flatMap Definition.tokens) rest := by
    simpa using hblock
  have hnext : Separate next := separate_of_spells_definitions hsingle hrest
  have hgather : (gather ⟨[], []⟩ (ds ++ before)).names.Nodup := by
    rw [names_gather]
    simpa [Schema.names] using hnames
  have hread := Definition.read_of_spells (hb.wellFormed (.table block) (by simp)) hblock hrest
  have hdeclares : (gather ⟨[], []⟩ (ds ++ before)).declares block.name = true := by
    have hin : block.name ∈ (gather ⟨[], []⟩ (ds ++ before)).names := by
      rw [names_gather, tableNames, tableBlocks, List.filterMap_append, List.map_append]
      simp only [Schema.names, List.map_nil, List.nil_append, List.mem_append]
      exact .inl hmem
    simpa [Schema.declares, Schema.names] using hin
  have hextend : extend (gather ⟨[], []⟩ (ds ++ before))
      ((Definition.table block).atLine (lineOf next)) =
        .error (.duplicateTable block.name (lineOf next)) := if_pos hdeclares
  have hstart : ¬ atEnd next = true := by simp [Definition.atEnd_eq_false hblock]
  obtain ⟨front, hsplit, hfront⟩ := hbefore
  have hlength : front.length = (before.flatMap Definition.tokens).length := by
    rw [← hfront, List.length_map]
  obtain ⟨t, ht, hline⟩ := lineOf_map_lower (hmid.symm.trans hsplit) (by
    rintro rfl
    exact hstart rfl)
  refine ⟨t.line, ⟨before, block, after, toks', t, hb, rfl, htoks', hlength ▸ ht, rfl⟩, ?_⟩
  rw [parse_of_tokenize htoks, result_readFrom_append hgather hwell hreaches hnext,
    (readFrom_of_extend_error hstart hread hextend).1, hline]

theorem exists_split_of_tableBlocks {ds : List Definition} {bs bs' : List TableBlock}
    {block : TableBlock} (h : tableBlocks ds = bs ++ block :: bs') :
    ∃ before after, ds = before ++ .table block :: after ∧ tableBlocks before = bs := by
  obtain ⟨x, y, rfl, hx, hy⟩ := List.filterMap_eq_append_iff.1 h
  obtain ⟨skipped, d, after, rfl, hskipped, hd, -⟩ := List.filterMap_eq_cons_iff.1 hy
  have htable : d = .table block := by
    cases d <;> cases hd
    rfl
  subst htable
  refine ⟨x ++ skipped, after, by simp, ?_⟩
  rw [tableBlocks, List.filterMap_append, hx, List.filterMap_eq_nil_iff.2 hskipped, List.append_nil]

theorem nodup_tableNames_append {ds ds' : List Definition} (h : (tableNames ds).Nodup)
    (h' : (tableNames ds').Nodup) (hdisjoint : ∀ n ∈ tableNames ds, n ∉ tableNames ds') :
    (tableNames (ds ++ ds')).Nodup := by
  rw [tableNames, tableBlocks, List.filterMap_append, List.map_append, List.nodup_append]
  refine ⟨h, h', fun n hn m hm he => ?_⟩
  subst he
  exact hdisjoint n hn hm

/-- **Reading is compositional.** Two texts that are read to their end, and that do not refer to each
other's aliases, make up a text that means both, if no table is declared in both; otherwise the
first table of the second text that the first text declares too is refused. -/
theorem parse_append {a b : String} {sa sb : Schema} (ha : parse a = answerOf sa)
    (hb : parse b = answerOf sb) (hab : ∀ x, DeclaresAlias a x → ¬ RefersTo b x)
    (hba : ∀ x, DeclaresAlias b x → ¬ RefersTo a x) :
    ((∀ n ∈ sa.names, n ∉ sb.names) → parse (a ++ "\n" ++ b) =
        answerOf ⟨sa.tables ++ sb.tables, sa.relationships ++ sb.relationships⟩) ∧
      ∀ before t after, sb.tables = before ++ t :: after → t.name ∈ sa.names →
        (∀ u ∈ before, u.name ∉ sa.names) →
          ∃ line, TableOnLine b before.length line ∧ parse (a ++ "\n" ++ b) =
            .error (.duplicateTable t.name (Text.newlines a.toList + 1 + line)) := by
  obtain ⟨ds, hds, hnames, rfl⟩ := exists_isDocument_of_answerOf ha
  obtain ⟨ds', hds', hnames', rfl⟩ := exists_isDocument_of_answerOf hb
  have hapart : AliasesApart ds ds' := fun r hr =>
    ⟨fun h => hab _ ⟨ds, hds, h⟩ ⟨ds', hds', r, hr, .inl rfl⟩,
      fun h => hab _ ⟨ds, hds, h⟩ ⟨ds', hds', r, hr, .inr rfl⟩⟩
  have hapart' : AliasesApart ds' ds := fun r hr =>
    ⟨fun h => hba _ ⟨ds', hds', h⟩ ⟨ds, hds, r, hr, .inl rfl⟩,
      fun h => hba _ ⟨ds', hds', h⟩ ⟨ds, hds, r, hr, .inr rfl⟩⟩
  rw [names_schemaOf, names_schemaOf]
  constructor
  · intro hdisjoint
    rw [(hds.append hds').parse_eq_answerOf (nodup_tableNames_append hnames hnames' hdisjoint),
      schemaOf_append hapart hapart']
  · intro before t after htables hmem hnew
    obtain ⟨bs, bs', hblocks, rfl, hbs'⟩ := List.map_eq_append_iff.1 htables
    obtain ⟨block, bs', rfl, rfl, -⟩ := List.map_eq_cons_iff.1 hbs'
    obtain ⟨pre, post, rfl, rfl⟩ := exists_split_of_tableBlocks hblocks
    rw [List.length_map]
    have hpre : (tableNames pre).Nodup := by
      rw [tableNames, hblocks, List.map_append, List.nodup_append] at hnames'
      exact hnames'.1
    refine parse_append_of_mem hds hds' (nodup_tableNames_append hnames hpre ?_) hmem
    intro n hn hn'
    obtain ⟨u, hu, rfl⟩ := List.mem_map.1 hn'
    exact hnew u.table (List.mem_map_of_mem hu) hn

/-- Two tables that refer to each other by name are joined, and a table does not go with itself. -/
theorem parse_append_usersAndPosts :
    (parse ("Table users as u \x7b id int \x7d" ++ "\n" ++
        "Table posts \x7b user_id int [ref: > users.id] \x7d")).toOption =
      some ⟨[⟨"users", [⟨"id", "int", []⟩]⟩,
          ⟨"posts", [⟨"user_id", "int", ["ref: > users.id"]⟩]⟩],
        [⟨"posts", "user_id", "users", "id", .manyToOne⟩]⟩ ∧
      ∃ line, TableOnLine "Table users as u \x7b id int \x7d" 0 line ∧
        parse ("Table users as u \x7b id int \x7d" ++ "\n" ++ "Table users as u \x7b id int \x7d") =
          .error (.duplicateTable "users" (1 + line)) := by
  let users : List Definition := [.table ⟨⟨"Table", 0, ⟨.bare "users", []⟩, some ("as", .bare "u")⟩,
    none, [.column ⟨.bare "id", ⟨⟨.bare "int", []⟩, none, false⟩, none⟩]⟩]
  let posts : List Definition := [.table ⟨⟨"Table", 0, ⟨.bare "posts", []⟩, none⟩, none,
    [.column ⟨.bare "user_id", ⟨⟨.bare "int", []⟩, none, false⟩,
      some ⟨[.reference "ref" .manyToOne ⟨⟨.bare "users", []⟩, .bare "id"⟩], false⟩⟩]⟩]
  have husers : IsDocument "Table users as u \x7b id int \x7d" users :=
    isDocument_of_tokenize (by decide +kernel) (by decide +kernel)
  have hposts : IsDocument "Table posts \x7b user_id int [ref: > users.id] \x7d" posts :=
    isDocument_of_tokenize (by decide +kernel) (by decide +kernel)
  have hnone (x : String) (h : RefersTo "Table users as u \x7b id int \x7d" x) : False := by
    simpa [users, Definition.relationships, TableBlock.relationships, TableBlock.columnLines,
      Member.column?, ColumnLine.relationships, ColumnLine.items] using husers.refersTo_iff.1 h
  have halias (x : String) (h : DeclaresAlias "Table users as u \x7b id int \x7d" x) :
      ¬ RefersTo "Table posts \x7b user_id int [ref: > users.id] \x7d" x := by
    intro hrefers
    have hx : x ∈ (aliasesOf users).map Prod.fst := husers.declaresAlias_iff.1 h
    have hu : (aliasesOf users).map Prod.fst = ["u"] := by decide +kernel
    rw [hu, List.mem_singleton] at hx
    subst hx
    have hno : ∀ r ∈ posts.flatMap Definition.relationships,
        ¬ (r.fromTable = "u" ∨ r.toTable = "u") := by decide +kernel
    obtain ⟨r, hr, he⟩ := hposts.refersTo_iff.1 hrefers
    exact hno r hr he
  have husers' := husers.parse_eq_answerOf (by decide +kernel)
  have hposts' := hposts.parse_eq_answerOf (by decide +kernel)
  constructor
  · rw [(parse_append husers' hposts' halias fun x _ => hnone x).1 (by decide +kernel)]
    decide +kernel
  · exact (parse_append husers' husers' (fun x _ => hnone x) fun x _ => hnone x).2 []
      ⟨"users", [⟨"id", "int", []⟩]⟩ [] (by decide +kernel) (by decide +kernel) (by simp)

end SchemaDiagram.Document
