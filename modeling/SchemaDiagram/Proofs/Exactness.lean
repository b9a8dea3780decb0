/-
Parser exactness: a text is accepted with a schema if and only if it is
written with definitions of the grammar that make up a schema, and the schema
is what they mean (`parse_eq_ok_iff`).

The work is one induction over the loop that reads definitions, once along
the loop and once along the list of definitions (`result_readFrom_eq_ok_iff`).
Each definition was settled before, by `Definition.wellFormed_of_read` and
`Definition.read_of_spells`. What is new here is the end of the input: no
definition contains it, so the loop cannot run past it.
-/
import SchemaDiagram.Proofs.Cursors
import SchemaDiagram.Proofs.Definitions

namespace SchemaDiagram

/-- The names of the tables in declaration order. -/
def Schema.names (s : Schema) : List String := s.tables.map Table.name

namespace Document

/-! ## The end of the input is in no definition -/

theorem Name.endOfInput_ne (n : Name) : .endOfInput ≠ n.token := n.token_ne_endOfInput.symm

theorem QualifiedName.endOfInput_not_mem (q : QualifiedName) : .endOfInput ∉ q.tokens := by
  simp [tokens, moreTokens, Name.endOfInput_ne]

theorem Endpoint.endOfInput_not_mem (e : Endpoint) : .endOfInput ∉ e.tokens := by
  simp [tokens, QualifiedName.endOfInput_not_mem, Name.endOfInput_ne]

theorem IsArguments.endOfInput_not_mem {args : List Token} (h : IsArguments args) :
    .endOfInput ∉ args := by
  obtain ⟨places, hplaces, rfl⟩ := h
  have hplace (p : Option Token) (hp : p ∈ places) : .endOfInput ∉ p.toList := by
    cases p with
    | none => simp
    | some t =>
      have ht := hplaces t hp
      intro hmem
      obtain rfl : Token.endOfInput = t := by simpa using hmem
      simp [TypeName.isArgument] at ht
  clear hplaces
  induction places with
  | nil => simp
  | cons p ps ih =>
    have hp := hplace p (by simp)
    have hps := ih fun q hq => hplace q (by simp [hq])
    cases ps with
    | nil => simpa using hp
    | cons q ps =>
      rw [List.map_cons, List.map_cons, List.intercalate_cons_cons]
      simpa [hp] using hps

theorem TypeName.endOfInput_not_mem {t : TypeName} (h : t.WellFormed) : .endOfInput ∉ t.tokens := by
  obtain ⟨name, args, isArray⟩ := t
  have hargs : .endOfInput ∉ argumentTokens args := by
    cases args with
    | none => simp [argumentTokens]
    | some args => simpa [argumentTokens] using (h args rfl).endOfInput_not_mem
  have harray : .endOfInput ∉ arrayTokens isArray := by cases isArray <;> simp [arrayTokens]
  simp [tokens, QualifiedName.endOfInput_not_mem, hargs, harray]

theorem Setting.endOfInput_not_mem {s : Setting} (h : s.WellFormed) : .endOfInput ∉ s.tokens := by
  cases s with
  | reference keyword c target => simp [tokens, Endpoint.endOfInput_not_mem]
  | plain run => exact h.2.1.input

theorem Settings.endOfInput_not_mem {ss : Settings} (h : ss.WellFormed) :
    .endOfInput ∉ ss.tokens := by
  have hlist (trailing : Bool) (items : List Setting) (h : ∀ s ∈ items, s.WellFormed) :
      .endOfInput ∉ listTokens trailing items := by
    fun_induction listTokens trailing items with
    | case1 => simp
    | case2 s =>
      have hs := Setting.endOfInput_not_mem (h s (by simp))
      cases trailing <;> simp [hs]
    | case3 s more _ ih =>
      have hs := Setting.endOfInput_not_mem (h s (by simp))
      simp [hs, ih fun s hs => h s (by simp [hs])]
  simp [tokens, innerTokens, hlist _ _ h.items]

theorem Settings.endOfInput_not_mem_optional {ss : Option Settings}
    (h : OptionalWellFormed ss) : .endOfInput ∉ optionalTokens ss := by
  cases ss with
  | none => simp [optionalTokens]
  | some ss => exact endOfInput_not_mem (h ss rfl)

theorem Balanced.endOfInput_not_mem {toks : List Token} (h : Balanced toks) :
    .endOfInput ∉ toks := by
  induction h with
  | nil => simp
  | other _ _ ht _ ih => simp [ht.symm, ih]
  | block _ _ ih ih' => simp [ih, ih']

theorem Member.endOfInput_not_mem {m : Member} (h : m.WellFormed) : .endOfInput ∉ m.tokens := by
  cases m with
  | column line =>
    simp [tokens, ColumnLine.tokens, Name.endOfInput_ne, TypeName.endOfInput_not_mem h.type,
      Settings.endOfInput_not_mem_optional h.settings]
  | note => simp [tokens]
  | block keyword body => simp [tokens, h.2.endOfInput_not_mem]

theorem TableBlock.endOfInput_not_mem {b : TableBlock} (h : b.WellFormed) :
    .endOfInput ∉ b.tokens := by
  have hmembers : .endOfInput ∉ b.members.flatMap Member.tokens := by
    intro hmem
    obtain ⟨m, hm, hmem⟩ := List.mem_flatMap.1 hmem
    exact Member.endOfInput_not_mem (h.members m hm) hmem
  have hhead : .endOfInput ∉ b.head.tokens := by
    rcases hs : b.head.shortName with _ | ⟨word, name⟩ <;>
      simp [TableHead.tokens, TableHead.shortNameTokens, hs, QualifiedName.endOfInput_not_mem,
        Name.endOfInput_ne]
  have hsettings := Settings.endOfInput_not_mem_optional h.settings
  simp only [tokens, List.mem_cons, List.mem_append, hmembers, hhead, hsettings]
  simp

theorem Reference.endOfInput_not_mem {r : Reference} (h : r.WellFormed) :
    .endOfInput ∉ r.tokens := by
  simp [tokens, Endpoint.endOfInput_not_mem, Settings.endOfInput_not_mem_optional h]

theorem ReferenceGroup.endOfInput_not_mem {g : ReferenceGroup} (h : g.WellFormed) :
    .endOfInput ∉ g.tokens := by
  obtain ⟨keyword, name, body⟩ := g
  have hname : .endOfInput ∉ nameTokens name := by
    cases name <;> simp [nameTokens, Name.endOfInput_ne]
  have hbody : .endOfInput ∉ bodyTokens body := by
    cases body with
    | single r =>
      simpa [bodyTokens] using Reference.endOfInput_not_mem (h.references r (by simp [references]))
    | block rs =>
      simp only [bodyTokens, List.mem_cons, List.mem_append, List.mem_flatMap]
      have hrs (r : Reference) (hr : r ∈ rs) := Reference.endOfInput_not_mem (h.references r hr)
      simpa using hrs
  simp [tokens, hname, hbody]

theorem Skipped.endOfInput_not_mem {s : Skipped} (h : s.WellFormed) : .endOfInput ∉ s.tokens := by
  have hheader : .endOfInput ∉ s.header := fun hmem => (h.header _ hmem).2.2 rfl
  have hbody : .endOfInput ∉ bodyTokens s.body := by
    cases hs : s.body with
    | note => simp [bodyTokens]
    | block body => simpa [bodyTokens] using (h.body body hs).endOfInput_not_mem
  simp [tokens, hheader, hbody]

theorem Definition.endOfInput_not_mem {d : Definition} (h : d.WellFormed) :
    .endOfInput ∉ d.tokens := by
  cases d with
  | table b => exact TableBlock.endOfInput_not_mem h
  | references g => exact ReferenceGroup.endOfInput_not_mem h
  | skipped s => exact Skipped.endOfInput_not_mem h

/-! ## Gathering -/

@[simp] theorem tableBlocks_nil : tableBlocks [] = [] := rfl

@[simp] theorem tableBlocks_table (b : TableBlock) (ds : List Definition) :
    tableBlocks (.table b :: ds) = b :: tableBlocks ds := rfl

@[simp] theorem tableBlocks_references (g : ReferenceGroup) (ds : List Definition) :
    tableBlocks (.references g :: ds) = tableBlocks ds := rfl

@[simp] theorem tableBlocks_skipped (s : Skipped) (ds : List Definition) :
    tableBlocks (.skipped s :: ds) = tableBlocks ds := rfl

/-- A schema with what a row of definitions adds to it, whether or not the tables are new. -/
def gather (schema : Schema) (ds : List Definition) : Schema where
  tables := schema.tables ++ (tableBlocks ds).map TableBlock.table
  relationships := schema.relationships ++ ds.flatMap Definition.relationships

theorem gather_nil (schema : Schema) : gather schema [] = schema := by
  simp [gather]

theorem gather_cons (schema : Schema) (d : Definition) (ds : List Definition) :
    gather schema (d :: ds) = gather (gather schema [d]) ds := by
  cases d <;> simp [gather]

theorem names_gather (schema : Schema) (ds : List Definition) :
    (gather schema ds).names = schema.names ++ tableNames ds := by
  simp [gather, Schema.names, tableNames, TableBlock.table]

theorem extend_eq_ok_iff {schema schema' : Schema} {d : Definition}
    (hnames : schema.names.Nodup) :
    extend schema d = .ok schema' ↔
      (gather schema [d]).names.Nodup ∧ schema' = gather schema [d] := by
  rw [names_gather]
  cases d with
  | table b =>
    have hdeclares : schema.declares b.name = true ↔ b.name ∈ schema.names := by
      simp [Schema.declares, Schema.names]
    simp only [extend]
    split
    · rename_i hb
      have hmem := hdeclares.1 hb
      have hold : ¬ (schema.names ++ [b.name]).Nodup := by
        intro hnodup
        rw [List.nodup_append] at hnodup
        exact hnodup.2.2 b.name hmem b.name (by simp) rfl
      simp [tableNames, hold]
    · rename_i hb
      have hmem : b.name ∉ schema.names := fun hmem => hb (hdeclares.2 hmem)
      have hnodup : (schema.names ++ [b.name]).Nodup := by
        simp only [List.nodup_append, hnames, true_and]
        refine ⟨by simp, ?_⟩
        intro a ha b' hb'
        rw [List.mem_singleton.1 hb']
        exact fun he => hmem (he ▸ ha)
      simp [tableNames, gather, Definition.relationships, hnodup, eq_comm]
  | references g | skipped s =>
    simp [extend, tableNames, gather, hnames, eq_comm]

theorem aliasesOf_cons (d : Definition) (ds : List Definition) :
    aliasesOf (d :: ds) = aliasesOf ds ++ d.aliases := by
  simp [aliasesOf]

theorem names_schemaOf (ds : List Definition) : (schemaOf ds).names = tableNames ds := by
  simp [schemaOf, Schema.names, tableNames, TableBlock.table]

theorem finish_gather_eq_ok_iff {ds : List Definition} {schema : Schema} :
    finish (aliasesOf ds) (gather ⟨[], []⟩ ds) = .ok schema ↔
      ((schemaOf ds).tables ≠ [] ∨ (schemaOf ds).relationships ≠ []) ∧ schema = schemaOf ds := by
  have hempty : ((gather ⟨[], []⟩ ds).tables.isEmpty && (gather ⟨[], []⟩ ds).relationships.isEmpty) =
      true ↔ ¬ ((schemaOf ds).tables ≠ [] ∨ (schemaOf ds).relationships ≠ []) := by
    simp [gather, schemaOf]
  have hschema : { gather ⟨[], []⟩ ds with
      relationships := (gather ⟨[], []⟩ ds).relationships.map (aliasesOf ds).resolveEnds } =
      schemaOf ds := by
    simp [gather, schemaOf]
  unfold finish
  split
  · rename_i he
    have hno := hempty.1 he
    simp only [hno, false_and, iff_false]
    exact fun h => by cases h
  · rename_i he
    have hsome := Classical.not_not.1 fun hno => he (hempty.2 hno)
    rw [hschema]
    simp only [hsome, true_and, Except.ok.injEq]
    exact eq_comm

/-! ## Reading definitions in a row -/

namespace Definition

variable (line : Nat) {d : Definition}

theorem aliases_atLine : (d.atLine line).aliases = d.aliases := by
  cases d <;> rfl

theorem tokens_atLine : (d.atLine line).tokens = d.tokens := by
  cases d <;> rfl

theorem wellFormed_atLine (h : d.WellFormed) : (d.atLine line).WellFormed := by
  cases d with
  | table b => exact ⟨⟨h.head.keyword, h.head.short⟩, h.settings, h.members⟩
  | references g => exact h
  | skipped s => exact h

theorem atEnd_eq_false {toks rest : List Located} (h : Spells toks d.tokens rest) :
    atEnd toks = false := by
  obtain ⟨s, x, hx⟩ := d.exists_tokens_eq_cons
  exact atEnd_eq_false_of_name (n := .bare s) (hx ▸ h)

theorem gather_atLine (schema : Schema) : gather schema [d.atLine line] = gather schema [d] := by
  cases d <;> rfl

end Definition

/-- What is accepted has been read as definitions, one after the other. -/
theorem exists_spells_of_readFrom {schema result : Schema} {aliases : Aliases}
    {toks : List Located} (h : (readFrom schema aliases toks).result = .ok result) :
    ∃ (ds : List Definition) (rest : List Located),
      Spells toks (ds.flatMap Definition.tokens) rest ∧ atEnd rest = true ∧
        ∀ d ∈ ds, d.WellFormed := by
  fun_induction readFrom schema aliases toks with
  | case1 schema aliases toks hend => exact ⟨[], toks, .nil, hend, by simp⟩
  | case2 => cases h
  | case3 => cases h
  | case4 schema aliases toks _ d rest hd _ _ ih =>
    obtain ⟨ds, rest', hspells, hend, hds⟩ := ih h
    exact ⟨d :: ds, rest', (Definition.spells_of_read hd).append hspells, hend,
      List.forall_mem_cons.2 ⟨Definition.wellFormed_of_read hd, hds⟩⟩

theorem separate_of_spells_definitions {toks rest : List Located} {ds : List Definition}
    (h : Spells toks (ds.flatMap Definition.tokens) rest) (hrest : Separate rest) :
    Separate toks := by
  cases ds with
  | nil =>
    rw [spells_nil_iff.1 h]
    exact hrest
  | cons d ds =>
    obtain ⟨s, x, hx⟩ := d.exists_tokens_eq_cons
    rw [List.flatMap_cons, hx] at h
    exact .of_name (n := .bare s) h

/-- Definitions that are well-formed are read, and what is asked of them further is that their
tables are new. The induction is on the definitions; the schema and the aliases of the ones before
are carried along. -/
theorem result_readFrom_eq_ok_iff {schema result : Schema} {aliases : Aliases}
    {toks rest : List Located} {ds : List Definition} (hnames : schema.names.Nodup)
    (hds : ∀ d ∈ ds, d.WellFormed) (h : Spells toks (ds.flatMap Definition.tokens) rest)
    (hend : atEnd rest = true) :
    (readFrom schema aliases toks).result = .ok result ↔
      (gather schema ds).names.Nodup ∧
        finish (aliasesOf ds ++ aliases) (gather schema ds) = .ok result := by
  induction ds generalizing schema aliases toks with
  | nil =>
    rw [spells_nil_iff.1 h, readFrom, if_pos hend, gather_nil]
    simp [hnames, aliasesOf]
  | cons d ds ih =>
    rw [List.flatMap_cons] at h
    obtain ⟨mid, hd, h⟩ := spells_append_iff.1 h
    have hread := Definition.read_of_spells (hds d (by simp)) hd
      (separate_of_spells_definitions h (.of_atEnd hend))
    have hstart := Definition.atEnd_eq_false hd
    have hfirst : (gather schema (d :: ds)).names.Nodup → (gather schema [d]).names.Nodup := by
      intro hall
      rw [gather_cons, names_gather] at hall
      exact (List.nodup_append.1 hall).1
    rw [readFrom, if_neg (by simp [hstart])]
    split
    · rename_i he
      rw [hread] at he
      cases he
    · rename_i he
      rw [hread] at he
      cases he
      split
      · rename_i cause hextend
        constructor
        · exact fun h => by cases h
        · intro h
          have hall := h.1
          have hok := (extend_eq_ok_iff (d := d.atLine (lineOf toks)) hnames).2
            ⟨by simpa [Definition.gather_atLine] using hfirst hall, rfl⟩
          rw [hextend] at hok
          cases hok
      · rename_i schema' hextend
        obtain ⟨hnew, rfl⟩ := (extend_eq_ok_iff hnames).1 hextend
        rw [Definition.gather_atLine] at hnew ⊢
        have hmore := @ih _ ((d.atLine (lineOf toks)).aliases ++ aliases) _ hnew
          (fun d hd => hds d (by simp [hd])) h
        rw [gather_cons schema d ds, aliasesOf_cons, List.append_assoc]
        rw [Definition.aliases_atLine] at hmore ⊢
        exact hmore

/-! ## Whole texts -/

theorem parse_of_tokenize {source : String} {toks : List Located} (h : tokenize source = .ok toks) :
    parse source = (readFrom ⟨[], []⟩ [] toks).result := by
  simp only [parse, parseWithEvents, Reader.ofSource, h, Reader.run]

/-- The tokens of a text end with the end of the input, which is nowhere before. -/
theorem exists_of_tokenize {source : String} {toks : List Located} (h : tokenize source = .ok toks) :
    ∃ front e, toks = front ++ [e] ∧ e.token = .endOfInput ∧ ∀ t ∈ front, t.token ≠ .endOfInput := by
  obtain ⟨front, c, e, c', hreads, -, he, rfl⟩ := Cursor.tokens_eq_ok_iff.1 h
  exact ⟨front, e, rfl, he, hreads.token_ne⟩

theorem IsDocument.wellFormed {source : String} {ds : List Definition} (h : IsDocument source ds) :
    ∀ d ∈ ds, d.WellFormed := by
  obtain ⟨toks, -, hderives⟩ := h
  exact hderives.wellFormed

/-- Tokens of a text that are written with definitions up to an end of the input are all its tokens. -/
theorem isDocument_of_spells {source : String} {toks rest : List Located} {ds : List Definition}
    (htoks : tokenize source = .ok toks) (h : Spells toks (ds.flatMap Definition.tokens) rest)
    (hend : atEnd rest = true) (hds : ∀ d ∈ ds, d.WellFormed) : IsDocument source ds := by
  obtain ⟨front, rfl, hfront⟩ := h
  obtain ⟨body, e, hbody, he, hne⟩ := exists_of_tokenize htoks
  -- The definitions stop at the only end of the input there is.
  have hinput : ∀ t ∈ front, t.token ≠ .endOfInput := by
    intro t ht htoken
    have hmem : Token.endOfInput ∈ ds.flatMap Definition.tokens := by
      rw [← hfront, ← htoken]
      exact List.mem_map_of_mem ht
    obtain ⟨d, hd, hmem⟩ := List.mem_flatMap.1 hmem
    exact Definition.endOfInput_not_mem (hds d hd) hmem
  have hrest : rest = [e] := by
    rcases List.eq_nil_or_concat rest with rfl | ⟨init, last, rfl⟩
    · rw [List.append_nil] at hbody
      exact absurd he (hinput e (by simp [hbody]))
    · rw [List.concat_eq_append, ← List.append_assoc] at hbody
      obtain ⟨rfl, hlast⟩ := List.append_inj' hbody rfl
      rw [List.concat_eq_append, hlast]
      cases init with
      | nil => rfl
      | cons t init =>
        have ht : t.token = .endOfInput := by simpa [atEnd] using hend
        exact absurd ht (hne t (by simp))
  subst hrest
  exact ⟨_, htoks, by simp [hfront, he], hds⟩

/-- **Every accepted text is a document.** -/
theorem exists_isDocument_of_parse {source : String} {schema : Schema}
    (h : parse source = .ok schema) : ∃ ds, IsDocument source ds := by
  cases htoks : tokenize source with
  | error cause =>
    simp only [parse, parseWithEvents, Reader.ofSource, htoks] at h
    cases h
  | ok toks =>
    rw [parse_of_tokenize htoks] at h
    obtain ⟨ds, rest, hspells, hend, hds⟩ := exists_spells_of_readFrom h
    exact ⟨ds, isDocument_of_spells htoks hspells hend hds⟩

/-- All tokens but the last one are written with the definitions. -/
theorem exists_spells_of_map {toks : List Located} {ds : List Definition}
    (h : toks.map Located.token = ds.flatMap Definition.tokens ++ [.endOfInput]) :
    ∃ e, Spells toks (ds.flatMap Definition.tokens) [e] ∧ e.token = .endOfInput := by
  obtain ⟨rest, hspells, hrest⟩ := spells_of_map_token h
  obtain ⟨e, rfl, he⟩ := List.map_eq_singleton_iff.1 hrest
  exact ⟨e, hspells, he⟩

/-- A document by computation: its tokens are compared with those of the definitions, and each
definition is read back from its own. -/
theorem isDocument_of_tokenize {source : String} {ds : List Definition}
    (h : (tokenize source).toOption.map (·.map Located.token) =
      some (ds.flatMap Definition.tokens ++ [.endOfInput]))
    (hds : ∀ d ∈ ds, Definition.read (d.tokens.map (⟨·, 0⟩)) = .ok d []) :
    IsDocument source ds := by
  obtain ⟨toks, htoks, hmap⟩ := Option.map_eq_some_iff.1 h
  exact ⟨toks, eq_ok_of_toOption htoks, hmap, fun d hd => Definition.wellFormed_of_read (hds d hd)⟩

/-- **A document is accepted exactly if its definitions make up a schema,** and then with that
schema. -/
theorem IsDocument.parse_eq_ok_iff_admissible {source : String} {ds : List Definition}
    (h : IsDocument source ds) (schema : Schema) :
    parse source = .ok schema ↔ Admissible ds ∧ schema = schemaOf ds := by
  obtain ⟨toks, htoks, hspells, hds⟩ := h
  obtain ⟨e, hspells, he⟩ := exists_spells_of_map hspells
  have hend : atEnd [e] = true := by simp [atEnd, he]
  rw [parse_of_tokenize htoks, result_readFrom_eq_ok_iff (by simp [Schema.names]) hds hspells hend,
    List.append_nil, finish_gather_eq_ok_iff, names_gather]
  constructor
  · intro h
    obtain ⟨hnames, hnonempty, hschema⟩ := h
    exact ⟨⟨by simpa [Schema.names] using hnames, hnonempty⟩, hschema⟩
  · intro h
    obtain ⟨⟨hnames, hnonempty⟩, hschema⟩ := h
    exact ⟨by simpa [Schema.names] using hnames, hnonempty, hschema⟩

/-- **Parser exactness:** a text is accepted with a schema if and only if its tokens are written
with definitions of the grammar whose tables have different names and that declare something, and
the schema is what they mean. -/
theorem parse_eq_ok_iff (source : String) (schema : Schema) :
    parse source = .ok schema ↔
      ∃ ds, IsDocument source ds ∧ Admissible ds ∧ schema = schemaOf ds := by
  constructor
  · intro h
    obtain ⟨ds, hds⟩ := exists_isDocument_of_parse h
    exact ⟨ds, hds, (hds.parse_eq_ok_iff_admissible schema).1 h⟩
  · intro h
    obtain ⟨ds, hds, h⟩ := h
    exact (hds.parse_eq_ok_iff_admissible schema).2 h

end Document

end SchemaDiagram
