/-
What two texts share that have the same diagram, and which definitions can be
written down.

Of the attributes of a column a diagram shows one thing only, whether they make
it a primary key; and the warnings do not look at columns at all. So a schema
counts for its conversions only by its skeleton (`Converter.convert_congr`).

On the other side, rewritten definitions are the tokens of some text whenever
each of their tokens has a written form: one token a line will do. Tokens that
are taken from a text have one.
-/
import SchemaDiagram.Converter
import SchemaDiagram.Proofs.Restriction
import SchemaDiagram.Proofs.RoundTrip
import SchemaDiagram.Proofs.TextJoins

namespace SchemaDiagram

/-! ## What a diagram shows of a schema -/

/-- A column with no more attributes than a diagram shows. -/
def Column.skeleton (c : Column) : Column :=
  { c with attributes := if c.isPrimaryKey then ["pk"] else [] }

def Table.skeleton (t : Table) : Table := { t with columns := t.columns.map Column.skeleton }

def Schema.skeleton (s : Schema) : Schema := { s with tables := s.tables.map Table.skeleton }

theorem Column.isPrimaryKey_skeleton (c : Column) : c.skeleton.isPrimaryKey = c.isPrimaryKey := by
  have hmarked : ∀ name type, (⟨name, type, ["pk"]⟩ : Column).isPrimaryKey = true := fun _ _ => by
    simp [isPrimaryKey, Text.sameWord_refl]
  rw [skeleton]
  by_cases h : c.isPrimaryKey = true
  · rw [if_pos h, hmarked, h]
  · rw [if_neg h, Bool.eq_false_iff.2 h]
    rfl

/-- Schemas of the same skeleton have tables of the same names and the same relationships. -/
theorem Schema.names_of_skeleton {s s' : Schema} (h : s'.skeleton = s.skeleton) :
    s'.names = s.names := by
  have hskeleton (s : Schema) : s.names = s.skeleton.names := by
    simp only [names, skeleton, List.map_map]
    rfl
  rw [hskeleton, h, ← hskeleton]

theorem Schema.relationships_of_skeleton {s s' : Schema} (h : s'.skeleton = s.skeleton) :
    s'.relationships = s.relationships := by
  have hskeleton (s : Schema) : s.relationships = s.skeleton.relationships := rfl
  rw [hskeleton, h, ← hskeleton]

theorem Schema.isUnresolved_skeleton (s : Schema) (r : Relationship) :
    s.skeleton.isUnresolved r = s.isUnresolved r := by
  have hdeclares (name : String) : s.skeleton.declares name = s.declares name := by
    simp only [declares, skeleton, List.any_map]
    rfl
  rw [isUnresolved, isUnresolved, hdeclares, hdeclares]

theorem Config.restrict_skeleton (c : Config) (s : Schema) :
    c.restrict s.skeleton = (c.restrict s).skeleton := by
  simp only [restrict, Schema.skeleton, List.filter_map]
  rfl

namespace Diagram

theorem columnLine_skeleton (table : String) (rs : List Relationship) (c : Column) :
    columnLine table rs c.skeleton = columnLine table rs c := by
  rw [columnLine, columnLine, keyMarker?, keyMarker?, Column.isPrimaryKey_skeleton]
  rfl

theorem tableLines_skeleton (rs : List Relationship) (t : Table) :
    tableLines rs t.skeleton = tableLines rs t := by
  have hcolumns : t.skeleton.columns.map (columnLine t.name rs) =
      t.columns.map (columnLine t.name rs) := by
    rw [Table.skeleton, List.map_map]
    exact List.map_congr_left fun c _ => columnLine_skeleton t.name rs c
  have hname : t.skeleton.name = t.name := rfl
  rw [tableLines, tableLines, hname, hcolumns]

theorem schemaLines_skeleton (s : Schema) : schemaLines s.skeleton = schemaLines s := by
  simp only [schemaLines, Schema.skeleton, List.flatMap_map, tableLines_skeleton]

theorem render_skeleton (registry : Registry) (config : Config) (s : Schema) :
    render registry config s.skeleton = render registry config s := by
  rw [render_eq, render_eq, Config.restrict_skeleton, schemaLines_skeleton]

theorem warningEvents_skeleton (config : Config) (s : Schema) :
    warningEvents config s.skeleton = warningEvents config s := by
  have hunresolved (s : Schema) : s.skeleton.unresolved = s.unresolved :=
    List.filter_congr fun r _ => s.isUnresolved_skeleton r
  rw [warningEvents_eq, warningEvents_eq, Config.restrict_skeleton, hunresolved]

end Diagram

/-! ## Conversions -/

namespace Document

theorem level_ne_warn_of_readFrom (schema : Schema) (aliases : Aliases) (toks : List Located) :
    ∀ e ∈ (readFrom schema aliases toks).events, e.level ≠ .warn := by
  fun_induction readFrom schema aliases toks with
  | case1 schema aliases toks hend result =>
    intro e he
    cases hresult : result with
    | ok s =>
      simp only [hresult, finishEvents, List.mem_singleton] at he
      rw [he]
      exact Level.noConfusion
    | error cause => simp [hresult, finishEvents] at he
  | case2 schema aliases toks hend cause rest hread =>
    intro e he
    simp only [Definition.eventsBroken] at he
    split at he
    · cases he
    · obtain ⟨k, -, rfl⟩ := List.mem_map.1 he
      exact Level.noConfusion
  | case3 => exact fun e he => by cases he
  | case4 schema aliases toks hend d rest hread schema' hextend ih =>
    intro e he
    obtain he | he := List.mem_append.1 he
    · cases d with
      | table b =>
        rw [List.mem_singleton.1 he]
        exact Level.noConfusion
      | references g => cases he
      | skipped s =>
        rw [List.mem_singleton.1 he]
        exact Level.noConfusion
    · exact ih e he

/-- Nothing that happens while a text is read is a warning. -/
theorem level_ne_warn_of_parse (source : String) :
    ∀ e ∈ (parseWithEvents source).2, e.level ≠ .warn := by
  unfold parseWithEvents
  split
  · simp
  · exact level_ne_warn_of_readFrom _ _ _

end Document

namespace Converter

/-- The warnings among what happens while a document is converted. -/
def warnings (c : Converter) (source : String) : List Event :=
  (c.events source).filter fun e => e.level = .warn

theorem warnings_of_parse {source : String} {schema : Schema} (c : Converter)
    (h : Document.parse source = .ok schema) :
    c.warnings source = Diagram.warningEvents c.config schema := by
  have hnone : (Document.parseWithEvents source).2.filter (fun e => e.level = .warn) = [] := by
    rw [List.filter_eq_nil_iff]
    intro e he
    simpa using Document.level_ne_warn_of_parse source e he
  have hevents : c.events source =
      (Document.parseWithEvents source).2 ++ Diagram.events c.config schema := by
    have hresult : (Document.parseWithEvents source).1 = .ok schema := h
    simp only [Converter.events, hresult]
  rw [warnings, hevents, List.filter_append, hnone, List.nil_append]
  rfl

/-- **Texts whose schemas have the same skeleton are converted alike.** -/
theorem convert_congr {source source' : String} {s s' : Schema}
    (h : Document.parse source = .ok s) (h' : Document.parse source' = .ok s')
    (hskeleton : s'.skeleton = s.skeleton) (c : Converter) :
    c.convert source' = c.convert source ∧ c.warnings source' = c.warnings source := by
  have hrender : c.render s' = c.render s := by
    rw [render, render, ← Diagram.render_skeleton, hskeleton, Diagram.render_skeleton]
  constructor
  · simp only [convert, h, h', convertSchema, hrender]
  · rw [warnings_of_parse c h, warnings_of_parse c h', ← Diagram.warningEvents_skeleton, hskeleton,
      Diagram.warningEvents_skeleton]

end Converter

/-! ## Texts of definitions -/

/-- A token that can be written down. -/
def HasLexeme (t : Token) : Prop := ∃ text, IsLexeme t text

@[simp] theorem hasLexeme_mark (m : Mark) : HasLexeme (.mark m) := ⟨_, isLexeme_mark m⟩

/-- Tokens that can be written down, one after the other. -/
def Writable (toks : List Token) : Prop := ∀ t ∈ toks, HasLexeme t

@[simp] theorem writable_nil : Writable [] := by simp [Writable]

@[simp] theorem writable_cons {t : Token} {toks : List Token} :
    Writable (t :: toks) ↔ HasLexeme t ∧ Writable toks := by simp [Writable]

@[simp] theorem writable_append {a b : List Token} :
    Writable (a ++ b) ↔ Writable a ∧ Writable b := List.forall_mem_append

@[simp] theorem writable_flatMap {α : Type} {f : α → List Token} {xs : List α} :
    Writable (xs.flatMap f) ↔ ∀ x ∈ xs, Writable (f x) := by
  induction xs with
  | nil => simp
  | cons x xs ih => simp [ih]

theorem Cursor.Reads.hasLexeme {c c' : Cursor} {x : List Located} (h : Cursor.Reads c x c') :
    ∀ t ∈ x, HasLexeme t.token := by
  induction h with
  | done => simp
  | more hn ht _ ih =>
    obtain ⟨-, text, -, -, hlex, -⟩ := Cursor.isLexeme_of_next hn ht
    exact List.forall_mem_cons.2 ⟨⟨text, hlex⟩, ih⟩

namespace Document

/-- The tokens of a text are those of the definitions. -/
def IsWritten (source : String) (ds : List Definition) : Prop :=
  ∃ toks, tokenize source = .ok toks ∧
    toks.map Located.token = ds.flatMap Definition.tokens ++ [.endOfInput]

theorem IsWritten.isDocument {source : String} {ds : List Definition} (h : IsWritten source ds)
    (hds : ∀ d ∈ ds, d.WellFormed) : IsDocument source ds := by
  obtain ⟨toks, htoks, hmap⟩ := h
  exact ⟨toks, htoks, hmap, hds⟩

theorem IsDocument.isWritten {source : String} {ds : List Definition} (h : IsDocument source ds) :
    IsWritten source ds := by
  obtain ⟨toks, htoks, hmap, -⟩ := h
  exact ⟨toks, htoks, hmap⟩

theorem IsDocument.writable {source : String} {ds : List Definition} (h : IsDocument source ds) :
    Writable (ds.flatMap Definition.tokens) := by
  obtain ⟨toks, htoks, hmap, -⟩ := h
  obtain ⟨x, c, e, c', hreads, -, he, rfl⟩ := Cursor.tokens_eq_ok_iff.1 htoks
  rw [List.map_append] at hmap
  obtain ⟨hx, -⟩ := List.append_inj' hmap rfl
  intro t ht
  rw [← hx] at ht
  obtain ⟨u, hu, rfl⟩ := List.mem_map.1 ht
  exact hreads.hasLexeme u hu

theorem WritesLines.of_isLexeme {t : Token} {text : List Char} (h : IsLexeme t text) :
    WritesLines (text ++ ['\n']) [t] := by
  intro lay rest line hlay
  have hends : Ends t text ('\n' :: rest) :=
    (Ends.nil t text).append_endsLine (s := '\n' :: rest) fun c hc => (Option.some.inj hc).symm
  have hnext := Cursor.next_of_isLexeme line hlay h hends
  exact ⟨[_], ['\n'], _, .blank (by decide) .nil,
    by simpa using Cursor.Reads.more hnext h.ne_endOfInput (.done _), rfl⟩

theorem exists_writesLines {toks : List Token} (h : Writable toks) :
    ∃ text, WritesLines text toks := by
  induction toks with
  | nil => exact ⟨[], .nil⟩
  | cons t toks ih =>
    obtain ⟨⟨text, htext⟩, hmore⟩ := writable_cons.1 h
    obtain ⟨more, hmore⟩ := ih hmore
    exact ⟨_, (WritesLines.of_isLexeme htext).append hmore⟩

/-- Definitions whose tokens can be written down make up some text. -/
theorem exists_isDocument_of_writable {ds : List Definition}
    (h : Writable (ds.flatMap Definition.tokens)) (hds : ∀ d ∈ ds, d.WellFormed) :
    ∃ source, IsDocument source ds := by
  obtain ⟨text, htext⟩ := exists_writesLines h
  refine ⟨String.ofList text, isDocument_of_writesLines ?_ hds⟩
  rwa [String.toList_ofList]

/-! ### Parts of definitions -/

/-- A setting that makes its column a primary key. -/
def Setting.isKey (s : Setting) : Bool :=
  Text.sameWord s.text "pk" || Text.sameWord s.text "primary key"

theorem Setting.isKey_reference (keyword : String) (cardinality : Cardinality)
    (target : Endpoint) : isKey (.reference keyword cardinality target) = false := by
  simp [isKey, text, Text.sameWord, String.toList_append]

theorem ColumnLine.isPrimaryKey_column (c : ColumnLine) :
    c.column.isPrimaryKey = c.items.any Setting.isKey := by
  simp only [Column.isPrimaryKey, column, List.any_map]
  rfl

/-- Columns of one name and type have the same skeleton if they are primary keys alike. -/
theorem ColumnLine.skeleton_congr {c c' : ColumnLine} (hname : c'.name = c.name)
    (htype : c'.type = c.type) (hkey : c'.items.any Setting.isKey = c.items.any Setting.isKey) :
    c'.column.skeleton = c.column.skeleton := by
  rw [Column.skeleton, Column.skeleton, isPrimaryKey_column, isPrimaryKey_column, hkey, column,
    column, hname, htype]

/-- Tables of one name have the same skeleton if their columns have, one by one. -/
theorem TableBlock.skeleton_congr {b b' : TableBlock} {f : ColumnLine → ColumnLine}
    (hname : b'.name = b.name) (hcolumns : b'.columnLines = b.columnLines.map f)
    (hf : ∀ c, (f c).column.skeleton = c.column.skeleton) :
    b'.table.skeleton = b.table.skeleton := by
  have hskeletons : (b'.columnLines.map ColumnLine.column).map Column.skeleton =
      (b.columnLines.map ColumnLine.column).map Column.skeleton := by
    rw [hcolumns, List.map_map, List.map_map, List.map_map]
    exact List.map_congr_left fun c _ => hf c
  rw [Table.skeleton, Table.skeleton, table, table, hskeletons, hname]

theorem TableBlock.exists_column_of_mem_columnLines {b : TableBlock} {c : ColumnLine}
    (h : c ∈ b.columnLines) : .column c ∈ b.members := by
  obtain ⟨m, hm, hc⟩ := List.mem_filterMap.1 h
  cases m with
  | column line =>
    cases hc
    exact hm
  | note | block => cases hc

theorem Settings.writable_listTokens (trailing : Bool) (items : List Setting) :
    Writable (listTokens trailing items) ↔ ∀ s ∈ items, Writable s.tokens := by
  fun_induction listTokens trailing items with
  | case1 => simp
  | case2 s => cases trailing <;> simp
  | case3 s more hmore ih => simp [ih]

theorem ColumnLine.writable_tokens (c : ColumnLine) : Writable c.tokens ↔
    HasLexeme c.name.token ∧ Writable c.type.tokens ∧ ∀ s ∈ c.items, Writable s.tokens := by
  cases hs : c.settings <;>
    simp [tokens, items, hs, Settings.optionalTokens, Settings.tokens, Settings.innerTokens,
      Settings.writable_listTokens]

theorem Endpoint.writable_tokens (e : Endpoint) :
    Writable e.tokens ↔ Writable e.table.tokens ∧ HasLexeme e.field.token := by
  simp [tokens]

/-! ## Rewritten texts -/

/-- **A text whose definitions are replaced by others of the same skeleton** can be written down,
and it is read and converted as before. -/
theorem parse_of_skeleton {source : String} {schema : Schema} {ds : List Definition}
    (hparse : parse source = .ok schema) (hwell : ∀ d ∈ ds, d.WellFormed)
    (hwritable : Writable (ds.flatMap Definition.tokens))
    (hskeleton : (schemaOf ds).skeleton = schema.skeleton) :
    (∃ source', IsWritten source' ds) ∧ ∀ source', IsWritten source' ds →
      parse source' = .ok (schemaOf ds) ∧
        ∀ c : Converter, c.convert source' = c.convert source ∧
          c.warnings source' = c.warnings source := by
  obtain ⟨ds', hdocument⟩ := exists_isDocument_of_parse hparse
  obtain ⟨hadmissible, rfl⟩ := (hdocument.parse_eq_ok_iff_admissible schema).1 hparse
  have hnames := Schema.names_of_skeleton hskeleton
  have hadmissible' : Admissible ds := by
    constructor
    · rw [← names_schemaOf, hnames, names_schemaOf]
      exact hadmissible.names
    · rw [Schema.relationships_of_skeleton hskeleton]
      refine hadmissible.nonempty.imp_left fun hne hnil => hne ?_
      rw [Schema.names, Schema.names, hnil] at hnames
      exact List.map_eq_nil_iff.1 hnames.symm
  refine ⟨?_, fun source' hwritten => ?_⟩
  · obtain ⟨source', hdocument'⟩ := exists_isDocument_of_writable hwritable hwell
    exact ⟨source', hdocument'.isWritten⟩
  · have hparse' := ((hwritten.isDocument hwell).parse_eq_ok_iff_admissible _).2 ⟨hadmissible', rfl⟩
    exact ⟨hparse', fun c => c.convert_congr hparse hparse' hskeleton⟩

end Document

end SchemaDiagram
