/-
Where an inline reference starts (`inline_reference_starts_at_column_iff`).

A reference in the settings of a column is written down with the name of its
own table, and then renamed like every other relationship: the pass that
replaces aliases does not tell the name of a table from an alias. So it starts
at its own table unless that table's name is the alias of another one, and of
several tables with that alias the last one counts.
-/
import SchemaDiagram.Diagram
import SchemaDiagram.Proofs.Exactness

namespace SchemaDiagram.Document

/-! ## Aliases -/

/-- What a table is called besides its name. -/
def TableBlock.alias? (b : TableBlock) : Option String :=
  b.head.shortName.map fun (_, short) => short.text

/-- The last table that has the name as its alias. -/
def lastWithAlias? (ds : List Definition) (name : String) : Option TableBlock :=
  (tableBlocks ds).reverse.find? fun b => b.alias? == some name

theorem lookup_aliases (b : TableBlock) (name : String) :
    List.lookup name (TableBlock.aliases b.head) =
      if b.alias? = some name then some b.name else none := by
  rcases hs : b.head.shortName with _ | ⟨word, short⟩
  · simp [TableBlock.aliases, TableBlock.alias?, hs]
  · have haliases : TableBlock.aliases b.head = [(short.text, b.name)] := by
      simp [TableBlock.aliases, TableBlock.name, hs]
    have halias : b.alias? = some short.text := by simp [TableBlock.alias?, hs]
    rw [haliases, halias]
    by_cases he : short.text = name
    · simp [he]
    · have hne : (name == short.text) = false := beq_false_of_ne fun h => he h.symm
      simp [List.lookup_cons, hne, he]

/-- An alias stands for the last table that has it. -/
theorem lookup_aliasesOf (ds : List Definition) (name : String) :
    (aliasesOf ds).lookup name = (lastWithAlias? ds name).map TableBlock.name := by
  induction ds with
  | nil => rfl
  | cons d ds ih =>
    rw [aliasesOf_cons, List.lookup_append, ih, lastWithAlias?, lastWithAlias?]
    cases d with
    | table b =>
      rw [tableBlocks_table, List.reverse_cons, List.find?_append, Definition.aliases, lookup_aliases]
      by_cases hb : b.alias? = some name
      · cases (tableBlocks ds).reverse.find? (fun b => b.alias? == some name) <;> simp [hb]
      · cases (tableBlocks ds).reverse.find? (fun b => b.alias? == some name) <;> simp [hb]
    | references g => simp [Definition.aliases]
    | skipped s => simp [Definition.aliases]

theorem resolve_eq_self_iff (ds : List Definition) (name : String) :
    (aliasesOf ds).resolve name = name ↔ ∀ b, lastWithAlias? ds name = some b → b.name = name := by
  rw [Aliases.resolve, lookup_aliasesOf]
  cases lastWithAlias? ds name with
  | none => simp
  | some b => simp

/-! ## References in settings -/

def Setting.isReference : Setting → Bool
  | .reference .. => true
  | .plain _ => false

/-- How many relationships stand in front of the one of a reference: it is in the definition behind
`before`, there in the column behind `columns`, and there behind `settings`. -/
def inlineIndex (before : List Definition) (b : TableBlock) (columns : List ColumnLine)
    (settings : List Setting) : Nat :=
  (before.flatMap Definition.relationships).length +
    (columns.flatMap (ColumnLine.relationships b.name)).length + settings.countP Setting.isReference

variable {before after : List Definition} {b : TableBlock} {cs cs' : List ColumnLine}
  {c : ColumnLine} {ss ss' : List Setting} {keyword : String} {cardinality : Cardinality}
  {target : Endpoint}

/-- The relationships of a column around the one of a reference. -/
theorem exists_relationships_eq (table : String)
    (hsetting : c.items = ss ++ .reference keyword cardinality target :: ss') :
    ∃ front back, c.relationships table = front ++
        ⟨table, c.name.text, target.table.text, target.field.text, cardinality⟩ :: back ∧
      front.length = ss.countP Setting.isReference := by
  rw [ColumnLine.relationships, hsetting, List.filterMap_append]
  refine ⟨_, _, rfl, ?_⟩
  rw [List.length_filterMap_eq_countP]
  congr 1
  funext s
  cases s <;> rfl

/-- The relationship of a reference, before aliases are replaced. -/
theorem getElem?_relationships (hcolumn : b.columnLines = cs ++ c :: cs')
    (hsetting : c.items = ss ++ .reference keyword cardinality target :: ss') :
    ((before ++ .table b :: after).flatMap Definition.relationships)[inlineIndex before b cs ss]? =
      some ⟨b.name, c.name.text, target.table.text, target.field.text, cardinality⟩ := by
  obtain ⟨front, back, hline, hfront⟩ := exists_relationships_eq b.name hsetting
  have hblock : Definition.relationships (.table b) =
      (cs.flatMap (ColumnLine.relationships b.name) ++ front) ++
        ⟨b.name, c.name.text, target.table.text, target.field.text, cardinality⟩ ::
          (back ++ cs'.flatMap (ColumnLine.relationships b.name)) := by
    simp [Definition.relationships, TableBlock.relationships, hcolumn, hline]
  have hindex : inlineIndex before b cs ss = (before.flatMap Definition.relationships ++
      (cs.flatMap (ColumnLine.relationships b.name) ++ front)).length := by
    simp only [inlineIndex, List.length_append, hfront]
    omega
  rw [List.flatMap_append, List.flatMap_cons, hblock, hindex]
  simp

/-- **An inline reference starts at its own table and column if and only if the table's name is no
alias,** or the last table that has it as its alias is that table itself. -/
theorem inline_reference_starts_at_column_iff {source : String} {schema : Schema}
    (hdocument : IsDocument source (before ++ .table b :: after))
    (hparse : parse source = .ok schema) (hcolumn : b.columnLines = cs ++ c :: cs')
    (hsetting : c.items = ss ++ .reference keyword cardinality target :: ss') :
    ∃ r, schema.relationships[inlineIndex before b cs ss]? = some r ∧
      r.fromField = c.name.text ∧ r.toField = target.field.text ∧ r.cardinality = cardinality ∧
      (r.fromTable = b.name ↔
        ∀ t, lastWithAlias? (before ++ .table b :: after) b.name = some t → t.name = b.name) ∧
      (r.fromTable = b.name → r.touches b.name c.name.text = true ∧
        (c.column.isPrimaryKey = false →
          Diagram.keyMarker? b.name c.column schema.relationships = some .foreign)) := by
  obtain ⟨-, rfl⟩ := (hdocument.parse_eq_ok_iff_admissible schema).1 hparse
  let r : Relationship :=
    (aliasesOf (before ++ .table b :: after)).resolveEnds
      ⟨b.name, c.name.text, target.table.text, target.field.text, cardinality⟩
  have hr : (schemaOf (before ++ .table b :: after)).relationships[inlineIndex before b cs ss]? =
      some r := by
    simp only [schemaOf, List.getElem?_map, getElem?_relationships hcolumn hsetting]
    rfl
  refine ⟨r, hr, rfl, rfl, rfl, resolve_eq_self_iff _ b.name, ?_⟩
  intro hfrom
  have hfield : r.fromField = c.name.text := rfl
  have htouches : r.touches b.name c.name.text = true := by
    simp [Relationship.touches, hfrom, hfield]
  refine ⟨htouches, fun hprimary => ?_⟩
  have hany : (schemaOf (before ++ .table b :: after)).relationships.any
      (·.touches b.name c.column.name) = true :=
    List.any_eq_true.2 ⟨r, List.mem_of_getElem? hr, htouches⟩
  rw [Diagram.keyMarker?, hprimary, hany]
  rfl

/-- The name of the second table is the alias of the first one, so the reference in its column
starts at the first one. -/
theorem parse_renames_inline_reference :
    (parse ("Table users as posts \x7b id int \x7d\n" ++
        "Table posts \x7b user_id int [ref: > users.id] \x7d")).toOption =
      some ⟨[⟨"users", [⟨"id", "int", []⟩]⟩,
          ⟨"posts", [⟨"user_id", "int", ["ref: > users.id"]⟩]⟩],
        [⟨"users", "user_id", "users", "id", .manyToOne⟩]⟩ := by
  decide +kernel

theorem inline_reference_starts_at_alias : ∃ schema r,
    parse ("Table users as posts \x7b id int \x7d\n" ++
        "Table posts \x7b user_id int [ref: > users.id] \x7d") = .ok schema ∧
      schema.relationships[0]? = some r ∧ r.fromField = "user_id" ∧ r.fromTable ≠ "posts" := by
  let users : TableBlock := ⟨⟨"Table", 0, ⟨.bare "users", []⟩, some ("as", .bare "posts")⟩, none,
    [.column ⟨.bare "id", ⟨⟨.bare "int", []⟩, none, false⟩, none⟩]⟩
  let column : ColumnLine := ⟨.bare "user_id", ⟨⟨.bare "int", []⟩, none, false⟩,
    some ⟨[.reference "ref" .manyToOne ⟨⟨.bare "users", []⟩, .bare "id"⟩], false⟩⟩
  let posts : TableBlock := ⟨⟨"Table", 0, ⟨.bare "posts", []⟩, none⟩, none, [.column column]⟩
  have hdocument : IsDocument ("Table users as posts \x7b id int \x7d\n" ++
      "Table posts \x7b user_id int [ref: > users.id] \x7d") ([.table users] ++ .table posts :: []) :=
    isDocument_of_tokenize (by decide +kernel) (by decide +kernel)
  have hparse := (hdocument.parse_eq_ok_iff_admissible _).2
    ⟨⟨by decide +kernel, .inl (by decide +kernel)⟩, rfl⟩
  have hcolumn : posts.columnLines = [] ++ column :: [] := rfl
  have hsetting : column.items =
      [] ++ .reference "ref" .manyToOne ⟨⟨.bare "users", []⟩, .bare "id"⟩ :: [] := rfl
  obtain ⟨r, hr, hfield, -, -, hfrom, -⟩ :=
    inline_reference_starts_at_column_iff hdocument hparse hcolumn hsetting
  refine ⟨_, r, hparse, hr, hfield, fun hposts => ?_⟩
  have hlast : lastWithAlias? ([.table users] ++ .table posts :: []) posts.name = some users := by
    decide +kernel
  have hname : users.name = posts.name := hfrom.1 hposts users hlast
  revert hname
  decide +kernel

end SchemaDiagram.Document
