/-
What a configuration does to a diagram: it puts the directive of its theme in
front, and draws a part of the schema (`render_eq_directive_append`). The
diagram behind the directive and the warnings are those of that part without
any configuration, so what is left out has no trace in either.

Drawing less is easy to see of the blocks and of the lines of relationships.
The warnings are another matter: they are found in the whole schema and left
out afterwards. Both ways agree because a relationship is kept only with its two
tables, and a table that is kept is declared in the part if it is declared at
all (`declares_restrict`). For the same reason the warnings can be told from what
is drawn: there is one for each line between two tables of which one has no block
(`warningEvents_eq_lacksBlock`).
-/
import SchemaDiagram.Diagram

namespace SchemaDiagram

namespace Config

theorem restrict_default (s : Schema) : ({} : Config).restrict s = s := by
  have htables : s.tables.filter (fun t => ({} : Config).includes t.name) = s.tables :=
    List.filter_eq_self.2 fun _ _ => rfl
  have hrelationships : s.relationships.filter ({} : Config).keeps = s.relationships :=
    List.filter_eq_self.2 fun _ _ => rfl
  rw [restrict, htables, hrelationships]

theorem keeps_eq_true_iff {c : Config} {r : Relationship} :
    c.keeps r = true ↔ c.includes r.fromTable = true ∧ c.includes r.toTable = true := by
  simp [keeps]

theorem declares_restrict (c : Config) (s : Schema) (name : String) :
    (c.restrict s).declares name = (c.includes name && s.declares name) := by
  rw [Bool.eq_iff_iff]
  simp only [Schema.declares, restrict, List.any_filter, List.any_eq_true, Bool.and_eq_true,
    beq_iff_eq]
  constructor
  · rintro ⟨t, ht, hincluded, rfl⟩
    exact ⟨hincluded, t, ht, rfl⟩
  · rintro ⟨hincluded, t, ht, rfl⟩
    exact ⟨t, ht, hincluded, rfl⟩

/-- A relationship that is kept is unresolved in the part if and only if it is in the whole. -/
theorem isUnresolved_restrict {c : Config} {r : Relationship} (s : Schema)
    (hkept : c.keeps r = true) : (c.restrict s).isUnresolved r = s.isUnresolved r := by
  obtain ⟨hfrom, hto⟩ := keeps_eq_true_iff.1 hkept
  simp only [Schema.isUnresolved, declares_restrict, hfrom, hto, Bool.true_and]

theorem unresolved_restrict (c : Config) (s : Schema) :
    (c.restrict s).unresolved = s.unresolved.filter c.keeps := by
  simp only [Schema.unresolved, restrict, List.filter_filter]
  apply List.filter_congr
  intro r _
  by_cases hkept : c.keeps r = true
  · have hsame := isUnresolved_restrict s hkept
    rw [restrict] at hsame
    simp only [hkept, hsame, Bool.and_true, Bool.true_and]
  · simp only [Bool.eq_false_iff.2 hkept, Bool.and_false, Bool.false_and]

/-- A table that is left out adds nothing to the part that is drawn. -/
theorem restrict_table {c : Config} {t : Table} (before after : List Table)
    (relationships : List Relationship) (hout : c.includes t.name = false) :
    c.restrict ⟨before ++ t :: after, relationships⟩ = c.restrict ⟨before ++ after, relationships⟩ := by
  simp [restrict, hout]

/-- A relationship that is left out adds nothing to the part that is drawn. -/
theorem restrict_relationship {c : Config} {r : Relationship} (tables : List Table)
    (before after : List Relationship) (hout : c.keeps r = false) :
    c.restrict ⟨tables, before ++ r :: after⟩ = c.restrict ⟨tables, before ++ after⟩ := by
  simp [restrict, hout]

end Config

namespace Diagram

/-- The directive of the first preset for a theme, as a line; nothing if there is none. -/
def directiveText (registry : Registry) (theme : Theme) : String :=
  match registry.presets.find? (·.theme == theme) with
  | some preset => preset.directive ++ "\n"
  | none => ""

/-- The warnings among what happens while a schema is drawn. -/
def warningEvents (config : Config) (s : Schema) : List Event :=
  (events config s).filter fun e => e.level = .warn

theorem unlines_append (ls ls' : List String) : unlines (ls ++ ls') = unlines ls ++ unlines ls' := by
  simp [unlines]

theorem unlines_directiveLines (registry : Registry) (theme : Theme) :
    unlines (directiveLines registry theme) = directiveText registry theme := by
  simp only [directiveLines, directiveText, Registry.preset?]
  cases registry.presets.find? (·.theme == theme) with
  | none => rfl
  | some preset => simp [unlines]

theorem warningEvents_eq (config : Config) (s : Schema) :
    warningEvents config s = (config.restrict s).unresolved.map .undeclaredTable := by
  have hall (rs : List Relationship) :
      (rs.map Event.undeclaredTable).filter (fun e => e.level = .warn) =
        rs.map Event.undeclaredTable := by
    rw [List.filter_eq_self]
    intro e he
    obtain ⟨r, -, rfl⟩ := List.mem_map.1 he
    rfl
  rw [warningEvents, events, List.filter_append, hall, warnings, ← Config.unresolved_restrict]
  simp [Event.level]

/-- A diagram is made of the directive and the part of the schema that is drawn, and of nothing else. -/
theorem render_eq (registry : Registry) (config : Config) (s : Schema) :
    render registry config s =
      directiveText registry config.theme ++ unlines (schemaLines (config.restrict s)) := by
  rw [render, lines, unlines_append, unlines_directiveLines]

/-- **A configuration acts on a diagram only by a directive in front and by a restriction of the
schema.** The warnings are those of the restricted schema, a page around the diagram changes nothing,
and neither a table nor a relationship that is left out makes a difference, wherever it stands. -/
theorem render_eq_directive_append (registry : Registry) (config : Config) (s : Schema) :
    render registry config s =
        directiveText registry config.theme ++ render ⟨[]⟩ {} (config.restrict s) ∧
      warningEvents config s = warningEvents {} (config.restrict s) ∧
      (∀ html, render registry { config with html } s = render registry config s ∧
        warningEvents { config with html } s = warningEvents config s) ∧
      (∀ before t after, s.tables = before ++ t :: after → config.includes t.name = false →
        render registry config s = render registry config { s with tables := before ++ after } ∧
          warningEvents config s = warningEvents config { s with tables := before ++ after }) ∧
      ∀ before r after, s.relationships = before ++ r :: after →
        (config.includes r.fromTable = false ∨ config.includes r.toTable = false) →
          render registry config s =
              render registry config { s with relationships := before ++ after } ∧
            warningEvents config s =
              warningEvents config { s with relationships := before ++ after } := by
  refine ⟨?_, ?_, ?_, ?_, ?_⟩
  · have hnone : directiveText ⟨[]⟩ ({} : Config).theme = "" := rfl
    rw [render_eq ⟨[]⟩, hnone, Config.restrict_default, render_eq]
    simp
  · rw [warningEvents_eq, warningEvents_eq, Config.restrict_default]
  · intro html
    have hrestrict : ({ config with html } : Config).restrict s = config.restrict s := rfl
    rw [render_eq, render_eq, warningEvents_eq, warningEvents_eq, hrestrict]
    exact ⟨rfl, rfl⟩
  · intro before t after htables hout
    obtain ⟨tables, relationships⟩ := s
    obtain rfl : tables = before ++ t :: after := htables
    rw [render_eq, render_eq, warningEvents_eq, warningEvents_eq, Config.restrict_table _ _ _ hout]
    exact ⟨rfl, rfl⟩
  · intro before r after hrelationships hout
    obtain ⟨tables, relationships⟩ := s
    obtain rfl : relationships = before ++ r :: after := hrelationships
    have hkept : config.keeps r = false := by
      rcases hout with h | h <;> simp [Config.keeps, h]
    rw [render_eq, render_eq, warningEvents_eq, warningEvents_eq,
      Config.restrict_relationship _ _ _ hkept]
    exact ⟨rfl, rfl⟩

/-- Posts that point at users, at a table that is not declared and at other posts. -/
def blogSchema : Schema where
  tables := [⟨"users", [⟨"id", "int", []⟩]⟩,
    ⟨"posts", [⟨"id", "int", ["pk"]⟩, ⟨"user_id", "int", []⟩, ⟨"parent", "int", []⟩]⟩]
  relationships := [⟨"posts", "user_id", "users", "id", .manyToOne⟩,
    ⟨"posts", "parent", "posts", "id", .manyToOne⟩, ⟨"posts", "parent", "tags", "id", .oneToOne⟩]

def postsOnly : Config where
  theme := .default
  filter := some ⟨["posts", "tags"], by decide⟩

theorem render_eq_directive_append_blogSchema :
    postsOnly.includes "users" = false ∧
      render .builtin postsOnly blogSchema =
        render .builtin postsOnly { blogSchema with tables := blogSchema.tables.tail } ∧
      render .builtin postsOnly blogSchema =
        render .builtin postsOnly
          { blogSchema with relationships := blogSchema.relationships.tail } ∧
      (warningEvents postsOnly blogSchema).length = 1 ∧
      render .builtin postsOnly blogSchema =
        "erDiagram\n    posts \x7b\n        int id PK\n        int user_id\n        int parent FK\n" ++
          "    \x7d\n    posts \x7do--|| posts : \"parent > id\"\n" ++
          "    posts ||--|| tags : \"parent - id\"\n" := by
  have hout : postsOnly.includes "users" = false := by decide
  obtain ⟨hrender, hwarnings, -, htable, hrelationship⟩ :=
    render_eq_directive_append .builtin postsOnly blogSchema
  refine ⟨hout, (htable [] _ _ rfl hout).1, (hrelationship [] _ _ rfl (.inr hout)).1, ?_, ?_⟩
  · rw [hwarnings]
    decide +kernel
  · rw [hrender]
    decide +kernel

/-! ## Warnings and blocks -/

/-- Whether the diagram has a block for a table of the name. -/
def hasBlock (config : Config) (s : Schema) (name : String) : Bool :=
  (config.restrict s).tables.any (·.name == name)

/-- Whether the diagram has no block for one of the two tables of a relationship. -/
def lacksBlock (config : Config) (s : Schema) (r : Relationship) : Bool :=
  !(hasBlock config s r.fromTable && hasBlock config s r.toTable)

/-- Among the relationships that are drawn, the unresolved ones are those that lack a block. -/
theorem unresolved_restrict_eq (config : Config) (s : Schema) :
    (config.restrict s).unresolved =
      (config.restrict s).relationships.filter (lacksBlock config s) := rfl

/-- Of all that happens while a schema is drawn, only warnings are about a single relationship. -/
theorem undeclaredTable_mem_events_iff {config : Config} {s : Schema} {r : Relationship} :
    .undeclaredTable r ∈ events config s ↔ r ∈ warnings config s := by
  simp [events]

/-- **Warnings and diagram agree.** The lines of a diagram behind its blocks are those of the
relationships that are drawn. In their order there is one warning for each that has a table without a
block in the diagram, with the names of both tables and the label, and none for any other: neither for a
relationship that is left out nor for one whose tables both have a block. -/
theorem warningEvents_eq_lacksBlock (registry : Registry) (config : Config) (s : Schema) :
    lines registry config s = directiveLines registry config.theme ++ "erDiagram" ::
        ((config.restrict s).tables.flatMap (tableLines (config.restrict s).relationships) ++
          (config.restrict s).relationships.map relationshipLine) ∧
      warningEvents config s =
        ((config.restrict s).relationships.filter (lacksBlock config s)).map .undeclaredTable ∧
      (warningEvents config s).map Event.fields =
        ((config.restrict s).relationships.filter (lacksBlock config s)).map (fun r =>
          [("from", .text r.fromTable), ("to", .text r.toTable), ("relationship", .text r.label)]) ∧
      ∀ r, .undeclaredTable r ∈ events config s ↔
        r ∈ s.relationships ∧
          (config.includes r.fromTable = true ∧ config.includes r.toTable = true) ∧
          ¬ (hasBlock config s r.fromTable = true ∧ hasBlock config s r.toTable = true) := by
  have hwarnings : warningEvents config s =
      ((config.restrict s).relationships.filter (lacksBlock config s)).map .undeclaredTable := by
    rw [warningEvents_eq, unresolved_restrict_eq]
  refine ⟨rfl, hwarnings, ?_, fun r => ?_⟩
  · rw [hwarnings, List.map_map]
    rfl
  · have hlacks : lacksBlock config s r = true ↔
        ¬ (hasBlock config s r.fromTable = true ∧ hasBlock config s r.toTable = true) := by
      rw [lacksBlock, Bool.not_eq_true', ← Bool.not_eq_true, Bool.and_eq_true]
    rw [undeclaredTable_mem_events_iff, warnings, ← Config.unresolved_restrict, unresolved_restrict_eq,
      List.mem_filter, hlacks, Config.restrict, List.mem_filter, Config.keeps_eq_true_iff, and_assoc]

end Diagram

end SchemaDiagram
