/-
The names of tables over any number of runs of one reader
(`tableNames_of_runs`).

A reader that has failed may be used again: it goes on behind the token where it
stopped, with the aliases it knows. The names of tables are gathered anew in
every run, so what holds of them holds from any place of any tokens. One round
of the loop either adds a table whose name is new or stops right behind one
whose name is there already; by induction the names stay distinct, and where a
run stops for a name it has read two complete tables of that name.
-/
import SchemaDiagram.Proofs.Concatenation

namespace SchemaDiagram

/-- Where no two tables have one name, each is found by its own. -/
theorem Schema.table?_of_nodup {s : Schema} (h : s.names.Nodup) {t : Table} (ht : t ∈ s.tables) :
    s.table? t.name = some t := by
  obtain ⟨before, after, hsplit⟩ := List.append_of_mem ht
  rw [names, hsplit, List.map_append, List.map_cons, List.nodup_append] at h
  obtain ⟨-, -, hdisjoint⟩ := h
  rw [table?, List.find?_eq_some_iff_append]
  refine ⟨by simp, before, after, hsplit, fun u hu => ?_⟩
  have hne := hdisjoint u.name (List.mem_map_of_mem hu) t.name List.mem_cons_self
  simpa using hne

namespace Document

variable {schema result : Schema} {aliases : Aliases} {toks rest : List Located} {name : String}
  {line : Nat}

/-! ## One run -/

/-- A schema that is accepted has no two tables of one name. -/
theorem nodup_names_of_readFrom (hnames : schema.names.Nodup)
    (h : (readFrom schema aliases toks).result = .ok result) : result.names.Nodup := by
  fun_induction readFrom schema aliases toks with
  | case1 schema aliases toks =>
    have hfinish : finish aliases schema = .ok result := h
    unfold finish at hfinish
    split at hfinish
    · cases hfinish
    · cases hfinish
      exact hnames
  | case2 => cases h
  | case3 => cases h
  | case4 schema aliases toks _ d rest _ schema' hextend ih =>
    obtain ⟨hnew, rfl⟩ := (extend_eq_ok_iff hnames).1 hextend
    exact ih hnew h

theorem Definition.line_of_read {b : TableBlock} (h : Definition.read toks = .ok (.table b) rest) :
    b.head.line = lineOf toks := by
  unfold Definition.read at h
  split at h
  · obtain ⟨b', hb, he⟩ := Step.map_eq_ok_iff.1 h
    cases he
    obtain ⟨head, r, hhead, hbody⟩ := Step.bind_eq_ok_iff.1 hb
    obtain ⟨rfl, -⟩ := TableBlock.spells_of_readBody hbody
    exact (TableHead.spells_of_read hhead).2.2
  · split at h
    · obtain ⟨g, -, he⟩ := Step.map_eq_ok_iff.1 h
      cases he
    · split at h
      · obtain ⟨s, -, he⟩ := Step.map_eq_ok_iff.1 h
        cases he
      · cases h

/-- The tokens up to `rest` are those of definitions and of a table behind them, whose keyword stands
on the line. -/
structure EndsInTable (toks : List Located) (ds : List Definition) (b : TableBlock) (line : Nat)
    (rest : List Located) : Prop where
  definitions : ∀ d ∈ ds, d.WellFormed
  table : b.WellFormed
  spells : ∃ mid, Spells toks (ds.flatMap Definition.tokens) mid ∧ Spells mid b.tokens rest ∧
    mid.head? = some ⟨.word b.head.keyword, line⟩

theorem EndsInTable.of_read {b : TableBlock} (h : Definition.read toks = .ok (.table b) rest) :
    EndsInTable toks [] b b.head.line rest := by
  have hspells : Spells toks b.tokens rest := Definition.spells_of_read h
  obtain ⟨t, toks', rfl, ht, -⟩ := spells_cons_iff.1 hspells
  have hline : b.head.line = t.line := Definition.line_of_read h
  refine ⟨by simp, Definition.wellFormed_of_read h, _, .nil, hspells, ?_⟩
  rw [hline, ← ht]
  rfl

theorem EndsInTable.cons {mid : List Located} {d : Definition} {ds : List Definition}
    {b : TableBlock} (hread : Definition.read toks = .ok d mid)
    (h : EndsInTable mid ds b line rest) : EndsInTable toks (d :: ds) b line rest := by
  obtain ⟨mid', hds, hb, hline⟩ := h.spells
  exact ⟨List.forall_mem_cons.2 ⟨Definition.wellFormed_of_read hread, h.definitions⟩, h.table, mid',
    (Definition.spells_of_read hread).append hds, hb, hline⟩

/-- A run that stops for a name has gathered a table of that name, and stops behind another one. -/
theorem exists_endsInTable_of_readFrom (hnames : schema.names.Nodup)
    (h : (readFrom schema aliases toks).result = .error (.duplicateTable name line)) :
    ∃ ds later, EndsInTable toks ds later line (readFrom schema aliases toks).reader.rest ∧
      later.name = name ∧ (gather schema ds).names.Nodup ∧ name ∈ (gather schema ds).names := by
  fun_induction readFrom schema aliases toks with
  | case1 schema aliases toks =>
    have hfinish : finish aliases schema = .error (.duplicateTable name line) := h
    cases eq_noDefinitions_of_finish_error hfinish
  | case2 schema aliases toks _ cause rest hread =>
    obtain ⟨front, -, hstops⟩ := Definition.stopsAt_of_read hread
    have hcause : cause = .duplicateTable name line := by injection h
    rw [hcause] at hstops
    exact absurd hstops id
  | case3 schema aliases toks _ d rest hread cause hextend =>
    obtain ⟨later, rfl, rfl, hmem⟩ := exists_table_of_extend_error hextend
    cases h
    rw [← gather_nil schema] at hnames hmem
    exact ⟨[], later, .of_read hread, rfl, hnames, hmem⟩
  | case4 schema aliases toks _ d rest hread schema' hextend ih =>
    obtain ⟨hnew, rfl⟩ := (extend_eq_ok_iff hnames).1 hextend
    obtain ⟨ds, later, hends, hname, hall, hmem⟩ := ih hnew h
    rw [← gather_cons] at hall hmem
    exact ⟨d :: ds, later, hends.cons hread, hname, hall, hmem⟩

/-! ## Many runs -/

namespace Reader

/-- The reader that is left behind a number of runs, whether they succeed or fail. -/
def afterRuns (r : Reader) : Nat → Reader
  | 0 => r
  | n + 1 => (r.afterRuns n).run.reader

theorem rest_afterRuns_isSuffix (r : Reader) (n : Nat) : (r.afterRuns n).rest <:+ r.rest := by
  induction n with
  | zero => exact List.suffix_rfl
  | succ n ih => exact (rest_readFrom_isSuffix _ _ _).trans ih

/-- **Names of tables are unique, and a second table of a name is refused where it stands, in every run
of a reader.** After any number of runs on a text, a schema that is read has no two tables of one name,
so each table is found by its name; and where a run stops for a name, it has read a complete table of
that name, then further definitions, and last another complete table of that name, on the line that is
reported, while all tables in front of that one have different names. -/
theorem tableNames_of_runs {source : String} {toks : List Located}
    (htokens : tokenize source = .ok toks) :
    ∃ r, ofSource source = .ok r ∧ ∀ n,
      (r.afterRuns n).rest <:+ toks ∧
      (∀ schema, (r.afterRuns n).run.result = .ok schema →
        schema.names.Nodup ∧ ∀ t ∈ schema.tables, schema.table? t.name = some t) ∧
      ∀ name line, (r.afterRuns n).run.result = .error (.duplicateTable name line) →
        ∃ before first between later,
          EndsInTable (r.afterRuns n).rest (before ++ .table first :: between) later line
            (r.afterRuns (n + 1)).rest ∧
          first.name = name ∧ later.name = name ∧
          (tableNames (before ++ .table first :: between)).Nodup := by
  have hempty : (⟨[], []⟩ : Schema).names.Nodup := List.nodup_nil
  refine ⟨⟨toks, []⟩, by simp [ofSource, htokens], fun n => ⟨rest_afterRuns_isSuffix _ n, ?_, ?_⟩⟩
  · intro schema h
    have hnames := nodup_names_of_readFrom hempty h
    exact ⟨hnames, fun t ht => schema.table?_of_nodup hnames ht⟩
  · intro name line h
    obtain ⟨ds, later, hends, hlater, hnames, hmem⟩ := exists_endsInTable_of_readFrom hempty h
    rw [names_gather] at hnames hmem
    obtain ⟨first, hfirst, hname⟩ := List.mem_map.1 hmem
    obtain ⟨bs, bs', hblocks⟩ := List.append_of_mem hfirst
    obtain ⟨before, between, rfl, -⟩ := exists_split_of_tableBlocks hblocks
    exact ⟨before, first, between, later, hends, hname, hlater, hnames⟩

/-- The first run stops in front of a table, the second one behind a table whose name is spelled in two
ways, and the third one reads what is left. -/
theorem tableNames_of_runs_threeRuns :
    ∃ r, ofSource "Ref x\nTable \"s.b\" \x7b \x7d\nTable s.b \x7b \x7d Table a \x7b \x7d" = .ok r ∧
      r.run.result = .error (.unexpected (.word "Table") .referencesOpen 2) ∧
      (r.afterRuns 1).run.result = .error (.duplicateTable "s.b" 3) ∧
      (∃ before first between later,
        EndsInTable (r.afterRuns 1).rest (before ++ .table first :: between) later 3
          (r.afterRuns 2).rest ∧ first.name = "s.b" ∧ later.name = "s.b") ∧
      (r.afterRuns 2).run.result = .ok ⟨[⟨"a", []⟩], []⟩ ∧ ["a"].Nodup := by
  let toks : List Located := [⟨.word "Ref", 1⟩, ⟨.word "x", 1⟩,
    ⟨.word "Table", 2⟩, ⟨.quoted "s.b", 2⟩, ⟨.mark .leftBrace, 2⟩, ⟨.mark .rightBrace, 2⟩,
    ⟨.word "Table", 3⟩, ⟨.word "s", 3⟩, ⟨.mark .dot, 3⟩, ⟨.word "b", 3⟩, ⟨.mark .leftBrace, 3⟩,
    ⟨.mark .rightBrace, 3⟩, ⟨.word "Table", 3⟩, ⟨.word "a", 3⟩, ⟨.mark .leftBrace, 3⟩,
    ⟨.mark .rightBrace, 3⟩, ⟨.endOfInput, 3⟩]
  have htokens : tokenize "Ref x\nTable \"s.b\" \x7b \x7d\nTable s.b \x7b \x7d Table a \x7b \x7d" =
      .ok toks := eq_ok_of_toOption (by decide +kernel)
  obtain ⟨r, hr, hruns⟩ := tableNames_of_runs htokens
  obtain rfl : (⟨toks, []⟩ : Reader) = r := by simpa [ofSource, htokens] using hr
  have hsecond : (afterRuns ⟨toks, []⟩ 1).run.result = .error (.duplicateTable "s.b" 3) :=
    eq_error_of_cause? (by decide +kernel)
  have hthird : (afterRuns ⟨toks, []⟩ 2).run.result = .ok ⟨[⟨"a", []⟩], []⟩ :=
    eq_ok_of_toOption (by decide +kernel)
  obtain ⟨before, first, between, later, hends, hfirst, hlater, -⟩ := (hruns 1).2.2 _ _ hsecond
  exact ⟨_, hr, eq_error_of_cause? (by decide +kernel), hsecond,
    ⟨before, first, between, later, hends, hfirst, hlater⟩, hthird, ((hruns 2).2.1 _ hthird).1⟩

end Reader

end Document

end SchemaDiagram
