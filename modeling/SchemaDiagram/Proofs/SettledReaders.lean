/-
Running one reader again and again, whatever its answers are: it goes forward or
stays, and once it stays it has settled (`runs_settle`).

A run is decided by the reader alone, and a run that takes no token leaves the
reader as it is: an alias is declared only behind the tokens of a table. So one
run that stays is repeated for ever. Since no run goes back and none goes beyond
the end of the input, the reader stays after at most as many runs as there are
tokens.
-/
import SchemaDiagram.Proofs.InputEnds
import SchemaDiagram.Proofs.TableNames

namespace SchemaDiagram.Document

variable {schema : Schema} {aliases : Aliases} {toks rest : List Located}

/-! ## A run that takes nothing -/

/-- A definition that is not read to its end, with its first token left, is no table. -/
theorem Definition.aliasesBroken_of_stays {cause : ParseError}
    (h : Definition.read toks = .error cause toks) : aliasesBroken toks = [] := by
  cases hword : afterKeyword? "table" toks with
  | none => rw [aliasesBroken, hword]
  | some found =>
    obtain ⟨keyword, rest⟩ := found
    have hlength := (spells_of_afterKeyword? hword).length_eq
    have hle := (TableBlock.local_read keyword (lineOf toks) rest).length_rest_le
    have hrest :
        (Definition.read toks).rest = (TableBlock.read keyword (lineOf toks) rest).rest := by
      simp only [Definition.read, hword, Step.rest_map]
    rw [h] at hrest
    rw [← hrest] at hle
    simp only [List.length_singleton, Step.rest] at hlength hle
    omega

/-- A run that takes no token learns no alias. -/
theorem reader_of_stays (h : (readFrom schema aliases toks).reader.rest = toks) :
    (readFrom schema aliases toks).reader = ⟨toks, aliases⟩ := by
  by_cases hend : atEnd toks = true
  · rw [readFrom, if_pos hend]
  rw [readFrom_of_not_atEnd _ _ hend] at h ⊢
  cases hread : Definition.read toks with
  | error cause rest =>
    rw [hread] at h
    obtain rfl : rest = toks := h
    simp only [Definition.aliasesBroken_of_stays hread, List.nil_append]
  | ok d rest =>
    -- A definition that is read takes tokens, and no later one puts them back.
    have hlt := (Definition.spells_of_read hread).length_lt d.tokens_ne_nil
    have hle : ∀ schema aliases, (readFrom schema aliases rest).reader.rest ≠ toks := by
      intro schema aliases he
      have hle := (rest_readFrom_isSuffix schema aliases rest).length_le
      rw [he] at hle
      omega
    rw [hread] at h
    simp only at h
    split at h
    · obtain rfl : rest = toks := h
      omega
    · exact absurd h (hle _ _)

/-! ## A run up to the end -/

/-- Behind a run that gives a schema, or finds nothing, the input is at its end. -/
theorem atEnd_of_result
    (h : ∀ cause, (readFrom schema aliases toks).result = .error cause → cause = .noDefinitions) :
    atEnd (readFrom schema aliases toks).reader.rest = true := by
  fun_induction readFrom schema aliases toks with
  | case1 schema aliases toks hend => exact hend
  | case2 schema aliases toks hend cause rest hread =>
    obtain ⟨front, -, hstops⟩ := Definition.stopsAt_of_read hread
    rw [h cause rfl] at hstops
    exact absurd hstops id
  | case3 schema aliases toks hend d rest hread cause hextend =>
    obtain ⟨b, -, hcause, -⟩ := exists_table_of_extend_error hextend
    rw [h cause rfl] at hcause
    cases hcause
  | case4 schema aliases toks hend d rest hread schema' hextend ih => exact ih h

namespace Reader

theorem run_of_atEnd {r : Reader} (h : atEnd r.rest = true) :
    r.run = ⟨.error .noDefinitions, [], r⟩ := by
  rw [run, readFrom, if_pos h]
  rfl

/-- Ends of the input behind the tokens change no run, also where the last token was taken. -/
theorem run_before {r : Reader} {ends : List Located} (h : r.rest = [] ∨ EndsInput r.rest)
    (hends : atEnd ends = true) : (r.before ends).run = r.run.before ends := by
  obtain hnil | hrest := h
  · have hend : atEnd (r.before ends).rest = true := by rwa [before, hnil]
    rw [run_of_atEnd hend, run_of_atEnd (by rw [hnil]; rfl)]
    rfl
  · exact readFrom_before _ _ hrest ends

/-! ## Many runs -/

variable {r : Reader}

theorem afterRuns_before {ends : List Located} (h : EndsInput r.rest) (hends : atEnd ends = true)
    (n : Nat) : (r.before ends).afterRuns n = (r.afterRuns n).before ends := by
  induction n with
  | zero => rfl
  | succ n ih =>
    rw [afterRuns, ih, run_before (h.of_suffix (rest_afterRuns_isSuffix r n)) hends]
    rfl

/-- How many tokens a reader has taken in some runs. -/
def taken (r : Reader) (n : Nat) : Nat := r.rest.length - (r.afterRuns n).rest.length

theorem rest_afterRuns_eq_drop (r : Reader) (n : Nat) :
    (r.afterRuns n).rest = r.rest.drop (r.taken n) := by
  obtain ⟨front, hfront⟩ := rest_afterRuns_isSuffix r n
  have htaken : r.taken n = front.length := by
    rw [taken, ← hfront, List.length_append]
    omega
  rw [htaken, ← hfront, List.drop_left]

theorem length_rest_afterRuns_add (r : Reader) (n : Nat) :
    (r.afterRuns n).rest.length + r.taken n = r.rest.length := by
  have hle := (rest_afterRuns_isSuffix r n).length_le
  rw [taken]
  omega

theorem taken_le_succ (r : Reader) (n : Nat) : r.taken n ≤ r.taken (n + 1) := by
  have hle : (r.afterRuns (n + 1)).rest.length ≤ (r.afterRuns n).rest.length :=
    (rest_readFrom_isSuffix _ _ _).length_le
  have hbefore := length_rest_afterRuns_add r n
  have hbehind := length_rest_afterRuns_add r (n + 1)
  omega

/-- A run that takes nothing leaves the reader as it is, and all later runs do so too. -/
theorem afterRuns_of_stays {m n : Nat} (h : r.taken (n + 1) = r.taken n) (hm : n ≤ m) :
    r.afterRuns m = r.afterRuns n := by
  have hlength : (r.afterRuns (n + 1)).rest.length = (r.afterRuns n).rest.length := by
    have hbefore := length_rest_afterRuns_add r n
    have hbehind := length_rest_afterRuns_add r (n + 1)
    omega
  have hrest : (r.afterRuns n).run.reader.rest = (r.afterRuns n).rest :=
    (rest_readFrom_isSuffix _ _ _).eq_of_length hlength
  have hstep : (r.afterRuns n).run.reader = r.afterRuns n := reader_of_stays hrest
  induction hm with
  | refl => rfl
  | step _ ih => rw [afterRuns, ih, hstep]

/-- Each run takes a token until one does not, and that one is found among as many runs as there are
tokens, and one more. -/
theorem exists_stays (r : Reader) : ∃ n ≤ r.rest.length, r.taken (n + 1) = r.taken n := by
  -- As long as no run has stayed, each one has taken a token.
  have hgrows (n : Nat) : (∃ m < n, r.taken (m + 1) = r.taken m) ∨ n ≤ r.taken n := by
    induction n with
    | zero => exact .inr (Nat.zero_le _)
    | succ n ih =>
      obtain ⟨m, hm, hstays⟩ | hle := ih
      · exact .inl ⟨m, by omega, hstays⟩
      · by_cases hstays : r.taken (n + 1) = r.taken n
        · exact .inl ⟨n, by omega, hstays⟩
        · have hle' := taken_le_succ r n
          exact .inr (by omega)
  obtain ⟨m, hm, hstays⟩ | hle := hgrows (r.rest.length + 1)
  · exact ⟨m, by omega, hstays⟩
  · have hall := length_rest_afterRuns_add r (r.rest.length + 1)
    omega

/-- Behind a run that gives a schema or finds nothing, all runs find nothing. -/
theorem run_afterRuns_of_result {m n : Nat}
    (h : ∀ cause, (r.afterRuns n).run.result = .error cause → cause = .noDefinitions)
    (hm : n < m) : (r.afterRuns m).run.result = .error .noDefinitions := by
  have hend : atEnd (r.afterRuns (n + 1)).rest = true := atEnd_of_result h
  have hstep := run_of_atEnd hend
  have hstays : r.taken (n + 1 + 1) = r.taken (n + 1) := by
    rw [taken, taken, afterRuns, hstep]
  rw [afterRuns_of_stays hstays hm, hstep]

/-- **Running a reader again and again settles.** The tokens it has taken never become fewer and are
never more than the text has, however often the end of the input is repeated behind them, which
changes no answer either. A run that takes nothing learns no alias, and all later runs answer as it
does. Behind a run that gives a schema, or finds no definitions, all runs find none. So after as
many runs as there are tokens all answers are the same. -/
theorem runs_settle {source : String} {toks : List Located}
    (htokens : tokenize source = .ok toks) :
    ∃ r, ofSource source = .ok r ∧ r.rest = toks ∧
      (∀ n, r.taken n ≤ r.taken (n + 1) ∧ (r.afterRuns n).rest = toks.drop (r.taken n)) ∧
      (∀ ends, atEnd ends = true → ∀ n, (r.before ends).taken n = r.taken n ∧
        r.taken n ≤ toks.length ∧
        ((r.before ends).afterRuns n).run.result = (r.afterRuns n).run.result) ∧
      (∀ n, r.taken (n + 1) = r.taken n →
        (r.afterRuns (n + 1)).aliases = (r.afterRuns n).aliases ∧
          ∀ m, n ≤ m → (r.afterRuns m).run = (r.afterRuns n).run) ∧
      (∀ n, ((∃ schema, (r.afterRuns n).run.result = .ok schema) ∨
          (r.afterRuns n).run.result = .error .noDefinitions) →
        ∀ m, n < m → (r.afterRuns m).run.result = .error .noDefinitions) ∧
      ∀ m, toks.length ≤ m → (r.afterRuns m).run = (r.afterRuns toks.length).run := by
  have hinput : EndsInput toks := by
    obtain ⟨front, e, rfl, he, -⟩ := exists_of_tokenize htokens
    exact ⟨front, e, rfl, he⟩
  refine ⟨⟨toks, []⟩, by simp [ofSource, htokens], rfl, fun n => ?_, fun ends hends n => ?_,
    fun n hstays => ?_, fun n hresult m hm => ?_, fun m hm => ?_⟩
  · exact ⟨taken_le_succ _ n, rest_afterRuns_eq_drop _ n⟩
  · have hruns := @afterRuns_before ⟨toks, []⟩ ends hinput hends n
    have hvalid := hinput.of_suffix (rest_afterRuns_isSuffix ⟨toks, []⟩ n)
    refine ⟨?_, Nat.sub_le _ _, ?_⟩
    · rw [taken, taken, hruns]
      simp only [before, List.length_append]
      omega
    · rw [hruns, run_before hvalid hends]
      rfl
  · refine ⟨?_, fun m hm => ?_⟩
    · rw [afterRuns_of_stays hstays (Nat.le_succ n)]
    · rw [afterRuns_of_stays hstays hm]
  · refine run_afterRuns_of_result (fun cause hcause => ?_) hm
    obtain ⟨schema, hok⟩ | herror := hresult
    · rw [hok] at hcause
      cases hcause
    · rw [herror] at hcause
      injection hcause with hcause
      exact hcause.symm
  · obtain ⟨n, hn, hstays⟩ := exists_stays ⟨toks, []⟩
    rw [afterRuns_of_stays hstays hn, afterRuns_of_stays hstays (Nat.le_trans hn hm)]

/-- The first run stops behind two tokens. The second one takes the end of the input inside a block,
and no more of them, so from the third one on nothing is found. -/
theorem runs_settle_openBlock :
    tokenize "Ref x Enum e \x7b" = .ok [⟨.word "Ref", 1⟩, ⟨.word "x", 1⟩, ⟨.word "Enum", 1⟩,
        ⟨.word "e", 1⟩, ⟨.mark .leftBrace, 1⟩, ⟨.endOfInput, 1⟩] ∧
      ∃ r, ofSource "Ref x Enum e \x7b" = .ok r ∧
        r.run.result = .error (.unexpected (.word "Enum") .referencesOpen 1) ∧ r.taken 1 = 2 ∧
        (r.afterRuns 1).run.result = .error (.unexpectedEnd .blockClose) ∧ r.taken 2 = 6 ∧
        (r.before [⟨.endOfInput, 1⟩, ⟨.endOfInput, 1⟩]).taken 2 = 6 ∧
        r.taken 3 = 6 ∧ (r.afterRuns 2).run.result = .error .noDefinitions ∧
        (∀ m, 2 < m → (r.afterRuns m).run.result = .error .noDefinitions) ∧
        ∀ m, 2 ≤ m → (r.afterRuns m).run = (r.afterRuns 2).run := by
  let toks : List Located := [⟨.word "Ref", 1⟩, ⟨.word "x", 1⟩, ⟨.word "Enum", 1⟩,
    ⟨.word "e", 1⟩, ⟨.mark .leftBrace, 1⟩, ⟨.endOfInput, 1⟩]
  have htokens : tokenize "Ref x Enum e \x7b" = .ok toks := eq_ok_of_toOption (by decide +kernel)
  obtain ⟨r, hr, -, -, hends, hstays, hresult, -⟩ := runs_settle htokens
  obtain rfl : (⟨toks, []⟩ : Reader) = r := by simpa [ofSource, htokens] using hr
  have hsecond : taken ⟨toks, []⟩ 2 = 6 := by decide +kernel
  have hthird : taken ⟨toks, []⟩ 3 = 6 := by decide +kernel
  have hnone : (afterRuns ⟨toks, []⟩ 2).run.result = .error .noDefinitions :=
    eq_error_of_cause? (by decide +kernel)
  refine ⟨htokens, _, hr, eq_error_of_cause? (by decide +kernel), by decide +kernel,
    eq_error_of_cause? (by decide +kernel), hsecond, ?_, hthird, hnone,
    hresult 2 (.inr hnone), (hstays 2 (hthird.trans hsecond.symm)).2⟩
  rw [(hends _ rfl 2).1, hsecond]

end Reader

end SchemaDiagram.Document
