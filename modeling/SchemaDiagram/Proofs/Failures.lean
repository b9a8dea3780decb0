/-
Where reading a document fails, and what the failure rests on. A reader stops in front of some
token. Up to there, and with that token, everything about the failure is settled: whatever stands
further on, the reader stops at the same place and for the same cause.

Definitions are read by a local reader; what is added here is the loop over them. It looks at one
token more, to see whether the input is at its end.
-/
import SchemaDiagram.Proofs.Locality

namespace SchemaDiagram.Document

variable {schema schema' : Schema} {aliases : Aliases} {toks rest : List Located} {d : Definition}
  {cause : ParseError}

/-! ## One definition of many -/

theorem readFrom_of_atEnd (h : atEnd toks = true) :
    (readFrom schema aliases toks).result = finish aliases schema ∧
      (readFrom schema aliases toks).reader.rest = toks := by
  rw [readFrom, if_pos h]
  exact ⟨rfl, rfl⟩

theorem readFrom_of_error (hend : ¬ atEnd toks = true)
    (hread : Definition.read toks = .error cause rest) :
    (readFrom schema aliases toks).result = .error cause ∧
      (readFrom schema aliases toks).reader.rest = rest := by
  rw [readFrom, if_neg hend]
  split <;> rename_i he <;> rw [hread] at he <;> cases he
  exact ⟨rfl, rfl⟩

theorem readFrom_of_extend_error (hend : ¬ atEnd toks = true)
    (hread : Definition.read toks = .ok d rest) (hextend : extend schema d = .error cause) :
    (readFrom schema aliases toks).result = .error cause ∧
      (readFrom schema aliases toks).reader.rest = rest := by
  rw [readFrom, if_neg hend]
  split <;> rename_i he <;> rw [hread] at he <;> cases he
  rw [hextend]
  exact ⟨rfl, rfl⟩

theorem readFrom_of_extend (hend : ¬ atEnd toks = true)
    (hread : Definition.read toks = .ok d rest) (hextend : extend schema d = .ok schema') :
    (readFrom schema aliases toks).result =
        (readFrom schema' (d.aliases ++ aliases) rest).result ∧
      (readFrom schema aliases toks).reader.rest =
        (readFrom schema' (d.aliases ++ aliases) rest).reader.rest := by
  rw [readFrom, if_neg hend]
  split <;> rename_i he <;> rw [hread] at he <;> cases he
  rw [hextend]
  exact ⟨rfl, rfl⟩

/-- A definition is refused only for a table that is there already. -/
theorem exists_table_of_extend_error (h : extend schema d = .error cause) :
    ∃ b, d = .table b ∧ cause = .duplicateTable b.name b.head.line ∧ b.name ∈ schema.names := by
  cases d with
  | table b =>
    simp only [extend] at h
    split at h <;> cases h
    rename_i hdeclares
    exact ⟨b, rfl, rfl, by simpa [Schema.declares, Schema.names] using hdeclares⟩
  | references | skipped => cases h

/-- A definition that breaks off says where. -/
theorem Definition.stopsAt_of_read (h : Definition.read toks = .error cause rest) :
    ∃ front, toks = front ++ rest ∧ cause.StopsAt front rest := by
  obtain ⟨front, rest', answer, rfl, hanswer, hgives⟩ := Definition.local_read toks
  rw [hgives rest' rfl] at h
  cases hanswer with
  | ok => cases h
  | error hstops =>
    cases h
    exact ⟨front, rfl, hstops⟩

theorem eq_noDefinitions_of_finish_error (h : finish aliases schema = .error cause) :
    cause = .noDefinitions := by
  unfold finish at h
  split at h <;> cases h
  rfl

/-! ## A whole run -/

/-- From `schema` and `aliases` on, the reader takes `front`, stops there and answers `result`
whatever comes behind the first token of `rest`. -/
structure StopsBehind (schema : Schema) (aliases : Aliases) (front rest : List Located)
    (result : Except ParseError Schema) : Prop where
  gives : ∀ rest', rest'.head? = rest.head? →
    (readFrom schema aliases (front ++ rest')).result = result ∧
      (readFrom schema aliases (front ++ rest')).reader.rest = rest'
  cause : ∀ cause, result = .error cause →
    cause.StopsAt front rest ∨ (∃ name line, cause = .duplicateTable name line) ∨
      cause = .noDefinitions ∧ atEnd rest = true

/-- The reader takes some front of the tokens. The induction is on the number of tokens: a
definition that was read leaves fewer. -/
theorem exists_stopsBehind (schema : Schema) (aliases : Aliases) (toks : List Located) :
    ∃ front rest, toks = front ++ rest ∧
      StopsBehind schema aliases front rest (readFrom schema aliases toks).result := by
  induction hn : toks.length using Nat.strongRecOn generalizing schema aliases toks with
  | ind n ih =>
    by_cases hend : atEnd toks = true
    · refine ⟨[], toks, rfl, fun rest' h => ?_, fun cause h => .inr (.inr ⟨?_, hend⟩)⟩
      · rw [(readFrom_of_atEnd hend).1]
        exact readFrom_of_atEnd ((atEnd_congr h).2 hend)
      · rw [(readFrom_of_atEnd hend).1] at h
        exact eq_noDefinitions_of_finish_error h
    · obtain ⟨front, rest, answer, rfl, hanswer, hgives⟩ := Definition.local_read toks
      have hread := hgives rest rfl
      have hend' (rest' : List Located) (h : rest'.head? = rest.head?) :
          ¬ atEnd (front ++ rest') = true :=
        fun hend' => hend ((atEnd_congr (head?_append_congr front h)).1 hend')
      cases hanswer with
      | error hstops =>
        refine ⟨front, rest, rfl, fun rest' h => ?_, fun cause h => .inl ?_⟩
        · rw [(readFrom_of_error hend hread).1]
          exact readFrom_of_error (hend' rest' h) (hgives rest' h)
        · rw [(readFrom_of_error hend hread).1] at h
          cases h
          exact hstops
      | ok d =>
        cases hextend : extend schema d with
        | error cause =>
          refine ⟨front, rest, rfl, fun rest' h => ?_, fun cause h => .inr (.inl ?_)⟩
          · rw [(readFrom_of_extend_error hend hread hextend).1]
            exact readFrom_of_extend_error (hend' rest' h) (hgives rest' h) hextend
          · rw [(readFrom_of_extend_error hend hread hextend).1] at h
            cases h
            obtain ⟨b, -, hcause, -⟩ := exists_table_of_extend_error hextend
            exact ⟨_, _, hcause⟩
        | ok schema' =>
          have hlt := (Definition.spells_of_read hread).length_lt d.tokens_ne_nil
          obtain ⟨front', rest', rfl, hmore⟩ :=
            ih _ (hn ▸ hlt) schema' (d.aliases ++ aliases) rest rfl
          refine ⟨front ++ front', rest', by rw [List.append_assoc], fun r h => ?_, fun cause h => ?_⟩
          · have hhead := head?_append_congr front' h
            obtain ⟨hresult, hrest⟩ := @readFrom_of_extend schema schema' aliases _ _ _
              (hend' _ hhead) (hgives _ hhead) hextend
            rw [List.append_assoc, hresult, hrest, (readFrom_of_extend hend hread hextend).1]
            exact hmore.gives r h
          · rw [(readFrom_of_extend hend hread hextend).1] at h
            obtain hstops | hrest := hmore.cause cause h
            · exact .inl hstops.append
            · exact .inr hrest

/-- A run leaves an end of the tokens it was given. -/
theorem rest_readFrom_isSuffix (schema : Schema) (aliases : Aliases) (toks : List Located) :
    (readFrom schema aliases toks).reader.rest <:+ toks := by
  obtain ⟨front, rest, htoks, hstops⟩ := exists_stopsBehind schema aliases toks
  obtain ⟨-, hrest⟩ := hstops.gives rest rfl
  rw [← htoks] at hrest
  exact ⟨front, by rw [hrest, htoks]⟩

/-! ## Failures of a reader -/

/-- Tokens that agree up to the first one behind `front` go on alike. -/
theorem exists_eq_append_of_agree {front rest toks : List Located}
    (h : ∀ i ≤ front.length, toks[i]? = (front ++ rest)[i]?) :
    ∃ rest', toks = front ++ rest' ∧ rest'.head? = rest.head? := by
  induction front generalizing toks with
  | nil => exact ⟨toks, rfl, by simpa [List.head?_eq_getElem?] using h 0 (Nat.le_refl 0)⟩
  | cons t front ih =>
    have hfirst := h 0 (Nat.zero_le _)
    cases toks with
    | nil => simp at hfirst
    | cons u toks =>
      obtain rfl : u = t := by simpa using hfirst
      obtain ⟨rest', rfl, hhead⟩ := ih fun i hi => by
        have hi' : i + 1 ≤ (u :: front).length := Nat.succ_le_succ hi
        simpa using h (i + 1) hi'
      exact ⟨rest', rfl, hhead⟩

/-- Where the end of the input is reported, everything in front of it has been read. -/
theorem ParseError.StopsAt.length_le {expected : Expected} {front rest before : List Located}
    {last : Located} (h : (ParseError.unexpectedEnd expected).StopsAt front rest)
    (htoks : front ++ rest = before ++ [last])
    (hbefore : ∀ t ∈ before, t.token ≠ .endOfInput) : before.length ≤ front.length := by
  obtain ⟨mid, rfl, hmid⟩ | ⟨mid, rfl, -⟩ := List.append_eq_append_iff.1 htoks
  · cases mid with
    | nil => simp
    | cons t mid =>
      obtain hend | ⟨t, ht, he⟩ := h
      · rw [hmid] at hend
        exact absurd (by simpa [atEnd] using hend) (hbefore t (by simp))
      · exact absurd he (hbefore t (List.mem_append_left _ ht))
  · rw [List.length_append]
    omega

/-- The cause of a failure, as a test on closed inputs wants it. -/
def cause? : Except ParseError Schema → Option ParseError
  | .ok _ => none
  | .error cause => some cause

theorem eq_error_of_cause? {result : Except ParseError Schema} (h : cause? result = some cause) :
    result = .error cause := by
  cases result <;> cases h
  rfl

namespace Reader

/-- How many tokens a reader has read when it stops. -/
def position (r : Reader) : Nat := r.rest.length - r.run.reader.rest.length

/-- **A failure is decided by the tokens up to the one where the reader stops.** Tokens that agree
with these make any reader fail there for the same cause. A token that is reported as unexpected
is the one the reader stops at, with its line; and the end of the input is reported only where
everything in front of it has been read. -/
theorem run_error_decided (toks : List Located) (aliases : Aliases) (cause : ParseError)
    (h : (run ⟨toks, aliases⟩).result = .error cause) :
    (run ⟨toks, aliases⟩).reader.rest = toks.drop (position ⟨toks, aliases⟩) ∧
      (∀ toks' : List Located, (∀ i ≤ position ⟨toks, aliases⟩, toks'[i]? = toks[i]?) →
        (run ⟨toks', aliases⟩).result = .error cause ∧
          position ⟨toks', aliases⟩ = position ⟨toks, aliases⟩) ∧
      (∀ found expected line, cause = .unexpected found expected line →
        toks[position ⟨toks, aliases⟩]? = some ⟨found, line⟩) ∧
      (∀ expected, cause = .unexpectedEnd expected →
        ∀ front last, toks = front ++ [last] → last.token = .endOfInput →
          (∀ t ∈ front, t.token ≠ .endOfInput) → front.length ≤ position ⟨toks, aliases⟩) := by
  obtain ⟨front, rest, htoks, hstops⟩ := exists_stopsBehind ⟨[], []⟩ aliases toks
  have hrun (rest' : List Located) (hhead : rest'.head? = rest.head?) :
      (run ⟨front ++ rest', aliases⟩).result = .error cause ∧
        (run ⟨front ++ rest', aliases⟩).reader.rest = rest' := by
    obtain ⟨hresult, hrest⟩ := hstops.gives rest' hhead
    exact ⟨hresult.trans h, hrest⟩
  have hposition (rest' : List Located) (hhead : rest'.head? = rest.head?) :
      position ⟨front ++ rest', aliases⟩ = front.length := by
    simp only [position, (hrun rest' hhead).2, List.length_append]
    omega
  subst htoks
  rw [hposition rest rfl]
  refine ⟨?_, fun toks' hagree => ?_, fun found expected line hc => ?_, fun expected hc => ?_⟩
  · rw [(hrun rest rfl).2, List.drop_left]
  · obtain ⟨rest', rfl, hhead⟩ := exists_eq_append_of_agree hagree
    exact ⟨(hrun rest' hhead).1, hposition rest' hhead⟩
  · obtain hat | ⟨name, line, he⟩ | ⟨he, -⟩ := hstops.cause cause h <;> cases hc
    · rw [List.getElem?_append_right (Nat.le_refl _), Nat.sub_self, ← List.head?_eq_getElem?]
      exact hat
    · cases he
    · cases he
  · obtain hat | ⟨name, line, he⟩ | ⟨he, -⟩ := hstops.cause cause h <;> cases hc
    · exact fun before last htoks _ hbefore => hat.length_le htoks hbefore
    · cases he
    · cases he

/-- A table without its opening brace is refused at the token behind its name, whatever follows. -/
theorem run_error_decided_unopenedTable :
    (run ⟨[⟨.word "Table", 1⟩, ⟨.word "users", 1⟩, ⟨.word "id", 2⟩, ⟨.endOfInput, 2⟩], []⟩).result =
        .error (.unexpected (.word "id") .tableOpen 2) ∧
      (run ⟨[⟨.word "Table", 1⟩, ⟨.word "users", 1⟩, ⟨.word "id", 2⟩, ⟨.mark .leftBrace, 2⟩,
          ⟨.mark .rightBrace, 3⟩, ⟨.endOfInput, 3⟩], []⟩).result =
        .error (.unexpected (.word "id") .tableOpen 2) := by
  have hfails : (run ⟨[⟨.word "Table", 1⟩, ⟨.word "users", 1⟩, ⟨.word "id", 2⟩, ⟨.endOfInput, 2⟩],
      []⟩).result = .error (.unexpected (.word "id") .tableOpen 2) :=
    eq_error_of_cause? (by decide +kernel)
  have hposition : position ⟨[⟨.word "Table", 1⟩, ⟨.word "users", 1⟩, ⟨.word "id", 2⟩,
      ⟨.endOfInput, 2⟩], []⟩ = 2 := by decide +kernel
  refine ⟨hfails, ((run_error_decided _ _ _ hfails).2.1 _ fun i hi => ?_).1⟩
  rw [hposition] at hi
  match i, hi with
  | 0, _ | 1, _ | 2, _ => rfl

end Reader

end SchemaDiagram.Document
