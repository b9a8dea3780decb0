/-
What a converter remembers from one request to the next
(`answerAll_append_cons`).

Of all its state only the remembered diagram ever changes, and of all requests
only a conversion that succeeds changes it (`answer_state`). So a converter is
known after any requests (`after_eq`): it is the one they began with, with the
diagram that was answered last by a conversion that succeeded. All answers but
pages are made without looking at it.
-/
import SchemaDiagram.Converter

namespace SchemaDiagram

namespace Converter

/-- The diagram that is to be remembered of a request and its answer: that of a conversion that
succeeded. A schema that is only drawn is not converted. -/
def converted? : Request × Answer → Option String
  | (.convert _, .diagram text) => some text
  | (.convertSchema _, .diagram text) => some text
  | _ => none

/-- The diagram of the last conversion that succeeded. -/
def lastConverted? (session : List (Request × Answer)) : Option String :=
  (session.filterMap converted?).getLast?

/-- The converter behind some requests. -/
def after (c : Converter) : List Request → Converter
  | [] => c
  | r :: rs => (c.answer r).2.after rs

variable (c : Converter)

/-! ## One request -/

/-- A request changes nothing but what is remembered, and that only if it is converted. -/
theorem answer_state (r : Request) : (c.answer r).2 =
    { c with remembered := (converted? (r, (c.answer r).1)).or c.remembered } := by
  cases r with
  | convert source =>
    simp only [answer, convert]
    cases Document.parse source <;> rfl
  | convertSchema schema => rfl
  | render schema => rfl
  | page => rfl

/-- Only pages show what is remembered. -/
theorem answer_remembered {r : Request} (hr : r ≠ .page) (remembered : Option String) :
    ({ c with remembered }.answer r).1 = (c.answer r).1 := by
  cases r with
  | convert source =>
    simp only [answer, convert]
    cases Document.parse source <;> rfl
  | convertSchema schema => rfl
  | render schema => rfl
  | page => exact absurd rfl hr

/-! ## Requests one after another -/

theorem answerAll_cons (r : Request) (rs : List Request) :
    c.answerAll (r :: rs) = (c.answer r).1 :: (c.answer r).2.answerAll rs := rfl

theorem answerAll_append (rs rs' : List Request) :
    c.answerAll (rs ++ rs') = c.answerAll rs ++ (c.after rs).answerAll rs' := by
  induction rs generalizing c with
  | nil => rfl
  | cons r rs ih => rw [List.cons_append, answerAll_cons, ih, answerAll_cons, List.cons_append, after]

theorem length_answerAll (rs : List Request) : (c.answerAll rs).length = rs.length := by
  induction rs generalizing c with
  | nil => rfl
  | cons r rs ih => rw [answerAll_cons, List.length_cons, ih, List.length_cons]

theorem lastConverted?_cons (x : Request × Answer) (session : List (Request × Answer)) :
    lastConverted? (x :: session) = (lastConverted? session).or (converted? x) := by
  rw [lastConverted?, lastConverted?, List.filterMap_cons]
  cases converted? x with
  | none => rw [Option.or_none]
  | some text => rw [List.getLast?_cons, Option.or_some]

/-- The converter behind requests that were answered. -/
theorem after_eq (rs : List Request) : c.after rs =
    { c with remembered := (lastConverted? (rs.zip (c.answerAll rs))).or c.remembered } := by
  induction rs generalizing c with
  | nil => rfl
  | cons r rs ih =>
    rw [after, ih, answerAll_cons, List.zip_cons_cons, lastConverted?_cons, Option.or_assoc,
      answer_state]

/-- **A converter remembers exactly its last successful conversion.** A page is made of it, whatever
else was asked since; all other answers are those of a converter that was asked nothing before; and a
request that does not end in a conversion makes no difference to any later answer. -/
theorem answerAll_append_cons (config : Config) (registry : Registry) (before : List Request)
    (r : Request) (rest : List Request) :
    let fresh : Converter := { config, registry }
    let answered := before.zip (fresh.answerAll before)
    ∃ a later, fresh.answerAll (before ++ r :: rest) = fresh.answerAll before ++ a :: later ∧
      (fresh.answerAll before).length = before.length ∧
      (a = match r with
        | .page =>
          .page (if config.html then (lastConverted? answered).map (Page.render · config.theme) else none)
        | _ => (fresh.answer r).1) ∧
      (converted? (r, a) = none →
        fresh.answerAll (before ++ rest) = fresh.answerAll before ++ later) := by
  intro fresh answered
  have hafter : fresh.after before = { fresh with remembered := lastConverted? answered } := by
    rw [after_eq, Option.or_none]
  refine ⟨((fresh.after before).answer r).1, ((fresh.after before).answer r).2.answerAll rest,
    answerAll_append .., length_answerAll .., ?_, fun hnone => ?_⟩
  · cases r with
    | page => rw [hafter]; rfl
    | convert | convertSchema | render => rw [hafter, answer_remembered _ (by simp)]
  · rw [answerAll_append, answer_state, hnone, Option.none_or]

/-- A page is asked for behind a schema that was converted and a text that was not. -/
theorem answerAll_append_cons_failedConversion :
    let converter : Converter := { config := { html := true } }
    let users : Schema := ⟨[⟨"users", []⟩], []⟩
    let diagram := "erDiagram\n    users \x7b\n    \x7d\n"
    let failed : Answer := .failed (.unexpectedEnd .tableName)
    converted? (.convert "Table", failed) = none ∧
      ∃ later, converter.answerAll [.convertSchema users, .convert "Table", .page] =
          [.diagram diagram, failed] ++ later ∧
        converter.answerAll [.convertSchema users, .page] = [.diagram diagram] ++ later ∧
        later = [.page (some (Page.render diagram .default))] := by
  intro converter users diagram failed
  obtain ⟨a, later, hall, -, ha, hnone⟩ :=
    answerAll_append_cons { html := true } .builtin [.convertSchema users] (.convert "Table") [.page]
  have hfailed : (converter.answer (.convert "Table")).1 = failed := by decide +kernel
  have hfirst : converter.answerAll [.convertSchema users] = [.diagram diagram] := by decide +kernel
  have hwithout : converter.answerAll [.convertSchema users, .page] =
      [.diagram diagram, .page (some (Page.render diagram .default))] := by decide +kernel
  obtain rfl : a = failed := ha.trans hfailed
  have hlater := hnone rfl
  refine ⟨rfl, later, ?_, ?_, ?_⟩
  · exact hall.trans (by rw [hfirst]; rfl)
  · exact hlater.trans (by rw [hfirst])
  · have hsame := hlater.symm.trans hwithout
    rw [hfirst] at hsame
    exact (List.cons.inj hsame).2

end Converter

end SchemaDiagram
