/-
What a reader has seen when it stops: the tokens it has taken and the one behind them. Tokens
further on change neither what is read nor why reading fails, so a reader is `Local`, and an error
speaks of the place where it stopped (`ParseError.StopsAt`).

Two choices look two tokens ahead: the one for a keyword with its mark, and the one for the brackets
of an array. They are no exception, because whichever way they go, the first of the two tokens is
taken afterwards (`LocalAt.of_take_two`).
-/
import SchemaDiagram.Proofs.Exactness

namespace SchemaDiagram.Document

variable {α β : Type}

namespace Step

theorem rest_map (k : α → β) (s : Step α) : (s.map k).rest = s.rest := by
  cases s <;> rfl

theorem bind_assoc {γ : Type} (s : Step α) (f : α → List Located → Step β)
    (g : β → List Located → Step γ) :
    (s.bind f).bind g = s.bind fun a rest => (f a rest).bind g := by
  cases s <;> rfl

theorem bind_map {γ : Type} (k : α → β) (s : Step α) (g : β → List Located → Step γ) :
    (s.map k).bind g = s.bind fun a rest => g (k a) rest := by
  cases s <;> rfl

end Step

/-! ## Readers that see one token ahead -/

/-- What an error says about the place where a reader stops, behind the tokens `front` and in front
of `rest`. The errors that no reader of a phrase gives say what cannot be. -/
def ParseError.StopsAt (front rest : List Located) : ParseError → Prop
  | .unexpected found _ line => rest.head? = some ⟨found, line⟩
  | .unexpectedEnd _ => atEnd rest = true ∨ ∃ t ∈ front, t.token = .endOfInput
  | .invalidEndpoint _ _ => True
  | .lexical _ | .duplicateTable _ _ | .noDefinitions => False

theorem ParseError.StopsAt.append {cause : ParseError} {a front rest : List Located}
    (h : cause.StopsAt front rest) : cause.StopsAt (a ++ front) rest := by
  cases cause with
  | unexpectedEnd =>
    obtain hend | ⟨t, ht, he⟩ := h
    · exact .inl hend
    · exact .inr ⟨t, List.mem_append_right _ ht, he⟩
  | unexpected | invalidEndpoint | lexical | duplicateTable | noDefinitions => exact h

/-- What a reader may answer when it has taken `front` and stops in front of `rest`. -/
inductive IsAnswer (front rest : List Located) : (List Located → Step α) → Prop
  | ok (a : α) : IsAnswer front rest (.ok a)
  | error {cause : ParseError} : cause.StopsAt front rest → IsAnswer front rest (.error cause)

theorem IsAnswer.append {front rest : List Located} {answer : List Located → Step α}
    (h : IsAnswer front rest answer) (a : List Located) : IsAnswer (a ++ front) rest answer := by
  cases h with
  | ok => exact .ok _
  | error hstops => exact .error hstops.append

/-- In front of all tokens that begin as `rest` does, the reader takes `front` and answers alike. -/
def Gives (read : List Located → Step α) (front rest : List Located)
    (answer : List Located → Step α) : Prop :=
  ∀ rest', rest'.head? = rest.head? → read (front ++ rest') = answer rest'

/-- What the reader answers on the tokens depends on those it takes and on the next one. -/
def LocalAt (read : List Located → Step α) (toks : List Located) : Prop :=
  ∃ front rest answer, toks = front ++ rest ∧ IsAnswer front rest answer ∧
    Gives read front rest answer

def Local (read : List Located → Step α) : Prop := ∀ toks, LocalAt read toks

theorem head?_append_congr {rest rest' : List Located} (front : List Located)
    (h : rest'.head? = rest.head?) : (front ++ rest').head? = (front ++ rest).head? := by
  cases front with
  | nil => exact h
  | cons t front => rfl

theorem take_two_append_congr {front rest rest' : List Located} (hfront : front ≠ [])
    (h : rest'.head? = rest.head?) : (front ++ rest').take 2 = (front ++ rest).take 2 := by
  match front, hfront with
  | [t], _ => simp [List.take_one, h]
  | t :: u :: front, _ => rfl

theorem afterMark?_congr {m : Mark} {toks toks' : List Located} (h : toks'.head? = toks.head?) :
    afterMark? m toks' = none ↔ afterMark? m toks = none := by
  cases toks with
  | nil => rw [List.head?_eq_none_iff.1 h]
  | cons t rest =>
    obtain ⟨rest', rfl⟩ := List.head?_eq_some_iff.1 h
    by_cases ht : t.token = .mark m <;> simp [afterMark?, ht]

/-- Two tokens are seen by looking two tokens ahead. -/
theorem Spells.exists_of_take_two {toks toks' rest : List Located} {k l : Token}
    (h : Spells toks' [k, l] rest) (htake : toks'.take 2 = toks.take 2) :
    ∃ r, Spells toks [k, l] r := by
  obtain ⟨t, r, rfl, ht, h⟩ := spells_cons_iff.1 h
  obtain ⟨u, r, rfl, hu, -⟩ := spells_cons_iff.1 h
  match toks with
  | [] | [_] => simp at htake
  | t' :: u' :: r' =>
    obtain ⟨rfl, rfl⟩ : t = t' ∧ u = u' := by simpa using htake
    exact ⟨r', Spells.nil.cons_of_eq hu |>.cons_of_eq ht⟩

theorem afterKeywordMark?_eq_none_of_take_two {keyword : String} {m : Mark}
    {toks toks' : List Located} (hnone : afterKeywordMark? keyword m toks = none)
    (h : toks'.take 2 = toks.take 2) : afterKeywordMark? keyword m toks' = none := by
  cases hsome : afterKeywordMark? keyword m toks' with
  | none => rfl
  | some kr =>
    obtain ⟨hspells, hs⟩ := afterKeywordMark?_eq_some_iff.1 hsome
    obtain ⟨r, hspells⟩ := hspells.exists_of_take_two h
    rw [afterKeywordMark?_eq_some_iff.2 ⟨hspells, hs⟩] at hnone
    cases hnone

/-- No keyword comes next where no word does. -/
theorem afterKeywordMark?_eq_none_of_head {keyword : String} {m : Mark} {toks toks' : List Located}
    (hword : ∀ t r s, toks = t :: r → t.token ≠ .word s) (h : toks'.head? = toks.head?) :
    afterKeywordMark? keyword m toks' = none := by
  cases toks with
  | nil =>
    rw [List.head?_eq_none_iff.1 h]
    rfl
  | cons t r =>
    obtain ⟨r', rfl⟩ := List.head?_eq_some_iff.1 h
    rw [afterKeywordMark?, afterKeyword?_eq_none_of_ne fun s => hword t r s rfl]

/-- A keyword, and nothing behind it, tells what `after` answers. -/
structure LooksForWord (after : List Located → Option (String × List Located)) : Prop where
  nil : after [] = none
  cons : ∀ t, (∃ s, ∀ r, after (t :: r) = some (s, r)) ∨ ∀ r, after (t :: r) = none

theorem looksForWord_afterKeyword? (keyword : String) : LooksForWord (afterKeyword? keyword) := by
  refine ⟨rfl, fun t => ?_⟩
  simp only [afterKeyword?]
  split
  · rename_i s _
    by_cases hs : Text.sameWord s keyword = true <;> simp [hs]
  · exact .inr fun _ => rfl

theorem looksForWord_findSome? (keywords : List String) :
    LooksForWord fun toks => keywords.findSome? (afterKeyword? · toks) := by
  induction keywords with
  | nil => exact ⟨rfl, fun _ => .inr fun _ => rfl⟩
  | cons keyword keywords ih =>
    refine ⟨by rw [List.findSome?_cons, ih.nil]; rfl, fun t => ?_⟩
    obtain ⟨s, hs⟩ | hnone := (looksForWord_afterKeyword? keyword).cons t
    · exact .inl ⟨s, fun r => by rw [List.findSome?_cons, hs]⟩
    · obtain ⟨s, hs⟩ | hnone' := ih.cons t
      · exact .inl ⟨s, fun r => by rw [List.findSome?_cons, hnone, hs]⟩
      · exact .inr fun r => by rw [List.findSome?_cons, hnone, hnone']

theorem atEnd_congr {toks toks' : List Located} (h : toks'.head? = toks.head?) :
    atEnd toks' = true ↔ atEnd toks = true := by
  cases toks with
  | nil => rw [List.head?_eq_none_iff.1 h]
  | cons t rest =>
    obtain ⟨rest', rfl⟩ := List.head?_eq_some_iff.1 h
    rfl

theorem lineOf_congr {toks toks' : List Located} (h : toks'.head? = toks.head?) :
    lineOf toks' = lineOf toks := by
  cases toks with
  | nil => rw [List.head?_eq_none_iff.1 h]
  | cons t rest =>
    obtain ⟨rest', rfl⟩ := List.head?_eq_some_iff.1 h
    rfl

namespace LocalAt

variable {read f : List Located → Step α} {toks : List Located}

/-- The reader leaves an end part of the tokens. -/
theorem exists_eq_append (h : LocalAt read toks) : ∃ front, toks = front ++ (read toks).rest := by
  obtain ⟨front, rest, answer, rfl, hanswer, hgives⟩ := h
  rw [hgives rest rfl]
  cases hanswer <;> exact ⟨front, rfl⟩

theorem length_rest_le (h : LocalAt read toks) : (read toks).rest.length ≤ toks.length := by
  obtain ⟨front, htoks⟩ := h.exists_eq_append
  have hlength := congrArg List.length htoks
  rw [List.length_append] at hlength
  omega

/-- What comes first is taken, and the reader goes on as another one. -/
theorem behind (front : List Located) (h : LocalAt f toks) (he : ∀ r, read (front ++ r) = f r) :
    LocalAt read (front ++ toks) := by
  obtain ⟨front', rest, answer, rfl, hanswer, hgives⟩ := h
  refine ⟨front ++ front', rest, answer, by rw [List.append_assoc], hanswer.append front, ?_⟩
  intro rest' hrest
  rw [List.append_assoc, he, hgives rest' hrest]

/-- The next token alone tells that the reader goes on as another one. -/
theorem of_head (h : LocalAt f toks)
    (he : ∀ toks', toks'.head? = toks.head? → read toks' = f toks') : LocalAt read toks := by
  obtain ⟨front, rest, answer, rfl, hanswer, hgives⟩ := h
  refine ⟨front, rest, answer, rfl, hanswer, fun rest' hrest => ?_⟩
  rw [he _ (head?_append_congr front hrest), hgives rest' hrest]

theorem of_nil (h : LocalAt f []) (he : read [] = f []) : LocalAt read [] :=
  h.of_head fun toks' hhead => by rw [List.head?_eq_none_iff.1 hhead, he]

theorem of_cons {t : Located} (h : LocalAt f (t :: toks)) (he : ∀ r, read (t :: r) = f (t :: r)) :
    LocalAt read (t :: toks) := by
  refine h.of_head fun toks' hhead => ?_
  obtain ⟨r, rfl⟩ := List.head?_eq_some_iff.1 hhead
  exact he r

/-- The next two tokens tell that the reader goes on as another one. Where that one takes nothing,
the next token has to tell it alone. -/
theorem of_take_two (h : LocalAt f toks)
    (he : ∀ toks', toks'.take 2 = toks.take 2 → read toks' = f toks')
    (hstay : (f toks).rest = toks → ∀ toks', toks'.head? = toks.head? → read toks' = f toks') :
    LocalAt read toks := by
  obtain ⟨front, rest, answer, rfl, hanswer, hgives⟩ := h
  refine ⟨front, rest, answer, rfl, hanswer, fun rest' hrest => ?_⟩
  rw [← hgives rest' hrest]
  by_cases hfront : front = []
  · subst hfront
    refine hstay ?_ _ hrest
    rw [hgives rest rfl]
    cases hanswer <;> rfl
  · exact he _ (take_two_append_congr hfront hrest)

theorem map (k : α → β) (h : LocalAt f toks) : LocalAt (fun toks => (f toks).map k) toks := by
  obtain ⟨front, rest, answer, htoks, hanswer, hgives⟩ := h
  have hmap : IsAnswer front rest fun r => (answer r).map k := by
    cases hanswer with
    | ok a => exact .ok (k a)
    | error hstops => exact .error hstops
  exact ⟨front, rest, _, htoks, hmap, fun rest' hrest => by simp only [hgives rest' hrest]⟩

theorem bind {g : α → List Located → Step β} (h : LocalAt f toks)
    (hg : ∀ a rest, f toks = .ok a rest → LocalAt (g a) rest) :
    LocalAt (fun toks => (f toks).bind g) toks := by
  obtain ⟨front, rest, answer, rfl, hanswer, hgives⟩ := h
  cases hanswer with
  | error hstops =>
    exact ⟨front, rest, _, rfl, .error hstops, fun rest' hrest => by simp only [hgives rest' hrest]; rfl⟩
  | ok a =>
    obtain ⟨front', rest', answer, rfl, hanswer, hgives'⟩ := hg a rest (hgives rest rfl)
    refine ⟨front ++ front', rest', answer, by rw [List.append_assoc], hanswer.append front, ?_⟩
    intro r hr
    simp only [List.append_assoc, hgives _ (head?_append_congr front' hr), Step.bind]
    exact hgives' r hr

/-- Nothing is taken. -/
theorem done (a : α) : LocalAt (.ok a) toks := ⟨[], toks, .ok a, rfl, .ok a, fun _ _ => rfl⟩

/-- Nothing is taken, and that is a failure. -/
theorem error {cause : ParseError} (h : cause.StopsAt [] toks) : LocalAt (.error (α := α) cause) toks :=
  ⟨[], toks, _, rfl, .error h, fun _ _ => rfl⟩

theorem unexpectedEnd (expected : Expected) (h : atEnd toks = true) :
    LocalAt (.error (α := α) (.unexpectedEnd expected)) toks := .error (.inl h)

theorem unexpected (expected : Expected) :
    LocalAt (Document.unexpected (α := α) expected) toks := by
  refine ⟨[], toks, .error (.here expected toks), rfl, .error ?_, fun rest' hrest => ?_⟩
  · cases toks with
    | nil => exact .inl rfl
    | cons t rest =>
      by_cases ht : t.token = .endOfInput
      · rw [ParseError.here, if_pos ht]
        exact .inl (by simp [atEnd, ht])
      · rw [ParseError.here, if_neg ht]
        rfl
  · have hhere : ParseError.here expected rest' = ParseError.here expected toks := by
      cases rest' <;> cases toks <;> simp_all [ParseError.here]
    rw [List.nil_append, Document.unexpected, hhere]

/-- A mark tells how the reader goes on: it is taken, or the reader goes on without it. -/
theorem of_afterMark? {m : Mark} {g : List Located → Step α}
    (hsome : ∀ t r, t.token = .mark m → read (t :: r) = f r)
    (hnone : ∀ toks, afterMark? m toks = none → read toks = g toks)
    (hf : ∀ r, afterMark? m toks = some r → LocalAt f r)
    (hg : afterMark? m toks = none → LocalAt g toks) : LocalAt read toks := by
  cases h : afterMark? m toks with
  | some r =>
    obtain ⟨t, r', rfl, ht, hr⟩ := spells_cons_iff.1 (afterMark?_eq_some_iff.1 h)
    obtain rfl := spells_nil_iff.1 hr
    exact (hf _ h).behind [t] fun r => hsome t r ht
  | none => exact .of_head (hg h) fun toks' hhead => hnone toks' ((afterMark?_congr hhead).2 h)

end LocalAt

/-- The next token alone tells whether it is taken, and what for. -/
theorem Local.of_token {read : List Located → Step α} (f : Token → Option β) (k : β → α)
    (g : List Located → Step α)
    (hsome : ∀ t r b, f t.token = some b → read (t :: r) = .ok (k b) r)
    (hnone : ∀ t r, f t.token = none → read (t :: r) = g (t :: r)) (hnil : read [] = g [])
    (hg : Local g) : Local read := by
  intro toks
  cases toks with
  | nil => exact .of_nil (hg []) hnil
  | cons t toks =>
    cases hf : f t.token with
    | some b => exact (LocalAt.done (k b)).behind [t] fun r => hsome t r b hf
    | none => exact .of_cons (hg (t :: toks)) fun r => hnone t r hf

/-- A reader is local if it is on tokens of which it is on all shorter ones. -/
theorem Local.of_shorter {read : List Located → Step α}
    (h : ∀ toks, (∀ toks', toks'.length < toks.length → LocalAt read toks') → LocalAt read toks) :
    Local read := by
  intro toks
  induction hn : toks.length using Nat.strongRecOn generalizing toks with
  | ind n ih => exact h toks fun toks' hlt => ih _ (by omega) toks' rfl

/-- A local reader that takes a word that comes next. -/
structure TakesWord (read : List Located → Step α) : Prop where
  isLocal : Local read
  length_rest_le : ∀ {t : Located} {s : String}, t.token = .word s →
    ∀ r, (read (t :: r)).rest.length ≤ r.length

namespace TakesWord

theorem map (k : α → β) {f : List Located → Step α} (h : TakesWord f) :
    TakesWord fun toks => (f toks).map k where
  isLocal toks := (h.isLocal toks).map k
  length_rest_le ht r := by
    rw [Step.rest_map]
    exact h.length_rest_le ht r

theorem bind {f : List Located → Step α} {g : α → List Located → Step β} (h : TakesWord f)
    (hg : ∀ a, Local (g a)) : TakesWord fun toks => (f toks).bind g where
  isLocal toks := (h.isLocal toks).bind fun a rest _ => hg a rest
  length_rest_le {t s} ht r := by
    have hlength := h.length_rest_le ht r
    cases hf : f (t :: r) with
    | error => rwa [hf] at hlength
    | ok a rest =>
      rw [hf] at hlength
      exact Nat.le_trans (hg a rest).length_rest_le hlength

/-- A keyword with its mark tells how the reader goes on. -/
theorem of_afterKeywordMark? {read g : List Located → Step α}
    {f : String → List Located → Step α} (keyword : String) (m : Mark)
    (hread : ∀ toks, read toks =
      match afterKeywordMark? keyword m toks with
      | some (s, rest) => f s rest
      | none => g toks)
    (hf : ∀ s, Local (f s)) (hg : TakesWord g) : TakesWord read := by
  constructor
  · intro toks
    cases hk : afterKeywordMark? keyword m toks with
    | some kr =>
      obtain ⟨s, r⟩ := kr
      obtain ⟨⟨front, rfl, hfront⟩, hs⟩ := afterKeywordMark?_eq_some_iff.1 hk
      refine (hf s r).behind front fun r' => ?_
      rw [hread, afterKeywordMark?_eq_some_iff.2 ⟨⟨front, rfl, hfront⟩, hs⟩]
    | none =>
      refine (hg.isLocal toks).of_take_two (fun toks' h => ?_) fun hstay toks' h => ?_
      · rw [hread, afterKeywordMark?_eq_none_of_take_two hk h]
      · -- The tokens do not begin with a word, since that would have been taken.
        have hword (t : Located) (r : List Located) (s : String) (htoks : toks = t :: r) :
            t.token ≠ .word s := by
          intro ht
          subst htoks
          have hlength := hg.length_rest_le ht r
          rw [hstay, List.length_cons] at hlength
          omega
        rw [hread, afterKeywordMark?_eq_none_of_head hword h]
  · intro t s ht r
    rw [hread]
    cases hk : afterKeywordMark? keyword m (t :: r) with
    | none => exact hg.length_rest_le ht r
    | some kr =>
      obtain ⟨s', r'⟩ := kr
      have hspells := (afterKeywordMark?_eq_some_iff.1 hk).1.length_eq
      have hlength := (hf s' r').length_rest_le
      simp only [List.length_cons, List.length_nil] at hspells hlength ⊢
      omega

end TakesWord

/-! ## Names -/

theorem Name.local_read (expected : Expected) : Local (read expected) :=
  .of_token ofToken? id (unexpected expected) (fun t r n hn => by simp only [read, hn, id])
    (fun t r hn => by simp only [read, hn]) rfl fun _ => .unexpected expected

theorem Name.takesWord_read (expected : Expected) : TakesWord (read expected) where
  isLocal := local_read expected
  length_rest_le ht r := by simp [read, ht, ofToken?, Step.rest]

namespace QualifiedName

theorem readMore_dot {expected : Expected} {d : Located} (hd : d.token = .mark .dot)
    (r : List Located) : readMore expected (d :: r) =
      (Name.read expected r).bind fun n rest => (readMore expected rest).map (n :: ·) := by
  cases r with
  | nil => simp only [readMore, if_pos hd, Name.read, unexpected, Step.bind]
  | cons t r =>
    simp only [readMore, if_pos hd, Name.read]
    cases Name.ofToken? t.token <;> rfl

theorem local_readMore (expected : Expected) : Local (readMore expected) := by
  refine .of_shorter fun toks ih => ?_
  refine .of_afterMark? (fun d r hd => readMore_dot hd r) ?_ ?_ fun _ => .done []
  · intro toks h
    cases toks with
    | nil => rfl
    | cons d r =>
      have hd : d.token ≠ .mark .dot := by
        intro hd
        rw [afterMark?_cons_self hd] at h
        cases h
      rw [readMore.eq_def]
      simp only [if_neg hd]
  · intro r hr
    refine (Name.local_read expected r).bind fun n rest hn => ?_
    have hlength := (afterMark?_eq_some_iff.1 hr).length_eq
    have hlength' := (Name.spells_of_read hn).length_eq
    simp only [List.length_singleton] at hlength hlength'
    exact (ih rest (by omega)).map (n :: ·)

theorem local_read (first more : Expected) : Local (read first more) := fun toks =>
  (Name.local_read first toks).bind fun _ rest _ => (local_readMore more rest).map _

end QualifiedName

namespace Endpoint

/-- The endpoint of a name that was read from the line, if it has a column. -/
def ofRead (line : Nat) (q : QualifiedName) (rest : List Located) : Step Endpoint :=
  match ofName? q with
  | some e => .ok e rest
  | none => .error (.invalidEndpoint q.text line) rest

theorem local_ofRead (line : Nat) (q : QualifiedName) : Local (ofRead line q) := by
  intro toks
  have hstops : (ParseError.invalidEndpoint q.text line).StopsAt [] toks := trivial
  unfold ofRead
  cases ofName? q with
  | some e => exact .done e
  | none => exact .error hstops

theorem local_read : Local read := by
  intro toks
  have hread := (QualifiedName.local_read .tableName .columnName toks).bind fun q rest _ =>
    local_ofRead (lineOf toks) q rest
  refine hread.of_head fun toks' h => ?_
  rw [read, lineOf_congr h]
  rfl

end Endpoint

/-! ## Types of columns -/

namespace TypeName

theorem local_readArguments (free : Bool) : Local (readArguments free) := by
  intro toks
  induction toks generalizing free with
  | nil => exact .of_nil (.unexpected .typeArgument) rfl
  | cons t rest ih =>
    by_cases hp : t.token = .mark .rightParen
    · exact (LocalAt.done []).behind [t] fun r => by
        rw [List.singleton_append, readArguments, if_pos hp]
    by_cases hc : t.token = .mark .comma
    · exact ((ih true).map (t.token :: ·)).behind [t] fun r => by
        rw [List.singleton_append, readArguments, if_neg hp, if_pos hc]
    by_cases ha : (free && isArgument t.token) = true
    · exact ((ih false).map (t.token :: ·)).behind [t] fun r => by
        rw [List.singleton_append, readArguments, if_neg hp, if_neg hc, if_pos ha]
    · exact .of_cons (.unexpected .typeArgument) fun r => by
        rw [readArguments, if_neg hp, if_neg hc, if_neg ha]

theorem local_readOptionalArguments : Local readOptionalArguments := fun toks =>
  .of_afterMark? (f := fun r => (readArguments true r).map some)
    (fun t r ht => by rw [readOptionalArguments, afterMark?_cons_self ht])
    (fun toks h => by rw [readOptionalArguments, h])
    (fun r _ => (local_readArguments true r).map some) fun _ => .done none

end TypeName

/-! ## Settings -/

theorem local_readOperator : Local readOperator :=
  .of_token cardinalityOf? id (unexpected .operator)
    (fun t r c hc => by simp only [readOperator, hc, id])
    (fun t r hc => by simp only [readOperator, hc]) rfl fun _ => .unexpected .operator

namespace Setting

theorem local_readPlain (depth : Nat) : Local (readPlain depth) := by
  intro toks
  induction toks generalizing depth with
  | nil => exact .of_nil (.unexpectedEnd _ rfl) rfl
  | cons t rest ih =>
    by_cases hi : t.token = .endOfInput
    · exact .of_cons (.unexpectedEnd .settingsClose (by simp [atEnd, hi])) fun r => by
        simp only [readPlain, hi]
    by_cases he : EndsSetting t.token ∧ depth = 0
    · obtain ⟨he, rfl⟩ := he
      refine .of_cons (.done []) fun r => ?_
      obtain ht | ht := he <;> simp [readPlain, ht]
    · have hgoes (r : List Located) : readPlain depth ([t] ++ r) =
          (readPlain (parensAfter depth t.token) r).map (t.token :: ·) :=
        readPlain_cons (fun ht hd => he ⟨ht, hd⟩) hi
      exact ((ih _).map (t.token :: ·)).behind [t] hgoes

theorem takesWord_readPlain : TakesWord (readPlain 0) where
  isLocal := local_readPlain 0
  length_rest_le {t s} ht r := by
    have hcons : readPlain 0 (t :: r) = (readPlain (parensAfter 0 t.token) r).map (t.token :: ·) :=
      readPlain_cons (by simp [EndsSetting, ht]) (by simp [ht])
    rw [hcons, Step.rest_map]
    exact (local_readPlain _ r).length_rest_le

theorem local_read : Local read := by
  have hplain := takesWord_readPlain.bind
    (g := fun run rest =>
      if run = [] then unexpected .columnSetting rest else .ok (Setting.plain run) rest)
    fun run rest => by
      by_cases hrun : run = []
      · simp only [if_pos hrun]
        exact .unexpected .columnSetting
      · simp only [if_neg hrun]
        exact .done _
  have href (keyword : String) : Local fun toks => (readOperator toks).bind fun c rest =>
      (Endpoint.read rest).map (Setting.reference keyword c ·) := fun toks =>
    (local_readOperator toks).bind fun c rest _ => (Endpoint.local_read rest).map _
  exact (TakesWord.of_afterKeywordMark? "ref" .colon (fun _ => rfl) href hplain).isLocal

end Setting

namespace Settings

/-- Behind the last setting: the bracket that closes the list. -/
def readClose (s : Setting) (toks : List Located) : Step Settings :=
  match afterMark? .rightBracket toks with
  | some rest => .ok ⟨[s], false⟩ rest
  | none => unexpected .settingsSeparator toks

/-- Behind a setting: a comma and more settings, or the end of the list. -/
def readBehind (s : Setting) (toks : List Located) : Step Settings :=
  match afterMark? .comma toks with
  | some rest => (readItems true rest).map (push s)
  | none => readClose s toks

theorem readItems_eq_bind {afterComma : Bool} {toks : List Located}
    (h : afterMark? .rightBracket toks = none) :
    readItems afterComma toks = (Setting.read toks).bind readBehind := by
  rw [readItems, h]
  simp only
  split
  · rename_i hs
    rw [hs]
    rfl
  · rename_i hs
    rw [hs]
    simp only [Step.bind, readBehind]
    split
    · rename_i hc
      rw [hc]
    · rename_i hc
      rw [hc]
      rfl

theorem local_readItems (afterComma : Bool) : Local (readItems afterComma) := by
  suffices h : ∀ toks afterComma, LocalAt (readItems afterComma) toks from fun toks => h toks afterComma
  intro toks
  induction hn : toks.length using Nat.strongRecOn generalizing toks with
  | ind n ih =>
    intro afterComma
    refine .of_afterMark? (f := fun r => .ok ⟨[], afterComma⟩ r)
      (fun t r ht => by rw [readItems, afterMark?_cons_self ht])
      (fun toks h => readItems_eq_bind h) (fun r _ => .done _) fun _ => ?_
    refine (Setting.local_read toks).bind fun s rest hs => ?_
    have hlength := (Setting.spells_of_read hs).1.length_eq
    refine .of_afterMark? (f := fun r => (readItems true r).map (push s)) (g := readClose s)
      (fun t r ht => by rw [readBehind, afterMark?_cons_self ht])
      (fun toks h => by rw [readBehind, h]) (fun r hr => ?_) fun _ => ?_
    · have hcomma := (afterMark?_eq_some_iff.1 hr).length_eq
      simp only [List.length_singleton] at hcomma
      exact (ih _ (by omega) r rfl true).map (push s)
    · exact .of_afterMark? (f := fun r => .ok ⟨[s], false⟩ r)
        (fun t r ht => by rw [readClose, afterMark?_cons_self ht])
        (fun toks h => by rw [readClose, h]) (fun r _ => .done _) fun _ =>
          .unexpected .settingsSeparator

theorem local_readOptional : Local readOptional := fun toks =>
  .of_afterMark? (f := fun r => (readItems false r).map some)
    (fun t r ht => by rw [readOptional, afterMark?_cons_self ht])
    (fun toks h => by rw [readOptional, h])
    (fun r _ => (local_readItems false r).map some) fun _ => .done none

/-- A list of settings that comes next is taken. -/
theorem readOptional_ne_self {t : Located} (ht : t.token = .mark .leftBracket)
    (toks : List Located) : (readOptional (t :: toks)).rest ≠ t :: toks := by
  intro h
  have hlength := (local_readItems false toks).length_rest_le
  rw [readOptional, afterMark?_cons_self ht, Step.rest_map] at h
  rw [h, List.length_cons] at hlength
  omega

end Settings

/-! ## Columns -/

namespace ColumnLine

/-- What follows the arguments of a type: the brackets of an array, and settings. -/
def readEnd (name : Name) (type : QualifiedName) (args : Option (List Token))
    (toks : List Located) : Step ColumnLine :=
  (TypeName.readArray toks).bind fun isArray rest =>
    (Settings.readOptional rest).map fun settings => ⟨name, ⟨type, args, isArray⟩, settings⟩

/-- Two brackets come next that make a type an array. -/
theorem brackets_eq_some_iff {toks rest : List Located} :
    (afterMark? .leftBracket toks).bind (afterMark? .rightBracket) = some rest ↔
      Spells toks [.mark .leftBracket, .mark .rightBracket] rest := by
  simp only [Option.bind_eq_some_iff, afterMark?_eq_some_iff]
  exact (spells_append_iff (x := [_])).symm

theorem local_readEnd (name : Name) (type : QualifiedName) (args : Option (List Token)) :
    Local (readEnd name type args) := by
  intro toks
  cases harray : (afterMark? .leftBracket toks).bind (afterMark? .rightBracket) with
  | some r =>
    obtain ⟨front, rfl, hfront⟩ := brackets_eq_some_iff.1 harray
    refine ((Settings.local_readOptional r).map fun settings =>
      (⟨name, ⟨type, args, true⟩, settings⟩ : ColumnLine)).behind front fun r => ?_
    rw [readEnd, TypeName.readArray, brackets_eq_some_iff.2 ⟨front, rfl, hfront⟩]
    rfl
  | none =>
    have hsettings := (Settings.local_readOptional toks).map fun settings =>
      (⟨name, ⟨type, args, false⟩, settings⟩ : ColumnLine)
    have hnone {toks' : List Located}
        (h : (afterMark? .leftBracket toks').bind (afterMark? .rightBracket) = none) :
        readEnd name type args toks' = (Settings.readOptional toks').map fun settings =>
          ⟨name, ⟨type, args, false⟩, settings⟩ := by
      rw [readEnd, TypeName.readArray, h]
      rfl
    refine hsettings.of_take_two (fun toks' h => hnone ?_) fun hstay toks' h => hnone ?_
    · rw [Option.eq_none_iff_forall_ne_some]
      intro r hr
      obtain ⟨r', hspells⟩ := (brackets_eq_some_iff.1 hr).exists_of_take_two h
      rw [brackets_eq_some_iff.2 hspells] at harray
      cases harray
    · -- Settings do not come next, since they would have been taken.
      have hbracket : afterMark? .leftBracket toks = none := by
        cases toks with
        | nil => rfl
        | cons t r =>
          refine afterMark?_cons_of_ne fun ht => ?_
          rw [Step.rest_map] at hstay
          exact Settings.readOptional_ne_self ht r hstay
      rw [(afterMark?_congr h).2 hbracket, Option.bind_none]

theorem read_eq_bind : read = fun toks =>
    (Name.read .columnName toks).bind fun name rest =>
      (QualifiedName.read .columnType .columnType rest).bind fun type rest =>
        (TypeName.readOptionalArguments rest).bind (readEnd name type) := by
  funext toks
  simp only [read, TypeName.read, Step.bind_assoc, Step.bind_map]
  rfl

theorem takesWord_read : TakesWord read := by
  rw [read_eq_bind]
  exact (Name.takesWord_read .columnName).bind fun name toks =>
    (QualifiedName.local_read .columnType .columnType toks).bind fun type rest _ =>
      (TypeName.local_readOptionalArguments rest).bind fun args rest _ =>
        local_readEnd name type args rest

end ColumnLine

/-! ## Blocks -/

theorem Block.local_readBody (depth : Nat) : Local (readBody depth) := by
  intro toks
  induction toks generalizing depth with
  | nil => exact .of_nil (.unexpectedEnd _ rfl) rfl
  | cons t rest ih =>
    cases ht : t.token with
    | endOfInput =>
      have hstops : (ParseError.unexpectedEnd .blockClose).StopsAt [t] rest :=
        .inr ⟨t, List.mem_singleton_self t, ht⟩
      exact ⟨[t], rest, _, rfl, .error hstops, fun r _ => by
        simp only [List.singleton_append, readBody, ht]⟩
    | mark m =>
      cases m with
      | leftBrace =>
        exact ((ih (depth + 1)).map (t.token :: ·)).behind [t] fun r => by
          simp only [List.singleton_append, readBody, ht]
      | rightBrace =>
        cases depth with
        | zero =>
          exact (LocalAt.done []).behind [t] fun r => by
            simp only [List.singleton_append, readBody, ht]
        | succ depth =>
          exact ((ih depth).map (t.token :: ·)).behind [t] fun r => by
            simp only [List.singleton_append, readBody, ht]
      | _ =>
        exact ((ih depth).map (t.token :: ·)).behind [t] fun r => by
          simp only [List.singleton_append, readBody, ht]
    | _ =>
      exact ((ih depth).map (t.token :: ·)).behind [t] fun r => by
        simp only [List.singleton_append, readBody, ht]

theorem local_readNoteText : Local readNoteText := by
  intro toks
  cases toks with
  | nil => exact .of_nil (.unexpected .noteText) rfl
  | cons t rest =>
    cases ht : t.token with
    | string s =>
      exact (LocalAt.done s).behind [t] fun r => by
        simp only [List.singleton_append, readNoteText, ht]
    | _ => exact .of_cons (.unexpected .noteText) fun r => by simp only [readNoteText, ht]

namespace Skipped

theorem local_readFrom : Local readFrom := by
  intro toks
  induction toks with
  | nil => exact .of_nil (.unexpectedEnd _ rfl) rfl
  | cons t rest ih =>
    -- The token belongs to the header, unless it ends the header or the input.
    have hgoes (h : ∀ r, readFrom (t :: r) = (readFrom r).map fun p => (t.token :: p.1, p.2)) :
        LocalAt readFrom (t :: rest) :=
      (ih.map fun p : List Token × SkippedBody => (t.token :: p.1, p.2)).behind [t] h
    cases ht : t.token with
    | endOfInput =>
      exact .of_cons (.unexpectedEnd .blockOpen (by simp [atEnd, ht])) fun r => by
        simp only [readFrom, ht]
    | mark m =>
      cases m with
      | leftBrace =>
        exact ((Block.local_readBody 0 rest).map fun body => ([], .block body)).behind [t] fun r => by
          simp only [List.singleton_append, readFrom, ht]
      | colon =>
        exact ((local_readNoteText rest).map fun s => ([], .note s)).behind [t] fun r => by
          simp only [List.singleton_append, readFrom, ht]
      | _ => exact hgoes fun r => by simp only [readFrom, ht]
    | _ => exact hgoes fun r => by simp only [readFrom, ht]

theorem local_read (keyword : String) : Local (read keyword) := fun toks =>
  (local_readFrom toks).map _

end Skipped

/-! ## Tables -/

/-- Local readers of items, up to the brace that closes their block, make a local reader. -/
theorem Local.of_items {read : List Located → Step α} {readAll : List Located → Step (List α)}
    (expected : Expected) (hread : Local read)
    (hlt : ∀ {toks a rest}, read toks = .ok a rest → rest.length < toks.length)
    (hclose : ∀ t r, t.token = .mark .rightBrace → readAll (t :: r) = .ok [] r)
    (hitem : ∀ toks, afterMark? .rightBrace toks = none → readAll toks =
      if atEnd toks then Document.unexpected expected toks
      else (read toks).bind fun a rest => (readAll rest).map (a :: ·)) :
    Local readAll := by
  refine .of_shorter fun toks ih => ?_
  refine .of_afterMark? (f := fun r => .ok [] r) hclose hitem (fun r _ => .done []) fun _ => ?_
  by_cases hend : atEnd toks = true
  · exact .of_head (.unexpected expected) fun toks' h => by rw [if_pos ((atEnd_congr h).2 hend)]
  · refine .of_head ((hread toks).bind fun a rest ha => (ih rest (hlt ha)).map (a :: ·)) ?_
    intro toks' h
    rw [if_neg fun hend' => hend ((atEnd_congr h).1 hend')]

namespace Member

theorem local_read : Local read := by
  have hblock (keyword : String) : Local fun toks =>
      (Block.readBody 0 toks).map (Member.block keyword) := fun toks =>
    (Block.local_readBody 0 toks).map _
  have hnote (keyword : String) : Local fun toks =>
      (readNoteText toks).map (Member.note keyword) := fun toks => (local_readNoteText toks).map _
  have hcolumn := ColumnLine.takesWord_read.map Member.column
  have hnotes := TakesWord.of_afterKeywordMark? "note" .leftBrace
    (fun _ => rfl) hblock hcolumn
  have hmore := TakesWord.of_afterKeywordMark? "note" .colon
    (fun _ => rfl) hnote hnotes
  exact (TakesWord.of_afterKeywordMark? "indexes" .leftBrace (fun _ => rfl) hblock hmore).isLocal

/-- One more member, where the table is not closed. -/
theorem readAll_of_open {toks : List Located} (h : afterMark? .rightBrace toks = none) :
    readAll toks =
      if atEnd toks then unexpected .tableClose toks
      else (read toks).bind fun m rest => (readAll rest).map (m :: ·) := by
  rw [readAll, h]
  simp only
  split
  · rfl
  · split <;> rename_i hm <;> rw [hm] <;> rfl

theorem local_readAll : Local readAll :=
  .of_items .tableClose local_read
    (fun h => (spells_of_read h).length_lt (tokens_ne_nil _))
    (fun t r ht => by rw [readAll, afterMark?_cons_self ht]) fun _ h => readAll_of_open h

end Member

/-- A word that comes next, or none, tells how the reader goes on. -/
theorem Local.of_looksForWord {after : List Located → Option (String × List Located)}
    {read g : List Located → Step α} {f : Nat → String → List Located → Step α}
    (hafter : LooksForWord after)
    (hread : ∀ toks, read toks =
      match after toks with
      | some (s, rest) => f (lineOf toks) s rest
      | none => g toks)
    (hf : ∀ line s, Local (f line s)) (hg : Local g) : Local read := by
  intro toks
  cases toks with
  | nil => exact .of_nil (hg []) (by rw [hread, hafter.nil])
  | cons t r =>
    obtain ⟨s, hsome⟩ | hnone := hafter.cons t
    · refine (hf t.line s r).behind [t] fun r' => ?_
      rw [List.singleton_append, hread, hsome]
      rfl
    · exact .of_cons (hg (t :: r)) fun r' => by rw [hread, hnone]

namespace TableHead

theorem local_readShortName : Local readShortName := by
  refine .of_looksForWord (looksForWord_afterKeyword? "as")
    (f := fun _ word toks => (Name.read .tableAlias toks).map fun name => some (word, name))
    (g := .ok none) (fun toks => ?_)
    (fun _ word toks => (Name.local_read .tableAlias toks).map fun name => some (word, name))
    fun toks => .done none
  rw [readShortName]
  split <;> rename_i h <;> rw [h]

theorem local_read (keyword : String) (line : Nat) : Local (read keyword line) := fun toks =>
  (QualifiedName.local_read .tableName .tableName toks).bind fun _ rest _ =>
    (local_readShortName rest).map _

end TableHead

namespace TableBlock

theorem local_readBody (head : TableHead) : Local (readBody head) := fun toks =>
  (Settings.local_readOptional toks).bind fun settings rest _ =>
    .of_afterMark? (f := fun r => (Member.readAll r).map fun members => ⟨head, settings, members⟩)
      (fun t r ht => by rw [afterMark?_cons_self ht]) (fun toks h => by rw [h])
      (fun r _ => (Member.local_readAll r).map _) fun _ => .unexpected .tableOpen

theorem local_read (keyword : String) (line : Nat) : Local (read keyword line) := fun toks =>
  (TableHead.local_read keyword line toks).bind fun head rest _ => local_readBody head rest

end TableBlock

/-! ## References -/

namespace Reference

theorem local_read : Local read := fun toks =>
  (Endpoint.local_read toks).bind fun _ rest _ =>
    (local_readOperator rest).bind fun _ rest _ =>
      (Endpoint.local_read rest).bind fun _ rest _ => (Settings.local_readOptional rest).map _

theorem local_readAll : Local readAll := by
  refine .of_items .referencesClose local_read
    (fun h => (spells_of_read h).length_lt (tokens_ne_nil _))
    (fun t r ht => by rw [readAll, afterMark?_cons_self ht]) fun toks h => ?_
  rw [readAll, h]
  simp only
  split
  · rfl
  · split <;> rename_i hm <;> rw [hm] <;> rfl

end Reference

namespace ReferenceGroup

theorem local_readName : Local readName :=
  .of_token Name.ofToken? some (.ok none) (fun t r n hn => by simp only [readName, hn])
    (fun t r hn => by simp only [readName, hn]) rfl fun _ => .done none

/-- A block of references. -/
def readBlock (toks : List Located) : Step ReferenceBody :=
  match afterMark? .leftBrace toks with
  | some rest => (Reference.readAll rest).map .block
  | none => unexpected .referencesOpen toks

theorem local_readBlock : Local readBlock := fun toks =>
  .of_afterMark? (f := fun r => (Reference.readAll r).map .block)
    (fun t r ht => by rw [readBlock, afterMark?_cons_self ht])
    (fun toks h => by rw [readBlock, h])
    (fun r _ => (Reference.local_readAll r).map _) fun _ => .unexpected .referencesOpen

theorem local_readBody : Local readBody := fun toks =>
  .of_afterMark? (f := fun r => (Reference.read r).map .single) (g := readBlock)
    (fun t r ht => by rw [readBody, afterMark?_cons_self ht])
    (fun toks h => by rw [readBody, h]; rfl)
    (fun r _ => (Reference.local_read r).map _) fun _ => local_readBlock toks

theorem local_read (keyword : String) : Local (read keyword) := fun toks =>
  (local_readName toks).bind fun _ rest _ => (local_readBody rest).map _

end ReferenceGroup

/-! ## Definitions -/

namespace Definition

/-- **A definition is read looking one token ahead.** -/
theorem local_read : Local read := by
  have hskipped : Local fun toks =>
      match afterSkippedKeyword? toks with
      | some (keyword, rest) => (Skipped.read keyword rest).map skipped
      | none => unexpected .definition toks :=
    .of_looksForWord (looksForWord_findSome? Skipped.keywords) (fun _ => rfl)
      (fun _ keyword toks => (Skipped.local_read keyword toks).map skipped)
      fun _ => .unexpected .definition
  have href := Local.of_looksForWord (looksForWord_afterKeyword? "ref") (fun _ => rfl)
    (fun _ keyword toks => (ReferenceGroup.local_read keyword toks).map references) hskipped
  exact .of_looksForWord (looksForWord_afterKeyword? "table") (fun _ => rfl)
    (fun line keyword toks => (TableBlock.local_read keyword line toks).map table) href

end Definition

end SchemaDiagram.Document
