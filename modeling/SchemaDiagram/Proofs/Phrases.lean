/-
The readers of phrases against the grammar: names, endpoints, types,
settings and skipped blocks.

That a reader consumes what its tree is written with is the law `Spells`,
shown beside each reader. What is added here is that the trees it builds are
well-formed, and the converse: given a well-formed phrase, and behind it
nothing that could belong to it, the reader gives that phrase back. Where a
mark closes the phrase nothing needs to be said of what follows, and the two
directions make one equivalence.
-/
import SchemaDiagram.Proofs.Grammar

namespace SchemaDiagram.Document

/-! ## Taking spelled tokens apart -/

@[simp] theorem spells_nil_iff {a b : List Located} : Spells a [] b ↔ a = b := by
  refine ⟨fun ⟨front, ha, hf⟩ => ?_, fun h => h ▸ Spells.nil⟩
  simp only [List.map_eq_nil_iff] at hf
  simpa [hf] using ha

theorem spells_cons_iff {a b : List Located} {k : Token} {x : List Token} :
    Spells a (k :: x) b ↔ ∃ t a', a = t :: a' ∧ t.token = k ∧ Spells a' x b := by
  constructor
  · rintro ⟨front, rfl, hf⟩
    obtain ⟨t, front', rfl, ht, hx⟩ := List.map_eq_cons_iff.1 hf
    exact ⟨t, front' ++ b, rfl, ht, front', rfl, hx⟩
  · rintro ⟨t, a', rfl, ht, h⟩
    exact h.cons_of_eq ht

theorem spells_append_iff {a c : List Located} {x y : List Token} :
    Spells a (x ++ y) c ↔ ∃ b, Spells a x b ∧ Spells b y c := by
  refine ⟨fun ⟨front, ha, hf⟩ => ?_, fun ⟨b, hx, hy⟩ => hx.append hy⟩
  obtain ⟨f₁, f₂, rfl, h₁, h₂⟩ := List.map_eq_append_iff.1 hf
  exact ⟨f₂ ++ c, ⟨f₁, by simpa using ha, h₁⟩, ⟨f₂, rfl, h₂⟩⟩

/-- What is spelled and what is left make up all tokens. -/
theorem Spells.map_token {a b : List Located} {x : List Token} (h : Spells a x b) :
    a.map Located.token = x ++ b.map Located.token := by
  obtain ⟨front, rfl, rfl⟩ := h
  simp

/-- Tokens that make up a phrase and more tokens begin with that phrase. -/
theorem spells_of_map_token {a : List Located} {x y : List Token}
    (h : a.map Located.token = x ++ y) : ∃ b, Spells a x b ∧ b.map Located.token = y := by
  obtain ⟨f₁, f₂, rfl, h₁, h₂⟩ := List.map_eq_append_iff.1 h
  exact ⟨f₂, ⟨f₁, rfl, h₁⟩, h₂⟩

/-- A step has one outcome. -/
theorem Step.rest_eq_of_ok {α : Type} {s : Step α} {a a' : α} {r r' : List Located}
    (h : s = .ok a r) (h' : s = .ok a' r') : r = r' := by
  rw [h] at h'
  exact (Step.ok.inj h').2

@[simp] theorem afterMark?_cons_self {m : Mark} {t : Located} {rest : List Located}
    (ht : t.token = .mark m) : afterMark? m (t :: rest) = some rest := by
  simp [afterMark?, ht]

theorem afterMark?_cons_of_ne {m : Mark} {t : Located} {rest : List Located}
    (ht : t.token ≠ .mark m) : afterMark? m (t :: rest) = none := by
  simp [afterMark?, ht]

theorem afterMark?_eq_some_iff {m : Mark} {toks rest : List Located} :
    afterMark? m toks = some rest ↔ Spells toks [.mark m] rest := by
  refine ⟨spells_of_afterMark?, fun h => ?_⟩
  obtain ⟨t, toks', rfl, ht, h⟩ := spells_cons_iff.1 h
  rw [afterMark?_cons_self ht, spells_nil_iff.1 h]

theorem afterKeyword?_eq_some_iff {keyword s : String} {toks rest : List Located} :
    afterKeyword? keyword toks = some (s, rest) ↔
      Spells toks [.word s] rest ∧ Text.sameWord s keyword = true := by
  cases toks with
  | nil => simp [afterKeyword?, spells_cons_iff]
  | cons t toks =>
    simp only [afterKeyword?, spells_cons_iff, spells_nil_iff]
    split
    · rename_i s' ht
      split <;> grind
    · rename_i hne
      refine ⟨fun h => by simp at h, ?_⟩
      rintro ⟨⟨t', a, h, ht, -⟩, -⟩
      cases h
      exact absurd ht (hne s)

/-- A keyword and a mark come next, or they do not. -/
theorem afterKeywordMark?_eq_some_iff {keyword s : String} {m : Mark} {toks rest : List Located} :
    afterKeywordMark? keyword m toks = some (s, rest) ↔
      Spells toks [.word s, .mark m] rest ∧ Text.sameWord s keyword = true := by
  constructor
  · intro h
    refine ⟨spells_of_afterKeywordMark? h, ?_⟩
    simp only [afterKeywordMark?] at h
    split at h
    · cases h
    · rename_i hk
      obtain ⟨r, -, he⟩ := Option.map_eq_some_iff.1 h
      cases he
      exact (afterKeyword?_eq_some_iff.1 hk).2
  · rintro ⟨h, hs⟩
    obtain ⟨b, hw, hm⟩ := spells_append_iff (x := [.word s]) |>.1 h
    simp only [afterKeywordMark?, afterKeyword?_eq_some_iff.2 ⟨hw, hs⟩,
      afterMark?_eq_some_iff.2 hm, Option.map_some]

/-- A word other than the keyword comes next. -/
theorem afterKeyword?_eq_none {keyword s : String} {t : Located} {toks : List Located}
    (ht : t.token = .word s) (hs : Text.sameWord s keyword = false) :
    afterKeyword? keyword (t :: toks) = none := by
  simp [afterKeyword?, ht, hs]

/-- The next token is no word at all. -/
theorem afterKeyword?_eq_none_of_ne {keyword : String} {t : Located} {toks : List Located}
    (ht : ∀ s, t.token ≠ .word s) : afterKeyword? keyword (t :: toks) = none := by
  cases h : t.token with
  | word s => exact absurd h (ht s)
  | _ => simp [afterKeyword?, h]

theorem afterKeywordMark?_eq_none {keyword : String} {m : Mark} {t u : Located}
    {toks : List Located} (hu : u.token ≠ .mark m) :
    afterKeywordMark? keyword m (t :: u :: toks) = none := by
  rw [← Option.not_isSome_iff_eq_none, Option.isSome_iff_exists]
  rintro ⟨⟨s, rest⟩, h⟩
  obtain ⟨h, -⟩ := afterKeywordMark?_eq_some_iff.1 h
  obtain ⟨t', a, he, -, h⟩ := spells_cons_iff.1 h
  obtain ⟨u', a', he', hu', -⟩ := spells_cons_iff.1 h
  simp only [List.cons.injEq] at he
  obtain ⟨rfl, rfl⟩ := he
  simp only [List.cons.injEq] at he'
  exact hu (he'.1 ▸ hu')

/-- What comes next cannot go on with a phrase that may end here. -/
structure Separate (toks : List Located) : Prop where
  dot : afterMark? .dot toks = none
  paren : afterMark? .leftParen toks = none
  bracket : afterMark? .leftBracket toks = none

theorem Separate.cons {t : Located} {toks : List Located} (hd : t.token ≠ .mark .dot)
    (hp : t.token ≠ .mark .leftParen) (hb : t.token ≠ .mark .leftBracket) :
    Separate (t :: toks) :=
  ⟨afterMark?_cons_of_ne hd, afterMark?_cons_of_ne hp, afterMark?_cons_of_ne hb⟩

theorem Separate.of_atEnd {toks : List Located} (h : atEnd toks = true) : Separate toks := by
  cases toks with
  | nil => exact ⟨rfl, rfl, rfl⟩
  | cons t toks =>
    have ht : t.token = .endOfInput := by simpa [atEnd] using h
    exact .cons (by simp [ht]) (by simp [ht]) (by simp [ht])

theorem Separate.of_rightBrace {toks rest : List Located} {x : List Token}
    (h : Spells toks (.mark .rightBrace :: x) rest) : Separate toks := by
  obtain ⟨t, toks', rfl, ht, -⟩ := spells_cons_iff.1 h
  exact .cons (by simp [ht]) (by simp [ht]) (by simp [ht])

/-! ## Names -/

namespace Name

@[simp] theorem token_ne_mark (n : Name) (m : Mark) : n.token ≠ .mark m := by cases n <;> simp [token]

@[simp] theorem token_ne_endOfInput (n : Name) : n.token ≠ .endOfInput := by
  cases n <;> simp [token]

theorem read_of_spells {expected : Expected} {toks rest : List Located} {n : Name}
    (h : Spells toks [n.token] rest) : read expected toks = .ok n rest := by
  obtain ⟨t, toks', rfl, ht, h⟩ := spells_cons_iff.1 h
  rw [spells_nil_iff.1 h]
  simp only [read, ht, ofToken?_token]

end Name

/-- A name comes next: nothing of the phrase before it goes on. -/
theorem Separate.of_name {toks rest : List Located} {n : Name} {x : List Token}
    (h : Spells toks (n.token :: x) rest) : Separate toks := by
  obtain ⟨t, toks', rfl, ht, -⟩ := spells_cons_iff.1 h
  exact .cons (by simp [ht]) (by simp [ht]) (by simp [ht])

theorem atEnd_eq_false_of_name {toks rest : List Located} {n : Name} {x : List Token}
    (h : Spells toks (n.token :: x) rest) : atEnd toks = false := by
  obtain ⟨t, toks', rfl, ht, -⟩ := spells_cons_iff.1 h
  simp [atEnd, ht]

theorem afterMark?_eq_none_of_name {toks rest : List Located} {n : Name} {x : List Token}
    {m : Mark} (h : Spells toks (n.token :: x) rest) : afterMark? m toks = none := by
  obtain ⟨t, toks', rfl, ht, -⟩ := spells_cons_iff.1 h
  exact afterMark?_cons_of_ne (by simp [ht])

namespace QualifiedName

theorem readMore_of_spells {expected : Expected} {toks rest : List Located} {ns : List Name}
    (h : Spells toks (moreTokens ns) rest) (hr : afterMark? .dot rest = none) :
    readMore expected toks = .ok ns rest := by
  induction ns generalizing toks with
  | nil =>
    rw [spells_nil_iff.1 h]
    cases rest with
    | nil => rfl
    | cons t rest =>
      have ht : t.token ≠ .mark .dot := by
        intro ht
        simp [afterMark?, ht] at hr
      rw [readMore.eq_def]
      simp only [if_neg ht]
  | cons n ns ih =>
    simp only [moreTokens, List.flatMap_cons, List.cons_append, List.nil_append] at h
    obtain ⟨d, toks, rfl, hd, h⟩ := spells_cons_iff.1 h
    obtain ⟨t, toks, rfl, ht, h⟩ := spells_cons_iff.1 h
    simp only [readMore, hd, if_true, ht, Name.ofToken?_token, ih h, Step.map]

theorem read_of_spells {first more : Expected} {toks rest : List Located} {q : QualifiedName}
    (h : Spells toks q.tokens rest) (hr : afterMark? .dot rest = none) :
    read first more toks = .ok q rest := by
  obtain ⟨b, hn, hm⟩ := spells_append_iff (x := [q.first.token]) |>.1 h
  simp only [read, Name.read_of_spells hn, Step.bind, readMore_of_spells hm hr, Step.map]

end QualifiedName

namespace Endpoint

theorem ofName?_of_tokens (e : Endpoint) :
    ofName? ⟨e.table.first, e.table.more ++ [e.field]⟩ = some e := by
  simp [ofName?]

theorem read_of_spells {toks rest : List Located} {e : Endpoint}
    (h : Spells toks e.tokens rest) (hr : afterMark? .dot rest = none) :
    read toks = .ok e rest := by
  have htokens : e.tokens =
      QualifiedName.tokens ⟨e.table.first, e.table.more ++ [e.field]⟩ := by
    simp [tokens, QualifiedName.tokens, QualifiedName.moreTokens]
  rw [htokens] at h
  simp only [read, QualifiedName.read_of_spells h hr, Step.bind, ofName?_of_tokens]

end Endpoint

/-! ## Types of columns -/

/-- The arguments behind a place that is free, or is filled already. -/
def IsArgumentsFrom (free : Bool) (args : List Token) : Prop :=
  if free then IsArguments args else args = [] ∨ ∃ more, args = .mark .comma :: more ∧ IsArguments more

theorem isArguments_nil : IsArguments [] := ⟨[], by simp, rfl⟩

theorem isArguments_comma_cons {args : List Token} (h : IsArguments args) :
    IsArguments (.mark .comma :: args) := by
  obtain ⟨places, hp, rfl⟩ := h
  cases places with
  | nil => exact ⟨[none, none], by simp, rfl⟩
  | cons p ps => exact ⟨none :: p :: ps, by simpa using hp, by simp [List.intercalate_cons_cons]⟩

theorem isArguments_argument_cons {t : Token} {args : List Token}
    (ht : TypeName.isArgument t = true) (h : IsArgumentsFrom false args) :
    IsArguments (t :: args) := by
  rcases h with rfl | ⟨more, rfl, places, hp, rfl⟩
  · exact ⟨[some t], by simpa using ht, rfl⟩
  · cases places with
    | nil => exact ⟨[some t, none], by simpa using ht, rfl⟩
    | cons p ps =>
      refine ⟨some t :: p :: ps, ?_, by simp [List.intercalate_cons_cons]⟩
      intro u hu
      rcases List.mem_cons.1 hu with hu | hu
      · exact Option.some.inj hu ▸ ht
      · exact hp u hu

/-- A first place is empty or filled; behind it the list ends or a comma follows. -/
theorem IsArguments.cases {args : List Token} (h : IsArguments args) :
    IsArgumentsFrom false args ∨
      ∃ t more, args = t :: more ∧ TypeName.isArgument t = true ∧ IsArgumentsFrom false more := by
  obtain ⟨places, hp, rfl⟩ := h
  have tail : ∀ (q : Option Token) (qs : List (Option Token)), (∀ t, some t ∈ q :: qs → TypeName.isArgument t = true) →
      IsArgumentsFrom false (.mark .comma :: [.mark .comma].intercalate ((q :: qs).map Option.toList)) :=
    fun q qs hq => .inr ⟨_, rfl, q :: qs, hq, rfl⟩
  match places with
  | [] => exact .inl (.inl rfl)
  | [none] => exact .inl (.inl rfl)
  | [some t] => exact .inr ⟨t, [], rfl, hp t (by simp), .inl rfl⟩
  | none :: q :: qs =>
    refine .inl ?_
    simpa [List.intercalate_cons_cons] using tail q qs fun t ht => hp t (by simp_all)
  | some t :: q :: qs =>
    refine .inr ⟨t, _, by simp [List.intercalate_cons_cons]; rfl, hp t (by simp), ?_⟩
    simpa using tail q qs fun t ht => hp t (by simp_all)

namespace TypeName

theorem isArgument_ne_comma {t : Token} (h : isArgument t = true) : t ≠ .mark .comma := by
  rintro rfl
  simp [isArgument] at h

theorem isArgument_ne_rightParen {t : Token} (h : isArgument t = true) :
    t ≠ .mark .rightParen := by
  rintro rfl
  simp [isArgument] at h

theorem isArguments_of_readArguments {free : Bool} {toks rest : List Located}
    {args : List Token} (h : readArguments free toks = .ok args rest) :
    IsArgumentsFrom free args := by
  fun_induction readArguments free toks generalizing args with
  | case1 => cases h
  | case2 free t toks ht =>
    cases h
    cases free
    · exact .inl rfl
    · exact isArguments_nil
  | case3 free t toks _ ht ih =>
    obtain ⟨more, h', rfl⟩ := Step.map_eq_ok_iff.1 h
    have hmore : IsArguments more := ih h'
    rw [ht]
    cases free
    · exact .inr ⟨more, rfl, hmore⟩
    · exact isArguments_comma_cons hmore
  | case4 free t toks _ _ hf ih =>
    obtain ⟨more, h', rfl⟩ := Step.map_eq_ok_iff.1 h
    simp only [Bool.and_eq_true] at hf
    rw [hf.1]
    exact isArguments_argument_cons hf.2 (ih h')
  | case5 => cases h

theorem readArguments_of_spells {free : Bool} {toks rest : List Located} {args : List Token}
    (hargs : IsArgumentsFrom free args) (h : Spells toks (args ++ [.mark .rightParen]) rest) :
    readArguments free toks = .ok args rest := by
  induction args generalizing free toks with
  | nil =>
    obtain ⟨t, toks, rfl, ht, h⟩ := spells_cons_iff.1 h
    rw [spells_nil_iff.1 h, readArguments, if_pos ht]
  | cons k args ih =>
    obtain ⟨t, toks, rfl, ht, hrest⟩ := spells_cons_iff.1 h
    have comma : ∀ {more}, k = .mark .comma → args = more → IsArguments more →
        readArguments free (t :: toks) = .ok (k :: args) rest := by
      rintro more rfl rfl hmore
      rw [readArguments, if_neg (by simp [ht]), if_pos ht, @ih true _ hmore hrest, ht]
      rfl
    cases free with
    | false =>
      rcases hargs with hargs | ⟨more, hargs, hmore⟩
      · cases hargs
      · cases hargs
        exact comma rfl rfl hmore
    | true =>
      rcases IsArguments.cases hargs with hargs | ⟨t', more, he, harg, hmore⟩
      · rcases hargs with hargs | ⟨more, hargs, hmore⟩
        · cases hargs
        · cases hargs
          exact comma rfl rfl hmore
      · cases he
        rw [readArguments, if_neg (ht ▸ isArgument_ne_rightParen harg),
          if_neg (ht ▸ isArgument_ne_comma harg), if_pos (by simp [ht, harg]),
          @ih false _ hmore hrest, ht]
        rfl

/-- Two brackets with nothing between them come next. -/
def ArrayNext (toks : List Located) : Prop :=
  ((afterMark? .leftBracket toks).bind (afterMark? .rightBracket)).isSome = true

theorem wellFormed_of_read {toks rest : List Located} {t : TypeName}
    (h : read toks = .ok t rest) :
    t.WellFormed ∧ (t.isArray = false → ¬ ArrayNext rest) := by
  obtain ⟨name, r, -, h⟩ := Step.bind_eq_ok_iff.1 h
  obtain ⟨args, r', ha, h⟩ := Step.bind_eq_ok_iff.1 h
  obtain ⟨isArray, hb, rfl⟩ := Step.map_eq_ok_iff.1 h
  constructor
  · rintro args rfl
    unfold readOptionalArguments at ha
    split at ha
    · cases ha
    · obtain ⟨args', ha, he⟩ := Step.map_eq_ok_iff.1 ha
      cases he
      exact @isArguments_of_readArguments true _ _ _ ha
  · rintro rfl
    unfold readArray at hb
    split at hb
    · cases hb
      simp_all [ArrayNext]
    · cases hb

theorem read_of_spells {toks rest : List Located} {t : TypeName} (ht : t.WellFormed)
    (h : Spells toks t.tokens rest) (hd : afterMark? .dot rest = none)
    (hp : afterMark? .leftParen rest = none) (hb : t.isArray = false → ¬ ArrayNext rest) :
    read toks = .ok t rest := by
  obtain ⟨name, args, isArray⟩ := t
  obtain ⟨r, hname, h⟩ := spells_append_iff.1 h
  obtain ⟨r', hargs, harray⟩ := spells_append_iff.1 h
  -- Behind the name stands an opening mark, or what follows the type.
  have hr' : afterMark? .dot r' = none ∧ afterMark? .leftParen r' = none := by
    cases isArray with
    | false =>
      rw [spells_nil_iff.1 harray]
      exact ⟨hd, hp⟩
    | true =>
      obtain ⟨u, a, rfl, hu, -⟩ := spells_cons_iff.1 harray
      exact ⟨afterMark?_cons_of_ne (by simp [hu]), afterMark?_cons_of_ne (by simp [hu])⟩
  have hr : afterMark? .dot r = none := by
    cases args with
    | none =>
      rw [spells_nil_iff.1 hargs]
      exact hr'.1
    | some args =>
      obtain ⟨u, a, rfl, hu, -⟩ := spells_cons_iff.1 hargs
      exact afterMark?_cons_of_ne (by simp [hu])
  have hreadArgs : readOptionalArguments r = .ok args r' := by
    unfold readOptionalArguments
    cases args with
    | none =>
      rw [spells_nil_iff.1 hargs, hr'.2]
    | some args =>
      obtain ⟨u, a, rfl, hu, hargs⟩ := spells_cons_iff.1 hargs
      simp only [afterMark?_cons_self hu,
        @readArguments_of_spells true _ _ _ (ht args rfl) hargs, Step.map]
  have hreadArray : readArray r' = .ok isArray rest := by
    unfold readArray
    cases isArray with
    | false =>
      rw [spells_nil_iff.1 harray]
      rw [Option.not_isSome_iff_eq_none.1 (hb rfl)]
    | true =>
      obtain ⟨u, a, rfl, hu, harray⟩ := spells_cons_iff.1 harray
      rw [afterMark?_cons_self hu, Option.bind_some, afterMark?_eq_some_iff.2 harray]
  simp only [read, QualifiedName.read_of_spells hname hr, Step.bind, hreadArgs, hreadArray,
    Step.map]

end TypeName

/-! ## One setting -/

theorem readOperator_of_spells {toks rest : List Located} {c : Cardinality}
    (h : Spells toks [.mark (operatorMark c)] rest) : readOperator toks = .ok c rest := by
  obtain ⟨t, toks, rfl, ht, h⟩ := spells_cons_iff.1 h
  have hc : cardinalityOf? (.mark (operatorMark c)) = some c := by cases c <;> rfl
  rw [spells_nil_iff.1 h]
  simp only [readOperator, ht, hc]

/-- The next token ends a setting. -/
def SettingEnds (rest : List Located) : Prop :=
  (∃ r, afterMark? .comma rest = some r) ∨ ∃ r, afterMark? .rightBracket rest = some r

theorem settingEnds_cons {t : Located} {rest : List Located} (ht : EndsSetting t.token) :
    SettingEnds (t :: rest) := by
  rcases ht with ht | ht
  · exact .inl ⟨rest, afterMark?_cons_self ht⟩
  · exact .inr ⟨rest, afterMark?_cons_self ht⟩

theorem SettingEnds.exists_cons {rest : List Located} (h : SettingEnds rest) :
    ∃ t r, rest = t :: r ∧ EndsSetting t.token := by
  rcases h with ⟨r, h⟩ | ⟨r, h⟩ <;>
    obtain ⟨t, r, rfl, ht, -⟩ := spells_cons_iff.1 (afterMark?_eq_some_iff.1 h)
  · exact ⟨t, r, rfl, .inl ht⟩
  · exact ⟨t, r, rfl, .inr ht⟩

theorem parensAfter_of_ne {depth : Nat} {t : Token} (hp : t ≠ .mark .leftParen)
    (hq : t ≠ .mark .rightParen) : parensAfter depth t = depth := by
  unfold parensAfter
  split
  · exact absurd rfl hp
  · exact absurd rfl hq
  · rfl

theorem isRun_nil_iff {depth : Nat} : IsRun depth [] ↔ depth = 0 :=
  ⟨fun h => h.final, fun h => ⟨by simp, h, by simp⟩⟩

/-- A run is its first token, which ends nothing, and a run behind it. -/
theorem isRun_cons_iff {depth : Nat} {t : Token} {run : List Token} :
    IsRun depth (t :: run) ↔
      (EndsSetting t → depth ≠ 0) ∧ t ≠ .endOfInput ∧ IsRun (parensAfter depth t) run := by
  constructor
  · intro h
    refine ⟨h.inner [] t run rfl, fun ht => h.input (by simp [ht]), ?_, h.final,
      fun hm => h.input (by simp [hm])⟩
    intro front u back he
    exact h.inner (t :: front) u back (by simp [he])
  · rintro ⟨ht, hi, h⟩
    refine ⟨?_, h.final, by simpa [hi.symm] using h.input⟩
    intro front u back he hu
    cases front with
    | nil =>
      cases he
      exact ht hu
    | cons f front =>
      simp only [List.cons_append, List.cons.injEq] at he
      obtain ⟨rfl, he⟩ := he
      exact h.inner front u back he hu

namespace Setting

theorem isRun_of_readPlain {depth : Nat} {toks rest : List Located} {run : List Token}
    (h : readPlain depth toks = .ok run rest) : IsRun depth run ∧ SettingEnds rest := by
  fun_induction readPlain depth toks generalizing run with
  | case1 | case2 => cases h
  | case3 t toks ht | case5 t toks ht =>
    cases h
    exact ⟨isRun_nil_iff.2 rfl, settingEnds_cons (by simp [EndsSetting, ht])⟩
  | case4 depth t toks ht hd ih | case6 depth t toks ht hd ih =>
    obtain ⟨run', h', rfl⟩ := Step.map_eq_ok_iff.1 h
    exact ⟨isRun_cons_iff.2 ⟨fun _ => hd, by simp [ht],
      by simpa [ht, parensAfter] using (ih h').1⟩, (ih h').2⟩
  | case7 depth t toks ht ih | case8 depth t toks ht ih =>
    obtain ⟨run', h', rfl⟩ := Step.map_eq_ok_iff.1 h
    exact ⟨isRun_cons_iff.2 ⟨by simp [EndsSetting, ht], by simp [ht],
      by simpa [ht, parensAfter] using (ih h').1⟩, (ih h').2⟩
  | case9 depth t toks hi hc hb hp hq ih =>
    obtain ⟨run', h', rfl⟩ := Step.map_eq_ok_iff.1 h
    have hends : ¬ EndsSetting t.token := fun he => he.elim hc hb
    refine ⟨isRun_cons_iff.2 ⟨fun he => absurd he hends, hi, ?_⟩, (ih h').2⟩
    rw [parensAfter_of_ne hp hq]
    exact (ih h').1

theorem readPlain_cons {depth : Nat} {t : Located} {toks : List Located}
    (ht : EndsSetting t.token → depth ≠ 0) (hi : t.token ≠ .endOfInput) :
    readPlain depth (t :: toks) =
      (readPlain (parensAfter depth t.token) toks).map (t.token :: ·) := by
  rw [readPlain]
  split
  · exact absurd ‹_› hi
  · rename_i h
    rw [if_neg (ht (.inl h)), h]
    rfl
  · rename_i h
    rw [if_neg (ht (.inr h)), h]
    rfl
  · rename_i h
    rw [h]
    rfl
  · rename_i h
    rw [h]
    rfl
  · rename_i hp hq
    rw [parensAfter_of_ne hp hq]

theorem readPlain_of_spells {depth : Nat} {toks rest : List Located} {run : List Token}
    (hrun : IsRun depth run) (h : Spells toks run rest) (hr : SettingEnds rest) :
    readPlain depth toks = .ok run rest := by
  induction run generalizing depth toks with
  | nil =>
    obtain ⟨t, r, rfl, ht⟩ := hr.exists_cons
    rw [spells_nil_iff.1 h, isRun_nil_iff.1 hrun, readPlain]
    rcases ht with ht | ht <;> simp [ht]
  | cons k run ih =>
    obtain ⟨t, toks, rfl, rfl, hrest⟩ := spells_cons_iff.1 h
    obtain ⟨hk, hi, hrun⟩ := isRun_cons_iff.1 hrun
    rw [readPlain_cons hk hi, ih hrun hrest]
    rfl

theorem wellFormed_of_read {toks rest : List Located} {s : Setting} (h : read toks = .ok s rest) :
    s.WellFormed := by
  unfold read at h
  split at h
  · rename_i keyword r hk
    obtain ⟨c, r', -, h⟩ := Step.bind_eq_ok_iff.1 h
    obtain ⟨e, -, rfl⟩ := Step.map_eq_ok_iff.1 h
    exact (afterKeywordMark?_eq_some_iff.1 hk).2
  · rename_i hk
    obtain ⟨run, r, hr, h⟩ := Step.bind_eq_ok_iff.1 h
    split at h
    · cases h
    · rename_i hne
      cases h
      refine ⟨hne, (isRun_of_readPlain hr).1, ?_⟩
      rintro s more rfl
      rw [Bool.eq_false_iff]
      intro hs
      obtain ⟨b, hb, -⟩ := spells_append_iff (x := [.word s, .mark .colon]) |>.1
        (spells_of_readPlain hr)
      rw [afterKeywordMark?_eq_some_iff.2 ⟨hb, hs⟩] at hk
      cases hk

/-- A plain setting is not taken for a reference. -/
theorem afterKeywordMark?_of_plain {toks rest : List Located} {run : List Token}
    (hrun : (plain run).WellFormed) (h : Spells toks run rest) (hr : SettingEnds rest) :
    afterKeywordMark? "ref" .colon toks = none := by
  obtain ⟨hne, -, href⟩ := hrun
  obtain ⟨r, q, rfl, hq⟩ := hr.exists_cons
  match run, hne with
  | [k], _ =>
    obtain ⟨t, toks, rfl, -, h⟩ := spells_cons_iff.1 h
    rw [spells_nil_iff.1 h]
    refine afterKeywordMark?_eq_none ?_
    rcases hq with hq | hq <;> simp [hq]
  | k :: l :: more, _ =>
    obtain ⟨t, toks, rfl, ht, h⟩ := spells_cons_iff.1 h
    obtain ⟨u, toks, rfl, hu, h⟩ := spells_cons_iff.1 h
    by_cases hl : l = .mark .colon
    · simp only [afterKeywordMark?]
      cases k with
      | word s => rw [afterKeyword?_eq_none ht (href s more (by rw [hl]))]
      | _ => rw [afterKeyword?_eq_none_of_ne (by simp [ht])]
    · exact afterKeywordMark?_eq_none (hu ▸ hl)

theorem read_of_spells {toks rest : List Located} {s : Setting} (hs : s.WellFormed)
    (h : Spells toks s.tokens rest) (hr : SettingEnds rest) : read toks = .ok s rest := by
  cases s with
  | reference keyword c target =>
    obtain ⟨r, hk, h⟩ := spells_append_iff (x := [.word keyword, .mark .colon]) |>.1 h
    obtain ⟨r', hc, htarget⟩ := spells_append_iff (x := [.mark (operatorMark c)]) |>.1 h
    have hd : afterMark? .dot rest = none := by
      obtain ⟨t, q, rfl, ht⟩ := hr.exists_cons
      refine afterMark?_cons_of_ne ?_
      rcases ht with ht | ht <;> simp [ht]
    simp only [read, afterKeywordMark?_eq_some_iff.2 ⟨hk, hs⟩, readOperator_of_spells hc,
      Step.bind, Endpoint.read_of_spells htarget hd, Step.map]
  | plain run =>
    simp only [read, afterKeywordMark?_of_plain hs h hr, readPlain_of_spells hs.2.1 h hr,
      Step.bind, if_neg hs.1]

/-- A setting does not begin with what ends one. -/
theorem not_endsSetting_of_spells {toks rest : List Located} {s : Setting} {x : List Token}
    (hs : s.WellFormed) (h : Spells toks (s.tokens ++ x) rest) :
    afterMark? .rightBracket toks = none := by
  cases s with
  | reference keyword c target =>
    obtain ⟨t, toks, rfl, ht, -⟩ := spells_cons_iff.1 h
    exact afterMark?_cons_of_ne (by simp [ht])
  | plain run =>
    obtain ⟨hne, hrun, -⟩ := hs
    obtain ⟨k, run, rfl⟩ := List.exists_cons_of_ne_nil hne
    obtain ⟨t, toks, rfl, ht, -⟩ := spells_cons_iff.1 h
    refine afterMark?_cons_of_ne fun hb => ?_
    exact (isRun_cons_iff.1 hrun).1 (.inr (ht ▸ hb)) rfl

end Setting

/-! ## Lists of settings -/

namespace Settings

/-- What `readItems` accepts; `afterComma` says whether an empty list would end in a comma. -/
structure IsItems (afterComma : Bool) (ss : Settings) : Prop where
  items : ∀ s ∈ ss.items, s.WellFormed
  comma : ss.items = [] → ss.trailingComma = afterComma

theorem IsItems.push {afterComma : Bool} {s : Setting} {ss : Settings} (hs : s.WellFormed)
    (h : IsItems true ss) : IsItems afterComma (push s ss) :=
  ⟨by simpa [Settings.push] using ⟨hs, h.items⟩, fun he => by simp [Settings.push] at he⟩

theorem isItems_of_readItems {afterComma : Bool} {toks rest : List Located} {ss : Settings}
    (h : readItems afterComma toks = .ok ss rest) : IsItems afterComma ss := by
  fun_induction readItems afterComma toks generalizing ss with
  | case1 afterComma toks r hr =>
    cases h
    exact ⟨by simp, fun _ => rfl⟩
  | case2 => cases h
  | case3 afterComma toks _ s r hs r' hc ih =>
    obtain ⟨ss', h', rfl⟩ := Step.map_eq_ok_iff.1 h
    exact (ih h').push (Setting.wellFormed_of_read hs)
  | case4 afterComma toks _ s r hs _ r' hr =>
    cases h
    exact ⟨by simpa using Setting.wellFormed_of_read hs, by simp⟩
  | case5 => cases h

theorem readItems_cons {afterComma : Bool} {toks r r' : List Located} {s : Setting}
    (hb : afterMark? .rightBracket toks = none) (hs : Setting.read toks = .ok s r)
    (hc : afterMark? .comma r = some r') :
    readItems afterComma toks = (readItems true r').map (push s) := by
  rw [readItems, hb]
  simp only
  split
  · rename_i he
    rw [hs] at he
    cases he
  · rename_i s' r₀ he
    rw [hs] at he
    cases he
    split
    · rename_i r₁ he
      rw [hc] at he
      cases he
      rfl
    · rename_i he
      rw [hc] at he
      cases he

theorem readItems_last {afterComma : Bool} {toks r r' : List Located} {s : Setting}
    (hb : afterMark? .rightBracket toks = none) (hs : Setting.read toks = .ok s r)
    (hr : afterMark? .rightBracket r = some r') :
    readItems afterComma toks = .ok ⟨[s], false⟩ r' := by
  have hc : afterMark? .comma r = none := by
    obtain ⟨t, q, rfl, ht, -⟩ := spells_cons_iff.1 (afterMark?_eq_some_iff.1 hr)
    exact afterMark?_cons_of_ne (by simp [ht])
  rw [readItems, hb]
  simp only
  split
  · rename_i he
    rw [hs] at he
    cases he
  · rename_i s' r₀ he
    rw [hs] at he
    cases he
    split
    · rename_i r₁ he
      rw [hc] at he
      cases he
    · rw [hr]

theorem readItems_of_spells {afterComma : Bool} {toks rest : List Located} {ss : Settings}
    (hss : IsItems afterComma ss) (h : Spells toks ss.innerTokens rest) :
    readItems afterComma toks = .ok ss rest := by
  obtain ⟨items, trailing⟩ := ss
  induction items generalizing afterComma toks with
  | nil =>
    obtain rfl := hss.comma rfl
    rw [readItems, afterMark?_eq_some_iff.2 (by simpa [innerTokens, listTokens] using h)]
  | cons s items ih =>
    have hs : s.WellFormed := hss.items s (by simp)
    -- The list ends here without a comma, or one follows and reading goes on behind it.
    by_cases hlast : items = [] ∧ trailing = false
    · obtain ⟨rfl, rfl⟩ := hlast
      have h : Spells toks (s.tokens ++ [.mark .rightBracket]) rest := by
        simpa [innerTokens, listTokens] using h
      obtain ⟨r, hitem, hr⟩ := spells_append_iff.1 h
      have hr' := afterMark?_eq_some_iff.2 hr
      exact readItems_last (Setting.not_endsSetting_of_spells hs h)
        (Setting.read_of_spells hs hitem (.inr ⟨_, hr'⟩)) hr'
    · have he : items = [] → trailing = true := by
        intro hi
        cases trailing
        · exact absurd ⟨hi, rfl⟩ hlast
        · rfl
      have h : Spells toks (s.tokens ++ .mark .comma :: innerTokens ⟨items, trailing⟩) rest := by
        rw [← innerTokens_push he]
        exact h
      obtain ⟨r, hitem, hr⟩ := spells_append_iff.1 h
      obtain ⟨r', hc, hmore⟩ := spells_append_iff (x := [.mark .comma]) |>.1 hr
      have hc' := afterMark?_eq_some_iff.2 hc
      have hmore : readItems true r' = .ok ⟨items, trailing⟩ rest :=
        ih ⟨fun s hs => hss.items s (by simp [hs]), he⟩ hmore
      rw [readItems_cons (Setting.not_endsSetting_of_spells hs h)
        (Setting.read_of_spells hs hitem (.inl ⟨_, hc'⟩)) hc', hmore]
      rfl

/-- Behind an opening bracket exactly the well-formed lists of settings are read. -/
theorem readItems_eq_ok_iff {toks rest : List Located} {ss : Settings} :
    readItems false toks = .ok ss rest ↔ ss.WellFormed ∧ Spells toks ss.innerTokens rest := by
  constructor
  · intro h
    have hi := isItems_of_readItems h
    exact ⟨⟨hi.items, hi.comma⟩, (spells_of_readItems h).1⟩
  · rintro ⟨hss, h⟩
    exact readItems_of_spells ⟨hss.items, hss.comma⟩ h

/-- Settings do not begin with the bracket that ends them. -/
theorem not_rightBracket_of_spells {toks rest : List Located} {ss : Settings} (hss : ss.WellFormed)
    (hi : ss.items ≠ []) (h : Spells toks ss.innerTokens rest) :
    afterMark? .rightBracket toks = none := by
  obtain ⟨s, items, hitems⟩ := List.exists_cons_of_ne_nil hi
  obtain ⟨x, hx⟩ : ∃ x, ss.innerTokens = s.tokens ++ x := by
    rw [innerTokens, hitems]
    cases items with
    | nil => exact ⟨_, List.append_assoc ..⟩
    | cons s' items => exact ⟨_, List.append_assoc ..⟩
  exact Setting.not_endsSetting_of_spells (hss.items s (by simp [hitems])) (hx ▸ h)

theorem WellFormed.eq_of_items_eq_nil {ss : Settings} (hss : ss.WellFormed) (hi : ss.items = []) :
    ss = ⟨[], false⟩ := by
  obtain ⟨items, trailing⟩ := ss
  have htrailing := hss.comma hi
  simp only at hi htrailing
  rw [hi, htrailing]

/-- Two brackets with nothing between them are the empty list. -/
theorem WellFormed.eq_of_innerTokens_eq {ss : Settings} (hss : ss.WellFormed)
    (h : ss.innerTokens = [.mark .rightBracket]) : ss = ⟨[], false⟩ := by
  refine hss.eq_of_items_eq_nil ?_
  by_cases hi : ss.items = []
  · exact hi
  · have hspells : Spells [⟨.mark .rightBracket, 0⟩] ss.innerTokens [] := h ▸ Spells.nil.cons
    have hnone := not_rightBracket_of_spells hss hi hspells
    rw [afterMark?_cons_self rfl] at hnone
    cases hnone

theorem wellFormed_of_readOptional {toks rest : List Located} {ss : Option Settings}
    (h : readOptional toks = .ok ss rest) : OptionalWellFormed ss := by
  unfold readOptional at h
  split at h
  · cases h
    intro s hs
    cases hs
  · obtain ⟨ss', h', rfl⟩ := Step.map_eq_ok_iff.1 h
    intro s hs
    cases hs
    exact (readItems_eq_ok_iff.1 h').1

theorem readOptional_of_spells {toks rest : List Located} {ss : Option Settings}
    (hss : OptionalWellFormed ss) (h : Spells toks (optionalTokens ss) rest)
    (hr : ss = none → afterMark? .leftBracket rest = none) :
    readOptional toks = .ok ss rest := by
  unfold readOptional
  cases ss with
  | none =>
    rw [spells_nil_iff.1 h, hr rfl]
  | some ss =>
    obtain ⟨t, toks, rfl, ht, h⟩ := spells_cons_iff.1 h
    simp only [afterMark?_cons_self ht, readItems_eq_ok_iff.2 ⟨hss ss rfl, h⟩, Step.map]

end Settings

/-! ## Blocks that are skipped -/

/-- A run of tokens that closes `depth` braces more than it opens. -/
def Closes : Nat → List Token → Prop
  | 0, run => Balanced run
  | depth + 1, run =>
    ∃ front more, run = front ++ .mark .rightBrace :: more ∧ Balanced front ∧ Closes depth more

theorem Balanced.append {a b : List Token} (ha : Balanced a) (hb : Balanced b) :
    Balanced (a ++ b) := by
  induction ha with
  | nil => exact hb
  | other h₁ h₂ h₃ _ ih => exact .other h₁ h₂ h₃ ih
  | block hi _ _ ih =>
    simp only [List.cons_append, List.append_assoc]
    exact .block hi ih

/-- More balanced tokens in front change nothing. -/
theorem Closes.append {a b : List Token} (ha : Balanced a) :
    ∀ {depth : Nat}, Closes depth b → Closes depth (a ++ b)
  | 0, hb => Balanced.append ha hb
  | _ + 1, ⟨front, more, hb, hf, hm⟩ =>
    ⟨a ++ front, more, by rw [hb, List.append_assoc], ha.append hf, hm⟩

theorem Closes.cons {depth : Nat} {t : Token} {run : List Token} (hl : t ≠ .mark .leftBrace)
    (hr : t ≠ .mark .rightBrace) (hi : t ≠ .endOfInput) (h : Closes depth run) :
    Closes depth (t :: run) :=
  Closes.append (a := [t]) (.other hl hr hi .nil) h

theorem Closes.leftBrace {depth : Nat} {run : List Token} (h : Closes (depth + 1) run) :
    Closes depth (.mark .leftBrace :: run) := by
  obtain ⟨front, more, rfl, hf, hm⟩ := h
  simpa using Closes.append (.block hf .nil) hm

/-- What balanced tokens begin with: a block, or a token that is no brace. -/
theorem Balanced.cases_cons {t : Token} {run : List Token} (h : Balanced (t :: run)) :
    t ≠ .endOfInput ∧ t ≠ .mark .rightBrace ∧ (t = .mark .leftBrace → Closes 1 run) ∧
      (t ≠ .mark .leftBrace → Balanced run) := by
  cases h with
  | other hl hr hi hm => exact ⟨hi, hr, fun h => absurd h hl, fun _ => hm⟩
  | block hi hm => exact ⟨by simp, by simp, fun _ => ⟨_, _, rfl, hi, hm⟩, by simp⟩

/-- One token less: a brace changes how many have to be closed. -/
theorem Closes.cases_cons {depth : Nat} {t : Token} {run : List Token}
    (h : Closes depth (t :: run)) :
    t ≠ .endOfInput ∧ (t = .mark .leftBrace → Closes (depth + 1) run) ∧
      (t = .mark .rightBrace → ∃ d, depth = d + 1 ∧ Closes d run) ∧
      (t ≠ .mark .leftBrace → t ≠ .mark .rightBrace → Closes depth run) := by
  cases depth with
  | zero =>
    obtain ⟨hi, hr, hl, ho⟩ := Balanced.cases_cons h
    exact ⟨hi, hl, fun h => absurd h hr, fun h _ => ho h⟩
  | succ depth =>
    obtain ⟨front, more, he, hf, hm⟩ := h
    cases front with
    | nil =>
      cases he
      exact ⟨by simp, by simp, fun _ => ⟨depth, rfl, hm⟩, by simp⟩
    | cons f front =>
      simp only [List.cons_append, List.cons.injEq] at he
      obtain ⟨rfl, rfl⟩ := he
      obtain ⟨hi, hr, hl, ho⟩ := hf.cases_cons
      refine ⟨hi, fun h => ?_, fun h => absurd h hr, fun h _ => ⟨front, more, rfl, ho h, hm⟩⟩
      obtain ⟨inner, rest, rfl, hin, hrest⟩ := hl h
      exact ⟨inner, rest ++ .mark .rightBrace :: more, by simp, hin, rest, more, rfl, hrest, hm⟩

namespace Block

theorem closes_of_readBody {depth : Nat} {toks rest : List Located} {body : List Token}
    (h : readBody depth toks = .ok body rest) : Closes depth body := by
  fun_induction readBody depth toks generalizing body with
  | case1 | case2 => cases h
  | case3 depth t toks ht ih =>
    obtain ⟨body', h', rfl⟩ := Step.map_eq_ok_iff.1 h
    exact ht ▸ (ih h').leftBrace
  | case4 t toks ht =>
    cases h
    exact Balanced.nil
  | case5 t toks ht depth ih =>
    obtain ⟨body', h', rfl⟩ := Step.map_eq_ok_iff.1 h
    exact ⟨[], body', by rw [ht]; rfl, .nil, ih h'⟩
  | case6 depth t toks hi hl hr ih =>
    obtain ⟨body', h', rfl⟩ := Step.map_eq_ok_iff.1 h
    exact (ih h').cons hl hr hi

theorem readBody_of_spells {depth : Nat} {toks rest : List Located} {body : List Token}
    (hbody : Closes depth body) (h : Spells toks (body ++ [.mark .rightBrace]) rest) :
    readBody depth toks = .ok body rest := by
  induction body generalizing depth toks with
  | nil =>
    obtain ⟨t, toks, rfl, ht, h⟩ := spells_cons_iff.1 h
    obtain rfl : depth = 0 := by
      cases depth with
      | zero => rfl
      | succ depth =>
        obtain ⟨front, more, he, -⟩ := hbody
        simp at he
    rw [spells_nil_iff.1 h, readBody.eq_def]
    simp only [ht]
  | cons k body ih =>
    obtain ⟨t, toks, rfl, rfl, hrest⟩ := spells_cons_iff.1 h
    obtain ⟨hi, hleft, hright, hother⟩ := hbody.cases_cons
    rw [readBody.eq_def]
    simp only
    split
    · exact absurd ‹_› hi
    · rw [ih (hleft ‹_›) hrest]
      rfl
    · obtain ⟨d, rfl, hd⟩ := hright ‹_›
      simp only [ih hd hrest, Step.map]
    · rw [ih (hother ‹_› ‹_›) hrest]
      rfl

/-- Behind an opening brace exactly the balanced tokens up to its partner are read. -/
theorem readBody_eq_ok_iff {toks rest : List Located} {body : List Token} :
    readBody 0 toks = .ok body rest ↔
      Balanced body ∧ Spells toks (body ++ [.mark .rightBrace]) rest :=
  ⟨fun h => ⟨closes_of_readBody h, spells_of_readBody h⟩, fun h => readBody_of_spells h.1 h.2⟩

end Block

theorem readNoteText_of_spells {toks rest : List Located} {s : String}
    (h : Spells toks [.string s] rest) : readNoteText toks = .ok s rest := by
  obtain ⟨t, toks, rfl, ht, h⟩ := spells_cons_iff.1 h
  rw [spells_nil_iff.1 h]
  simp only [readNoteText, ht]

namespace Skipped

theorem isHeader_of_readFrom {toks rest : List Located} {header : List Token}
    {body : SkippedBody} (h : readFrom toks = .ok (header, body) rest) :
    IsHeader header ∧ ∀ b, body = .block b → Balanced b := by
  fun_induction readFrom toks generalizing header body with
  | case1 | case2 => cases h
  | case3 t toks ht =>
    obtain ⟨b, h', he⟩ := Step.map_eq_ok_iff.1 h
    cases he
    refine ⟨by simp [IsHeader], ?_⟩
    rintro _ ⟨⟩
    exact (Block.readBody_eq_ok_iff.1 h').1
  | case4 t toks ht =>
    obtain ⟨s, h', he⟩ := Step.map_eq_ok_iff.1 h
    cases he
    exact ⟨by simp [IsHeader], by simp⟩
  | case5 t toks hi hl hc ih =>
    obtain ⟨⟨header', body'⟩, h', he⟩ := Step.map_eq_ok_iff.1 h
    cases he
    obtain ⟨hheader, hbody⟩ := ih h'
    refine ⟨fun k hk => ?_, hbody⟩
    rcases List.mem_cons.1 hk with rfl | hk
    · exact ⟨hl, hc, hi⟩
    · exact hheader k hk

theorem readFrom_of_spells {toks rest : List Located} {header : List Token} {body : SkippedBody}
    (hheader : IsHeader header) (hbody : ∀ b, body = .block b → Balanced b)
    (h : Spells toks (header ++ bodyTokens body) rest) :
    readFrom toks = .ok (header, body) rest := by
  induction header generalizing toks with
  | nil =>
    cases body with
    | note s =>
      obtain ⟨t, toks, rfl, ht, h⟩ := spells_cons_iff.1 h
      rw [readFrom, ht]
      simp only [readNoteText_of_spells h, Step.map]
    | block b =>
      obtain ⟨t, toks, rfl, ht, h⟩ := spells_cons_iff.1 h
      rw [readFrom, ht]
      simp only [Block.readBody_eq_ok_iff.2 ⟨hbody b rfl, h⟩, Step.map]
  | cons k header ih =>
    obtain ⟨t, toks, rfl, rfl, hrest⟩ := spells_cons_iff.1 h
    obtain ⟨hl, hc, hi⟩ := hheader t.token (by simp)
    have hmore := ih (fun k hk => hheader k (by simp [hk])) hrest
    rw [readFrom]
    split
    · exact absurd ‹_› hi
    · exact absurd ‹_› hl
    · exact absurd ‹_› hc
    · rw [hmore]
      rfl

theorem wellFormed_of_read {keyword k : String} {toks rest : List Located} {s : Skipped}
    (hk : k ∈ keywords) (hs : Text.sameWord keyword k = true)
    (h : read keyword toks = .ok s rest) : s.WellFormed := by
  obtain ⟨⟨header, body⟩, h', rfl⟩ := Step.map_eq_ok_iff.1 h
  obtain ⟨hheader, hbody⟩ := isHeader_of_readFrom h'
  exact ⟨⟨k, hk, hs⟩, hheader, hbody⟩

theorem read_of_spells {toks rest : List Located} {s : Skipped} (hs : s.WellFormed)
    (h : Spells toks (s.header ++ bodyTokens s.body) rest) : read s.keyword toks = .ok s rest := by
  simp only [read, readFrom_of_spells hs.header hs.body h, Step.map]

end Skipped

end SchemaDiagram.Document
