/-
Lexer exactness: a text has tokens if and only if it can be cut into layout and
lexemes, each lexeme the longest one of its kind, and it has none if and only if
such a cut stops in front of a place where neither goes on
(`tokenize_eq_iff_isCut`).

A cut says nothing about a scanner. What ties the two together is that every
text is layout with one of five things behind it (`Front`): nothing, a comment
that the end of the text ends, a comment that is never closed, a lexeme, or a
character at which no lexeme is complete. The reader is computed on each of
them, so it can answer nothing else.
-/
import SchemaDiagram.Proofs.Cursors

namespace SchemaDiagram

/-! ## Longest lexemes -/

/-- Whether two tokens are of one kind. All marks are of one kind, and so are all texts in single
quotes. -/
def Token.sameKind : Token → Token → Bool
  | .word _, .word _ => true
  | .quoted _, .quoted _ => true
  | .string _, .string _ => true
  | .number _, .number _ => true
  | .expression _, .expression _ => true
  | .color _, .color _ => true
  | .mark _, .mark _ => true
  | .endOfInput, .endOfInput => true
  | _, _ => false

/-- The lexeme `text` of the token `t` is the longest one of its kind in front of `rest`. Two quotes
with a third one behind them are no lexeme, also where nothing closes the three. -/
structure IsLongest (t : Token) (text rest : List Char) : Prop where
  maximal : ∀ more t', more <+: rest → more ≠ [] → t'.sameKind t = true →
    ¬ IsLexeme t' (text ++ more)
  quotes : text = ['\'', '\''] → rest.head? ≠ some '\''

/-- Two quotes are written for the empty text alone. -/
theorem IsLexeme.eq_emptyString {t : Token} (h : IsLexeme t ['\'', '\'']) : t = .string "" := by
  have hread := Lexeme.read_of_isLexeme h (.nil _ _)
  have hempty : Lexeme.read '\'' ['\''] = .ok ⟨.string "", ['\'', '\''], []⟩ := rfl
  rw [List.append_nil, hempty] at hread
  injection hread with hread
  injection hread with ht
  exact ht.symm

/-- A lexeme that ends in front of `rest` has no longer one in its place, of whatever kind. -/
theorem Ends.not_isLexeme_append {t t' : Token} {text rest more : List Char} (h : IsLexeme t text)
    (he : Ends t text rest) (hmore : more <+: rest) (hne : more ≠ []) :
    ¬ IsLexeme t' (text ++ more) := by
  intro h'
  obtain ⟨c, s, rfl, -⟩ := h.exists_cons
  -- Only the first character behind the lexeme decides where it ends.
  have hends : Ends t (c :: s) more := by
    obtain ⟨d, more, rfl⟩ := List.exists_cons_of_ne_nil hne
    obtain ⟨rest', rfl⟩ := hmore
    exact he.of_head rfl
  have hread := Lexeme.read_of_isLexeme h hends
  have hread' := @Lexeme.read_of_isLexeme t' c (s ++ more) [] h' (.nil _ _)
  rw [List.append_nil, hread] at hread'
  injection hread' with hread'
  injection hread' with _ _ hrest
  exact hne hrest

/-- **The character behind a lexeme settles whether it is the longest one.** -/
theorem ends_iff_isLongest {t : Token} {text rest : List Char} (h : IsLexeme t text) :
    Ends t text rest ↔ IsLongest t text rest := by
  constructor
  · intro he
    refine ⟨fun more t' hmore hne _ => he.not_isLexeme_append h hmore hne, ?_⟩
    rintro rfl hquote
    obtain rfl := h.eq_emptyString
    exact he '\'' hquote rfl rfl
  · intro hlongest c hc
    obtain ⟨rest, rfl⟩ : ∃ s, rest = c :: s := by
      cases rest with
      | nil => cases hc
      | cons d s =>
        cases hc
        exact ⟨s, rfl⟩
    have hno (t' : Token) (hkind : t'.sameKind t = true) : ¬ IsLexeme t' (text ++ [c]) :=
      hlongest.maximal [c] t' ⟨rest, rfl⟩ (by simp) hkind
    have hsnoc {p : Char → Bool} {s : List Char} (hs : ∀ d ∈ s, p d = true) (hp : p c = true) :
        ∀ d ∈ s ++ [c], p d = true := by
      intro d hd
      rcases List.mem_append.1 hd with hd | hd
      · exact hs d hd
      · rw [List.mem_singleton.1 hd]
        exact hp
    cases h with
    | mark hm => exact Ends.of_ofChar? hm _ _ c hc
    | less =>
      rintro rfl
      exact hno (.mark .lessGreater) rfl .lessGreater
    | word hd hs =>
      show Text.isNameChar c = false
      rw [Bool.eq_false_iff]
      exact fun hp => hno (.word _) rfl (.word hd (hsnoc hs hp))
    | whole hd hs =>
      have hdigit : c.isDigit = false := by
        rw [Bool.eq_false_iff]
        exact fun hp => hno (.number _) rfl (.whole hd (hsnoc hs hp))
      refine ⟨hdigit, ?_⟩
      rintro rfl
      exact absurd (.decimal hd hs (by simp)) (hno (.number _) rfl)
    | @decimal e s u hd hs hu =>
      have hdigit : c.isDigit = false := by
        rw [Bool.eq_false_iff]
        intro hp
        have hlonger := IsLexeme.decimal hd hs (hsnoc hu hp)
        refine hno (.number (String.ofList (e :: (s ++ '.' :: (u ++ [c]))))) rfl ?_
        simpa using hlonger
      exact ⟨hdigit, fun _ => by simp⟩
    | color hs =>
      show c.isAlphanum = false
      rw [Bool.eq_false_iff]
      exact fun hp => hno (.color _) rfl (.color (hsnoc hs hp))
    | string hb hne =>
      intro htext
      simp at htext
      exact absurd htext hne
    | emptyString =>
      rintro - rfl
      exact hlongest.quotes rfl rfl
    | triple =>
      intro htext
      simp at htext
    | lessGreater | expression | quoted => trivial

/-! ## What stands behind layout -/

/-- Layout that takes the whole rest of a text: a line comment needs no newline there. -/
inductive IsLastLayout : List Char → Prop
  | complete {lay : List Char} : IsLayout lay → IsLastLayout lay
  | line {lay body : List Char} : IsLayout lay → '\n' ∉ body →
      IsLastLayout (lay ++ '/' :: '/' :: body)

def OpensComment (c : Char) (s : List Char) : Prop :=
  c = '/' ∧ (s.head? = some '/' ∨ s.head? = some '*')

/-- A text at whose front neither layout nor a lexeme is complete, and why: no lexeme begins with its
first character, or what is opened there is never closed. -/
inductive Breaks : LexFault → List Char → Prop
  | unexpected {c : Char} {s : List Char} : Text.isBlank c = false → ¬ OpensComment c s →
      (∀ t text, ¬ IsLexeme t (c :: text)) → Breaks (.unexpected c) (c :: s)
  | comment {s : List Char} : ¬ ['*', '/'] <:+: s →
      Breaks (.unterminated .comment) ('/' :: '*' :: s)
  | quoted {s : List Char} : (∀ body rest, s = body ++ '"' :: rest → ¬ IsQuotedBody '"' body) →
      Breaks (.unterminated .string) ('"' :: s)
  | string {s : List Char} : (∀ body rest, s = body ++ '\'' :: rest → ¬ IsQuotedBody '\'' body) →
      Breaks (.unterminated .string) ('\'' :: s)
  | triple {s : List Char} : ¬ ['\'', '\'', '\''] <:+: s →
      Breaks (.unterminated .string) ('\'' :: '\'' :: '\'' :: s)
  | expression {s : List Char} : '\x60' ∉ s → Breaks (.unterminated .expression) ('\x60' :: s)

/-- A text that does not begin with complete layout. -/
inductive Front : List Char → Prop
  | nil : Front []
  | line {body : List Char} : '\n' ∉ body → Front ('/' :: '/' :: body)
  | comment {body : List Char} : ¬ ['*', '/'] <:+: body → Front ('/' :: '*' :: body)
  | char {c : Char} {s : List Char} : Text.isBlank c = false → ¬ OpensComment c s → Front (c :: s)

/-- A comment that is closed is closed for a first time. -/
theorem exists_first_close {s : List Char} (h : ['*', '/'] <:+: s) :
    ∃ body t, s = body ++ '*' :: '/' :: t ∧ ¬ ['*', '/'] <:+: body := by
  induction s with
  | nil => simp at h
  | cons c s ih =>
    by_cases hprefix : ['*', '/'] <+: c :: s
    · obtain ⟨t, ht⟩ := hprefix
      exact ⟨[], t, ht.symm, by simp⟩
    · have hs : ['*', '/'] <:+: s := (List.infix_cons_iff.1 h).resolve_left hprefix
      obtain ⟨body, t, rfl, hbody⟩ := ih hs
      refine ⟨c :: body, t, rfl, ?_⟩
      rw [List.infix_cons_iff, not_or]
      refine ⟨fun hp => hprefix ?_, hbody⟩
      rw [← List.cons_append]
      exact hp.trans (List.prefix_append _ _)

/-- Every text is layout with a front behind it. -/
theorem exists_front : ∀ s : List Char, ∃ lay front, s = lay ++ front ∧ IsLayout lay ∧ Front front
  | [] => ⟨[], [], rfl, .nil, .nil⟩
  | c :: s => by
    by_cases hblank : Text.isBlank c = true
    · obtain ⟨lay, front, hs, hlay, hfront⟩ := exists_front s
      exact ⟨c :: lay, front, by rw [hs]; rfl, .blank hblank hlay, hfront⟩
    by_cases hopen : OpensComment c s
    · obtain ⟨rfl, hd | hd⟩ := hopen
      · obtain ⟨s, rfl⟩ := List.head?_eq_some_iff.1 hd
        by_cases hline : '\n' ∈ s
        · obtain ⟨body, t, hs, hbody⟩ := List.eq_append_cons_of_mem hline
          have hshort : t.length < s.length := by
            rw [hs]
            simp only [List.length_append, List.length_cons]
            omega
          obtain ⟨lay, front, ht, hlay, hfront⟩ := exists_front t
          exact ⟨'/' :: '/' :: (body ++ '\n' :: lay), front, by simp [hs, ht], .line hbody hlay,
            hfront⟩
        · exact ⟨[], _, rfl, .nil, .line hline⟩
      · obtain ⟨s, rfl⟩ := List.head?_eq_some_iff.1 hd
        by_cases hclose : ['*', '/'] <:+: s
        · obtain ⟨body, t, hs, hbody⟩ := exists_first_close hclose
          have hshort : t.length < s.length := by
            rw [hs]
            simp only [List.length_append, List.length_cons]
            omega
          obtain ⟨lay, front, ht, hlay, hfront⟩ := exists_front t
          exact ⟨'/' :: '*' :: (body ++ '*' :: '/' :: lay), front, by simp [hs, ht],
            .comment hbody hlay, hfront⟩
        · exact ⟨[], _, rfl, .nil, .comment hclose⟩
    · exact ⟨[], c :: s, rfl, .nil, .char (by simpa using hblank) hopen⟩
termination_by s => s.length

namespace Layout

theorem skip_lineComment_end {body : List Char} (line : Nat) (h : '\n' ∉ body) :
    skip .lineComment line body = .stopped ⟨[], line⟩ := by
  induction body with
  | nil => rfl
  | cons c body ih =>
    simp only [List.mem_cons, not_or] at h
    rw [skip, if_neg (Ne.symm h.1), lineAfter, if_neg (Ne.symm h.1), ih h.2]

theorem skip_comment_end {body : List Char} (opened line : Nat) (h : ¬ ['*', '/'] <:+: body) :
    skip (.comment opened) line body = .neverClosed opened ⟨[], line + Text.newlines body⟩ := by
  induction body generalizing line with
  | nil => rfl
  | cons c body ih =>
    rw [List.infix_cons_iff, not_or] at h
    have hopen : ∀ t, c = '*' → body = '/' :: t → False := by
      rintro t rfl rfl
      exact h.1 (by simp)
    rw [skip.eq_8 _ _ _ _ hopen, ih _ h.2, lineAfter_add_newlines]

theorem skip_char {c : Char} {s : List Char} (line : Nat) (hc : Text.isBlank c = false)
    (hopen : ¬ OpensComment c s) : skip .blanks line (c :: s) = .stopped ⟨c :: s, line⟩ := by
  have hline : ∀ t, c = '/' → s = '/' :: t → False := fun t hc hs =>
    hopen ⟨hc, .inl (by rw [hs]; rfl)⟩
  have hcomment : ∀ t, c = '/' → s = '*' :: t → False := fun t hc hs =>
    hopen ⟨hc, .inr (by rw [hs]; rfl)⟩
  rw [skip.eq_5 _ _ _ hline hcomment, hc]
  simp

end Layout

namespace Lexeme

theorem cutQuoted_eq_none_iff {quote : Char} {s : List Char} (hq : quote ≠ '\\') :
    cutQuoted quote s = none ↔
      ∀ body rest, s = body ++ quote :: rest → ¬ IsQuotedBody quote body := by
  constructor
  · rintro hnone body rest rfl hbody
    rw [cutQuoted_of_isQuotedBody rest hq hbody] at hnone
    cases hnone
  · intro hno
    cases hcut : cutQuoted quote s with
    | none => rfl
    | some cut => exact absurd (isQuotedBody_of_cutQuoted hcut) (hno _ _ (eq_of_cutQuoted hcut))

theorem cutTriple_eq_none_iff {s : List Char} :
    cutTriple s = none ↔ ¬ ['\'', '\'', '\''] <:+: s := by
  constructor
  · intro hnone
    fun_induction cutTriple s with
    | case1 => cases hnone
    | case2 c s hopen ih =>
      rw [List.infix_cons_iff, not_or]
      refine ⟨?_, ih (by simpa using hnone)⟩
      rintro ⟨t, ht⟩
      obtain ⟨rfl, hs⟩ := List.cons.inj ht
      exact hopen t rfl hs.symm
    | case3 => simp
  · intro hno
    cases hcut : cutTriple s with
    | none => rfl
    | some cut =>
      rw [eq_of_cutTriple hcut] at hno
      exact absurd ⟨cut.1, cut.2, by simp⟩ hno

theorem cutExpression_eq_none_iff {s : List Char} : cutExpression s = none ↔ '\x60' ∉ s := by
  constructor
  · intro hnone hmem
    obtain ⟨body, rest, rfl, hbody⟩ := List.eq_append_cons_of_mem hmem
    rw [cutExpression_of_not_mem rest hbody] at hnone
    cases hnone
  · intro hno
    cases hcut : cutExpression s with
    | none => rfl
    | some cut =>
      rw [eq_of_cutExpression hcut] at hno
      simp at hno

/-- Whether a character is unexpected does not depend on what follows it. -/
theorem read_of_unexpected {c d : Char} {s : List Char} (h : read c s = .error (.unexpected d)) :
    d = c ∧ ∀ u, read c u = .error (.unexpected c) := by
  have hquoted : quotedName s ≠ .error (.unexpected d) := by
    unfold quotedName
    split <;> simp
  have hstring : string s ≠ .error (.unexpected d) := by
    unfold string
    repeat' split
    all_goals simp
  have hexpression : expression s ≠ .error (.unexpected d) := by
    unfold expression
    split <;> simp
  unfold read at h
  split at h
  · cases h
  next hmark =>
  split at h
  · cases h
  next hless =>
  split at h
  · exact absurd h hquoted
  next hquote =>
  split at h
  · exact absurd h hstring
  next hsingle =>
  split at h
  · exact absurd h hexpression
  next hback =>
  split at h
  · cases h
  next hsign =>
  split at h
  · cases h
  next hdigit =>
  split at h
  · cases h
  next hname =>
  cases h
  refine ⟨rfl, fun u => ?_⟩
  rw [read, hmark]
  simp only [hless, hquote, hsingle, hback, hsign, hdigit, hname, if_false, Bool.false_eq_true]

/-- A character is unexpected if and only if it is the first one of no lexeme. -/
theorem read_eq_unexpected_iff {c d : Char} {s : List Char} :
    read c s = .error (.unexpected d) ↔ d = c ∧ ∀ t text, ¬ IsLexeme t (c :: text) := by
  constructor
  · intro h
    obtain ⟨rfl, hread⟩ := read_of_unexpected h
    refine ⟨rfl, fun t text ht => ?_⟩
    have hlexeme := read_of_isLexeme ht (.nil _ _)
    rw [hread] at hlexeme
    cases hlexeme
  · rintro ⟨rfl, hno⟩
    have hend {t : Token} {text : List Char} (ht : IsLexeme t (d :: text)) : False := hno t text ht
    -- Each branch but the last one is that of a first character.
    unfold read
    split
    next hm => exact (hend (.mark hm)).elim
    split
    next he =>
      subst he
      exact (hend .less).elim
    split
    next he =>
      subst he
      exact (hend (.quoted .nil)).elim
    split
    next he =>
      subst he
      exact (hend .emptyString).elim
    split
    next he =>
      subst he
      exact (hend (@IsLexeme.expression [] (by simp))).elim
    split
    next he =>
      subst he
      exact (hend (@IsLexeme.color [] (by simp))).elim
    split
    next hdigit => exact (hend (@IsLexeme.whole d [] hdigit (by simp))).elim
    split
    next hname => exact (hend (@IsLexeme.word d [] hname (by simp))).elim
    rfl

theorem breaks_of_string {s : List Char} {f : LexFault} (h : string s = .error f) :
    Breaks f ('\'' :: s) := by
  unfold string at h
  split at h
  · split at h
    next hcut =>
      cases h
      exact .triple (cutTriple_eq_none_iff.1 hcut)
    next => cases h
  · cases h
  · split at h
    next hcut =>
      cases h
      exact .string ((cutQuoted_eq_none_iff (by decide)).1 hcut)
    next => cases h

theorem string_of_never_closed {s : List Char}
    (h : ∀ body rest, s = body ++ '\'' :: rest → ¬ IsQuotedBody '\'' body) :
    string s = .error (.unterminated .string) := by
  have hcut := (cutQuoted_eq_none_iff (by decide)).2 h
  rw [string.eq_def]
  split
  · exact absurd .nil (h [] _ rfl)
  · exact absurd .nil (h [] _ rfl)
  · rw [hcut]

/-- Where no lexeme can be read, none is complete. -/
theorem breaks_of_read {c : Char} {s : List Char} {f : LexFault} (hc : Text.isBlank c = false)
    (hopen : ¬ OpensComment c s) (h : read c s = .error f) : Breaks f (c :: s) := by
  cases f with
  | unexpected d =>
    obtain ⟨rfl, hno⟩ := read_eq_unexpected_iff.1 h
    exact .unexpected hc hopen hno
  | unterminated kind =>
    unfold read at h
    split at h
    · cases h
    split at h
    · cases h
    split at h
    next hquote =>
      subst hquote
      unfold quotedName at h
      split at h
      next hcut =>
        cases h
        exact .quoted ((cutQuoted_eq_none_iff (by decide)).1 hcut)
      next => cases h
    split at h
    next hquote =>
      subst hquote
      exact breaks_of_string h
    split at h
    next hquote =>
      subst hquote
      unfold expression at h
      split at h
      next hcut =>
        cases h
        exact .expression (cutExpression_eq_none_iff.1 hcut)
      next => cases h
    repeat' split at h
    all_goals cases h

/-- Where none is complete, none can be read. -/
theorem read_of_breaks {c : Char} {s : List Char} {f : LexFault} (hopen : ¬ OpensComment c s)
    (h : Breaks f (c :: s)) : read c s = .error f := by
  cases h with
  | unexpected _ _ hno => exact read_eq_unexpected_iff.2 ⟨rfl, hno⟩
  | comment => exact absurd ⟨rfl, .inr rfl⟩ hopen
  | quoted h =>
    have hcut := (cutQuoted_eq_none_iff (by decide)).2 h
    simp [read, Mark.ofChar?, quotedName, hcut]
  | string h =>
    have hstring := string_of_never_closed h
    simp [read, Mark.ofChar?, hstring]
  | triple h =>
    have hcut := cutTriple_eq_none_iff.2 h
    simp [read, Mark.ofChar?, string, hcut]
  | expression h =>
    have hcut := cutExpression_eq_none_iff.2 h
    simp [read, Mark.ofChar?, expression, hcut]

end Lexeme

/-! ## One step -/

/-- What is never closed is opened by a character that is neither blank nor the first one of a comment,
unless it is a comment itself. -/
theorem Breaks.cases_comment {f : LexFault} {s : List Char} (h : Breaks f s) :
    (∃ body, f = .unterminated .comment ∧ s = '/' :: '*' :: body ∧ ¬ ['*', '/'] <:+: body) ∨
      ∃ c t, s = c :: t ∧ Text.isBlank c = false ∧ ¬ OpensComment c t := by
  cases h with
  | comment h => exact .inl ⟨_, rfl, rfl, h⟩
  | unexpected hc hopen => exact .inr ⟨_, _, rfl, hc, hopen⟩
  | quoted | string | triple | expression =>
    exact .inr ⟨_, _, rfl, by decide, fun hopen => absurd hopen.1 (by decide)⟩

namespace Cursor

theorem next_of_isLastLayout {s : List Char} (line : Nat) (h : IsLastLayout s) :
    (next ⟨s, line⟩).1 = .ok ⟨.endOfInput, line + Text.newlines s⟩ := by
  cases h with
  | complete hlay =>
    have hskip := Layout.skip_layout (s := []) line hlay
    rw [List.append_nil] at hskip
    simp only [next, skipLayout, hskip, Layout.skip]
  | @line lay body hlay hbody =>
    have hskip := Layout.skip_layout (s := '/' :: '/' :: body) line hlay
    rw [Layout.skip, Layout.skip_lineComment_end _ hbody] at hskip
    have hlines : Text.newlines ('/' :: '/' :: body) = 0 := by
      simp [Text.newlines_cons, Layout.newlines_eq_zero hbody]
    simp only [next, skipLayout, hskip, Text.newlines_append, hlines, Nat.add_zero]

theorem next_of_breaks {lay s : List Char} {f : LexFault} (line : Nat) (hlay : IsLayout lay)
    (h : Breaks f s) : (next ⟨lay ++ s, line⟩).1 = .error ⟨f, line + Text.newlines lay⟩ := by
  rw [next_layout _ _ hlay]
  obtain ⟨body, rfl, rfl, hbody⟩ | ⟨c, t, rfl, hc, hopen⟩ := h.cases_comment
  · simp only [next, skipLayout, Layout.skip, Layout.skip_comment_end _ _ hbody]
  · have hread := Lexeme.read_of_breaks hopen h
    simp only [next, skipLayout, Layout.skip_char _ hc hopen, hread]
    cases f <;> rfl

/-- **What a place reads:** the end behind the last layout, an error where a text breaks, and a lexeme
anywhere else. -/
theorem next_cases (s : List Char) (line : Nat) :
    IsLastLayout s ∨ (∃ lay rest f, s = lay ++ rest ∧ IsLayout lay ∧ Breaks f rest) ∨
      ∃ t c, next ⟨s, line⟩ = (.ok t, c) ∧ t.token ≠ .endOfInput := by
  obtain ⟨lay, front, rfl, hlay, hfront⟩ := exists_front s
  cases hfront with
  | nil =>
    rw [List.append_nil]
    exact .inl (.complete hlay)
  | line hbody => exact .inl (.line hlay hbody)
  | comment hbody => exact .inr (.inl ⟨lay, _, _, rfl, hlay, .comment hbody⟩)
  | @char c t hc hopen =>
    cases hread : Lexeme.read c t with
    | error f => exact .inr (.inl ⟨lay, _, f, rfl, hlay, Lexeme.breaks_of_read hc hopen hread⟩)
    | ok x =>
      have hnext : next ⟨lay ++ c :: t, line⟩ = (.ok ⟨x.token, line + Text.newlines lay⟩,
          ⟨x.rest, line + Text.newlines lay + Text.newlines x.text⟩) := by
        rw [next_layout _ _ hlay]
        simp only [next, skipLayout, Layout.skip_char _ hc hopen, hread]
      exact .inr (.inr ⟨_, _, hnext, (Lexeme.isLexeme_of_read hread).1.ne_endOfInput⟩)

theorem isLastLayout_of_next {c : Cursor} {e : Located} (h : c.next.1 = .ok e)
    (he : e.token = .endOfInput) :
    IsLastLayout c.rest ∧ e = ⟨.endOfInput, c.line + Text.newlines c.rest⟩ := by
  obtain hlast | ⟨lay, rest, f, hrest, hlay, hbreaks⟩ | ⟨t, c', hnext, ht⟩ :=
    next_cases c.rest c.line
  · have hend := next_of_isLastLayout c.line hlast
    rw [h] at hend
    injection hend with hend
    exact ⟨hlast, hend⟩
  · have herror := next_of_breaks c.line hlay hbreaks
    rw [← hrest, h] at herror
    cases herror
  · rw [hnext] at h
    cases h
    exact absurd he ht

theorem exists_breaks_of_next {c : Cursor} {e : LexError} (h : c.next.1 = .error e) :
    ∃ lay rest, c.rest = lay ++ rest ∧ IsLayout lay ∧ Breaks e.fault rest ∧
      e.line = c.line + Text.newlines lay := by
  obtain hlast | ⟨lay, rest, f, hrest, hlay, hbreaks⟩ | ⟨t, c', hnext, -⟩ :=
    next_cases c.rest c.line
  · rw [next_of_isLastLayout c.line hlast] at h
    cases h
  · have herror := next_of_breaks c.line hlay hbreaks
    rw [← hrest, h] at herror
    injection herror with herror
    subst herror
    exact ⟨lay, rest, hrest, hlay, hbreaks, rfl⟩
  · rw [hnext] at h
    cases h

end Cursor

/-! ## Cuts -/

/-- A lexeme with its token and the layout in front of it. -/
structure Piece where
  layout : List Char
  token : Token
  text : List Char

def Piece.chars (p : Piece) : List Char := p.layout ++ p.text

/-- A text is cut into pieces and a rest: it is their characters in order, each once. -/
inductive IsCut : List Char → List Piece → List Char → Prop
  | nil (rest : List Char) : IsCut rest [] rest
  | cons {p : Piece} {ps : List Piece} {s rest : List Char} : IsLayout p.layout →
      IsLexeme p.token p.text → IsLongest p.token p.text s → IsCut s ps rest →
      IsCut (p.chars ++ s) (p :: ps) rest

/-- The tokens of pieces behind the text `before`, each on the line that its lexeme begins on. -/
def tokensBehind (before : List Char) : List Piece → List Located
  | [] => []
  | p :: ps => ⟨p.token, 1 + Text.newlines (before ++ p.layout)⟩ :: tokensBehind (before ++ p.chars) ps

theorem IsCut.eq_append {s rest : List Char} {ps : List Piece} (h : IsCut s ps rest) :
    s = ps.flatMap Piece.chars ++ rest := by
  induction h with
  | nil => rfl
  | cons _ _ _ _ ih => rw [ih, List.flatMap_cons, List.append_assoc]

/-- A cut is read piece by piece. -/
theorem IsCut.reads {s rest : List Char} {ps : List Piece} (h : IsCut s ps rest)
    (before : List Char) :
    Cursor.Reads ⟨s, 1 + Text.newlines before⟩ (tokensBehind before ps)
      ⟨rest, 1 + Text.newlines (before ++ ps.flatMap Piece.chars)⟩ := by
  induction h generalizing before with
  | nil rest =>
    rw [List.flatMap_nil, List.append_nil]
    exact .done _
  | @cons p ps s rest hlay hlex hlongest _ ih =>
    have hnext := Cursor.next_of_isLexeme (1 + Text.newlines before) hlay hlex
      ((ends_iff_isLongest hlex).2 hlongest)
    have hrest := ih (before ++ p.chars)
    simp only [Piece.chars, Text.newlines_append, ← Nat.add_assoc, List.append_assoc] at hrest
    have hreads := Cursor.Reads.more hnext hlex.ne_endOfInput hrest
    simpa [tokensBehind, Piece.chars, Nat.add_assoc] using hreads

/-- What is read is cut. -/
theorem Cursor.Reads.exists_isCut {c c' : Cursor} {x : List Located} (h : Cursor.Reads c x c')
    (before : List Char) (hline : c.line = 1 + Text.newlines before) :
    ∃ ps, IsCut c.rest ps c'.rest ∧ x = tokensBehind before ps ∧
      c'.line = 1 + Text.newlines (before ++ ps.flatMap Piece.chars) := by
  induction h generalizing before with
  | done c => exact ⟨[], .nil _, rfl, by simpa using hline⟩
  | @more c d c' t x hnext ht _ ih =>
    obtain ⟨lay, text, hrest, hlay, hlex, hends, htline, hdline⟩ :=
      Cursor.isLexeme_of_next hnext ht
    let p : Piece := ⟨lay, t.token, text⟩
    have hd : d.line = 1 + Text.newlines (before ++ p.chars) := by
      simp only [p, Piece.chars, Text.newlines_append]
      omega
    obtain ⟨ps, hcut, rfl, hline'⟩ := ih _ hd
    refine ⟨p :: ps, ?_, ?_, ?_⟩
    · rw [hrest, ← List.append_assoc]
      exact .cons (p := p) hlay hlex ((ends_iff_isLongest hlex).1 hends) hcut
    · have htoken : t = ⟨p.token, 1 + Text.newlines (before ++ p.layout)⟩ := by
        rw [Text.newlines_append, ← Nat.add_assoc, ← hline, ← htline]
      rw [tokensBehind, ← htoken]
    · rw [hline', List.flatMap_cons, List.append_assoc]

/-- **A text has the tokens of the longest lexemes it can be cut into, each on the line where its lexeme
begins, and the end of the input behind them; and it has none exactly if a cut of it stops where neither
layout nor a lexeme is complete,** which is reported on the line of that place. -/
theorem tokenize_eq_iff_isCut (source : String) :
    (∀ toks, tokenize source = .ok toks ↔
      ∃ ps last, IsCut source.toList ps last ∧ IsLastLayout last ∧
        toks = tokensBehind [] ps ++ [⟨.endOfInput, 1 + Text.newlines source.toList⟩]) ∧
    ∀ e, tokenize source = .error e ↔
      ∃ ps lay rest, IsCut source.toList ps (lay ++ rest) ∧ IsLayout lay ∧ Breaks e.fault rest ∧
        e.line = 1 + Text.newlines (ps.flatMap Piece.chars ++ lay) := by
  refine ⟨fun toks => ?_, fun e => ?_⟩
  · rw [tokenize, Cursor.tokens_eq_ok_iff]
    constructor
    · rintro ⟨x, c, e, c', hreads, hnext, he, rfl⟩
      obtain ⟨ps, hcut, rfl, hline⟩ := hreads.exists_isCut [] rfl
      have hfst : c.next.1 = .ok e := by rw [hnext]
      obtain ⟨hlast, rfl⟩ := Cursor.isLastLayout_of_next hfst he
      refine ⟨ps, c.rest, hcut, hlast, ?_⟩
      have hlines : c.line + Text.newlines c.rest = 1 + Text.newlines source.toList := by
        have hsource : source.toList = ps.flatMap Piece.chars ++ c.rest := hcut.eq_append
        rw [hline, hsource, List.nil_append, Text.newlines_append]
        omega
      rw [hlines]
    · rintro ⟨ps, last, hcut, hlast, rfl⟩
      have hreads := hcut.reads []
      have hend := Cursor.next_of_isLastLayout (1 + Text.newlines ([] ++ ps.flatMap Piece.chars)) hlast
      refine ⟨_, _, _, _, hreads, Prod.ext hend rfl, rfl, ?_⟩
      rw [hcut.eq_append, List.nil_append, Text.newlines_append, Nat.add_assoc]
  · rw [tokenize, Cursor.tokens_eq_error_iff]
    constructor
    · rintro ⟨x, c, c', hreads, hnext⟩
      obtain ⟨ps, hcut, -, hline⟩ := hreads.exists_isCut [] rfl
      have hfst : c.next.1 = .error e := by rw [hnext]
      obtain ⟨lay, rest, hrest, hlay, hbreaks, heline⟩ := Cursor.exists_breaks_of_next hfst
      refine ⟨ps, lay, rest, hrest ▸ hcut, hlay, hbreaks, ?_⟩
      rw [heline, hline, List.nil_append, Text.newlines_append, Nat.add_assoc]
    · rintro ⟨ps, lay, rest, hcut, hlay, hbreaks, hline⟩
      have hreads := hcut.reads []
      have hnext := Cursor.next_of_breaks (1 + Text.newlines ([] ++ ps.flatMap Piece.chars)) hlay hbreaks
      have he : (⟨e.fault, 1 + Text.newlines ([] ++ ps.flatMap Piece.chars) + Text.newlines lay⟩ :
          LexError) = e := by
        rw [List.nil_append, Nat.add_assoc, ← Text.newlines_append, ← hline]
      rw [he] at hnext
      exact ⟨_, _, _, hreads, Prod.ext hnext rfl⟩

end SchemaDiagram
