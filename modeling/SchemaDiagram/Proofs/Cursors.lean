/-
Runs of the token reader. `Reads c toks c'` says that from the place `c` the
tokens `toks` are read, none of them the end of the input, and that the place
behind them is `c'`.

A step is decided by the layout and the lexeme in front of it and by the one
character behind them. So a run that ends right behind a mark of one
character reads the same tokens whatever the text goes on with
(`Reads.exists_mark`), which is what makes it possible to compare the tokens
of a text with those of the text changed further on.
-/
import SchemaDiagram.Proofs.Lexemes

namespace SchemaDiagram

/-- A result by computation. -/
theorem eq_ok_of_toOption {ε α : Type} {result : Except ε α} {a : α}
    (h : result.toOption = some a) : result = .ok a := by
  cases result <;> cases h
  rfl

/-! ## One step -/

/-- A lexeme begins neither with a blank nor with a comment. -/
theorem IsLexeme.exists_cons {t : Token} {text : List Char} (h : IsLexeme t text) :
    ∃ c s, text = c :: s ∧ Text.isBlank c = false ∧ c ≠ '/' := by
  cases h with
  | @mark c m hm =>
    refine ⟨c, [], rfl, ?_⟩
    revert hm
    unfold Mark.ofChar?
    split
    all_goals first | exact fun _ => by decide | exact fun h => by cases h
  | less | lessGreater | color | expression | quoted | string | emptyString | triple =>
    exact ⟨_, _, rfl, by decide, by decide⟩
  | @word c s hc =>
    exact ⟨c, s, rfl, Text.isBlank_eq_false_of_isNameStart hc,
      Lexeme.ne_of_isNameStart (.inl hc) (by decide +kernel)⟩
  | @whole c s hc | @decimal c s t hc =>
    exact ⟨c, _, rfl, Text.isBlank_eq_false_of_isDigit hc,
      Lexeme.ne_of_isNameStart (.inr hc) (by decide +kernel)⟩

theorem IsLexeme.ne_endOfInput {t : Token} {text : List Char} (h : IsLexeme t text) :
    t ≠ .endOfInput := by cases h <;> simp

theorem Mark.text_of_ofChar? {c : Char} {m : Mark} (h : Mark.ofChar? c = some m) :
    m.text.toList = [c] := by
  unfold Mark.ofChar? at h
  split at h
  all_goals cases h
  all_goals rfl

/-- A mark of one character is written with that character alone. -/
theorem IsLexeme.eq_of_ofChar? {m : Mark} {k : Char} {text : List Char}
    (h : IsLexeme (.mark m) text) (hk : Mark.ofChar? k = some m) : text = [k] := by
  have ht := Mark.text_of_ofChar? hk
  cases h with
  | mark hc => rw [← Mark.text_of_ofChar? hc, ht]
  | less => exact ht
  | lessGreater => exact ht

/-- Nothing makes a mark of one character longer. -/
theorem Ends.of_ofChar? {m : Mark} {k : Char} (hk : Mark.ofChar? k = some m) (text rest : List Char) :
    Ends (.mark m) text rest := by
  intro c _
  cases m with
  | less =>
    have hk' : ['<'] = [k] := Mark.text_of_ofChar? hk
    cases hk'
    cases hk
  | _ => trivial

namespace Cursor

/-- Layout only moves the next token to another line. -/
theorem next_layout {lay : List Char} (s : List Char) (line : Nat) (h : IsLayout lay) :
    next ⟨lay ++ s, line⟩ = next ⟨s, line + Text.newlines lay⟩ := by
  simp only [next, skipLayout, Layout.skip_layout line h]

/-- A lexeme behind layout is the next token, if it ends where it is said to. -/
theorem next_of_isLexeme {t : Token} {lay text rest : List Char} (line : Nat)
    (hlay : IsLayout lay) (ht : IsLexeme t text) (he : Ends t text rest) :
    next ⟨lay ++ (text ++ rest), line⟩ =
      (.ok ⟨t, line + Text.newlines lay⟩,
        ⟨rest, line + Text.newlines lay + Text.newlines text⟩) := by
  obtain ⟨c, s, rfl, hc, hslash⟩ := ht.exists_cons
  have hskip : skipLayout ⟨c :: s ++ rest, line + Text.newlines lay⟩ =
      .stopped ⟨c :: (s ++ rest), line + Text.newlines lay⟩ := Layout.skip_stop _ hc hslash
  rw [next_layout _ _ hlay]
  simp only [next, hskip, Lexeme.read_of_isLexeme ht he]

/-- A next token is a lexeme behind layout, and it ends where the next place is. -/
theorem isLexeme_of_next {c c' : Cursor} {t : Located} (h : c.next = (.ok t, c'))
    (ht : t.token ≠ .endOfInput) :
    ∃ lay text, c.rest = lay ++ (text ++ c'.rest) ∧ IsLayout lay ∧ IsLexeme t.token text ∧
      Ends t.token text c'.rest ∧ t.line = c.line + Text.newlines lay ∧
      c'.line = c.line + Text.newlines lay + Text.newlines text := by
  unfold next at h
  split at h
  · cases h
  · cases h
    exact absurd rfl ht
  · rename_i ch s line hs
    obtain ⟨-, lay, hrest, hlay, hline⟩ := Layout.isLayout_of_skip hs
    split at h
    · rename_i x hx
      cases h
      obtain ⟨hx', he⟩ := Lexeme.isLexeme_of_read hx
      exact ⟨lay, x.text, by rw [Lexeme.text_append_rest hx, hrest], hlay, hx', he, hline,
        by rw [hline]⟩
    · cases h
    · cases h

/-! ## Runs -/

inductive Reads : Cursor → List Located → Cursor → Prop
  | done (c : Cursor) : Reads c [] c
  | more {c c' c'' : Cursor} {t : Located} {toks : List Located} : c.next = (.ok t, c') →
      t.token ≠ .endOfInput → Reads c' toks c'' → Reads c (t :: toks) c''

theorem Reads.append {c c' c'' : Cursor} {x y : List Located} (h : Reads c x c')
    (h' : Reads c' y c'') : Reads c (x ++ y) c'' := by
  induction h with
  | done => exact h'
  | more hn ht _ ih => exact .more hn ht (ih h')

theorem Reads.split {c c'' : Cursor} {x y : List Located} (h : Reads c (x ++ y) c'') :
    ∃ c', Reads c x c' ∧ Reads c' y c'' := by
  induction x generalizing c with
  | nil => exact ⟨c, .done c, h⟩
  | cons t x ih =>
    cases h with
    | more hn ht h =>
      obtain ⟨c', hx, hy⟩ := ih h
      exact ⟨c', .more hn ht hx, hy⟩

/-- Of two runs from one place, the one that reads fewer tokens is the beginning of the other. -/
theorem Reads.prefix {c a b : Cursor} {x y : List Located} (hx : Reads c x a) (hy : Reads c y b)
    (hle : x.length ≤ y.length) : ∃ z, y = x ++ z ∧ Reads a z b := by
  induction hx generalizing y with
  | done c => exact ⟨y, rfl, hy⟩
  | more hn _ _ ih =>
    cases hy with
    | done => simp at hle
    | more hn' _ hy =>
      rw [hn] at hn'
      cases hn'
      obtain ⟨z, rfl, hz⟩ := ih hy (by simpa using hle)
      exact ⟨z, rfl, hz⟩

theorem Reads.length_rest {c a : Cursor} {x : List Located} (h : Reads c x a) :
    a.rest.length + x.length ≤ c.rest.length := by
  induction h with
  | done => simp
  | more hn ht _ ih =>
    have := length_rest_next hn ht
    simp only [List.length_cons]
    omega

/-- The tokens of a place are those of a run to where only the end of the input is left. -/
theorem tokens_eq_ok_iff {c : Cursor} {toks : List Located} :
    c.tokens = .ok toks ↔ ∃ x c' e c'', Reads c x c' ∧ c'.next = (.ok e, c'') ∧
      e.token = .endOfInput ∧ toks = x ++ [e] := by
  constructor
  · intro h
    fun_induction tokens c generalizing toks with
    | case1 => cases h
    | case2 c t c' hn ht =>
      cases h
      exact ⟨[], c, t, c', .done c, hn, ht, rfl⟩
    | case3 c t c' hn ht ih =>
      cases hc : c'.tokens with
      | error e =>
        rw [hc] at h
        cases h
      | ok toks' =>
        rw [hc] at h
        cases h
        obtain ⟨x, d, e, d', hx, hd, he, rfl⟩ := ih hc
        exact ⟨t :: x, d, e, d', .more hn ht hx, hd, he, rfl⟩
  · rintro ⟨x, c', e, c'', hx, hn, he, rfl⟩
    induction hx with
    | done c =>
      rw [tokens]
      split
      · rename_i h
        rw [hn] at h
        cases h
      · rename_i h
        rw [hn] at h
        cases h
        rw [dif_pos he]
        rfl
    | more hn' ht _ ih =>
      rw [tokens]
      split
      · rename_i h
        rw [hn'] at h
        cases h
      · rename_i h
        rw [hn'] at h
        cases h
        rw [dif_neg ht, ih hn]
        rfl

/-- A place has no tokens for the cause that stops a run from it. -/
theorem tokens_eq_error_iff {c : Cursor} {e : LexError} :
    c.tokens = .error e ↔ ∃ x c' c'', Reads c x c' ∧ c'.next = (.error e, c'') := by
  constructor
  · intro h
    fun_induction tokens c with
    | case1 c d c' hn =>
      cases h
      exact ⟨[], c, c', .done c, hn⟩
    | case2 => cases h
    | case3 c t c' hn ht ih =>
      cases hc : c'.tokens with
      | error d =>
        rw [hc] at h
        cases h
        obtain ⟨x, a, b, hx, hb⟩ := ih hc
        exact ⟨t :: x, a, b, .more hn ht hx, hb⟩
      | ok toks =>
        rw [hc] at h
        cases h
  · rintro ⟨x, c', c'', hx, hn⟩
    induction hx with
    | done c =>
      rw [tokens]
      split
      · rename_i h
        rw [hn] at h
        cases h
        rfl
      · rename_i h
        rw [hn] at h
        cases h
    | more hn' ht _ ih =>
      rw [tokens]
      split
      · rename_i h
        rw [hn'] at h
        cases h
      · rename_i h
        rw [hn'] at h
        cases h
        rw [dif_neg ht, ih hn]
        rfl

/-- The tokens of a place are those of any run from it and those of the place behind it. -/
theorem Reads.exists_tokens {c c' : Cursor} {x toks : List Located} (h : Reads c x c')
    (htoks : c.tokens = .ok toks) : ∃ more, toks = x ++ more ∧ c'.tokens = .ok more := by
  obtain ⟨y, d, e, d', hy, hn, he, rfl⟩ := tokens_eq_ok_iff.1 htoks
  by_cases hle : x.length ≤ y.length
  · obtain ⟨z, rfl, hz⟩ := h.prefix hy hle
    exact ⟨z ++ [e], by simp, tokens_eq_ok_iff.2 ⟨z, d, e, d', hz, hn, he, rfl⟩⟩
  · -- The run would go on behind the end of the input.
    obtain ⟨z, rfl, hz⟩ := hy.prefix h (by omega)
    cases hz with
    | done => simp at hle
    | more hn' ht _ =>
      rw [hn] at hn'
      cases hn'
      exact absurd he ht

theorem exists_next_of_tokens {c : Cursor} {t : Located} {toks : List Located}
    (h : c.tokens = .ok (t :: toks)) : ∃ c', c.next = (.ok t, c') := by
  obtain ⟨x, d, e, d', hx, hn, -, he⟩ := tokens_eq_ok_iff.1 h
  cases hx with
  | done =>
    cases he
    exact ⟨d', hn⟩
  | more hn' =>
    cases he
    exact ⟨_, hn'⟩

theorem Reads.token_ne {c c' : Cursor} {x : List Located} (h : Reads c x c') :
    ∀ t ∈ x, t.token ≠ .endOfInput := by
  induction h with
  | done => simp
  | more _ ht _ ih => simpa using ⟨ht, ih⟩

/-- The first `n` tokens, if none of them is the end of the input, and the text behind them. -/
def first? : Nat → Cursor → Option (List Token × List Char)
  | 0, c => some ([], c.rest)
  | n + 1, c =>
    match c.next with
    | (.error _, _) => none
    | (.ok t, c') =>
      if t.token = .endOfInput then none
      else (first? n c').map fun (toks, rest) => (t.token :: toks, rest)

theorem exists_reads_of_first? {n : Nat} {c : Cursor} {toks : List Token} {rest : List Char}
    (h : first? n c = some (toks, rest)) :
    ∃ x line, Reads c x ⟨rest, line⟩ ∧ x.map Located.token = toks := by
  induction n generalizing c toks with
  | zero =>
    cases h
    exact ⟨[], c.line, .done c, rfl⟩
  | succ n ih =>
    simp only [first?] at h
    split at h
    · cases h
    · rename_i t c' hn
      split at h
      · cases h
      · rename_i ht
        obtain ⟨⟨toks', rest'⟩, hfirst, he⟩ := Option.map_eq_some_iff.1 h
        cases he
        obtain ⟨x, line, hx, rfl⟩ := ih hfirst
        exact ⟨t :: x, line, .more hn ht hx, rfl⟩

/-! ## What follows a mark -/

/-- A run that ends in a mark of one character ends right behind that character, and it reads the
same whatever is written there. -/
theorem Reads.exists_mark {c c' : Cursor} {x : List Located} {t : Located} {m : Mark} {k : Char}
    (h : Reads c (x ++ [t]) c') (ht : t.token = .mark m) (hk : Mark.ofChar? k = some m) :
    ∃ front, c.rest = front ++ k :: c'.rest ∧
      ∀ rest, Reads ⟨front ++ k :: rest, c.line⟩ (x ++ [t]) ⟨rest, c'.line⟩ := by
  induction x generalizing c with
  | nil =>
    cases h with
    | more hn hne h =>
      cases h
      obtain ⟨lay, text, hrest, hlay, hlex, -, hline, hline'⟩ := isLexeme_of_next hn hne
      rw [ht] at hlex
      have htext := hlex.eq_of_ofChar? hk
      subst htext
      refine ⟨lay, hrest, fun rest => ?_⟩
      have hnext := next_of_isLexeme c.line hlay hlex (.of_ofChar? hk _ rest)
      rw [← hline', ← hline, ← ht] at hnext
      exact .more hnext hne (.done _)
  | cons u x ih =>
    cases h with
    | more hn hne h =>
      obtain ⟨front, hrest, hreads⟩ := ih h
      obtain ⟨lay, text, hc, hlay, hlex, he, hline, hline'⟩ := isLexeme_of_next hn hne
      refine ⟨lay ++ (text ++ front), by rw [hc, hrest]; simp, fun rest => ?_⟩
      have hends : Ends u.token text (front ++ k :: rest) := by
        apply he.of_head
        rw [hrest]
        cases front <;> rfl
      have hnext := next_of_isLexeme c.line hlay hlex hends
      rw [← hline', ← hline] at hnext
      have hsame : lay ++ (text ++ front) ++ k :: rest = lay ++ (text ++ (front ++ k :: rest)) := by
        simp
      rw [hsame]
      exact .more hnext hne (hreads rest)

theorem Reads.exists_mark_of_map {c c' : Cursor} {x : List Located} {before : List Token} {m : Mark}
    {k : Char} (h : Reads c x c') (hx : x.map Located.token = before ++ [.mark m])
    (hk : Mark.ofChar? k = some m) :
    ∃ front, c.rest = front ++ k :: c'.rest ∧
      ∀ rest, Reads ⟨front ++ k :: rest, c.line⟩ x ⟨rest, c'.line⟩ := by
  obtain ⟨y, z, rfl, -, hz⟩ := List.map_eq_append_iff.1 hx
  obtain ⟨t, rfl, ht⟩ := List.map_eq_singleton_iff.1 hz
  exact h.exists_mark ht hk

/-- A mark of one character that is read first stands right behind layout. -/
theorem eq_of_next_mark {c c' : Cursor} {d k : Char} {s : List Char} {t : Located} {m : Mark}
    (h : c.next = (.ok t, c')) (ht : t.token = .mark m) (hk : Mark.ofChar? k = some m)
    (hc : c.rest = d :: s) (hd : Text.isBlank d = false) (hslash : d ≠ '/') : d = k := by
  obtain ⟨lay, text, hrest, hlay, htext, -⟩ := isLexeme_of_next h (by simp [ht])
  rw [ht] at htext
  rw [hc, htext.eq_of_ofChar? hk] at hrest
  cases hlay with
  | nil => exact (List.cons.inj hrest).1
  | blank hblank =>
    rw [← (List.cons.inj hrest).1, hd] at hblank
    cases hblank
  | line | comment => exact absurd (List.cons.inj hrest).1 hslash

/-- If a run goes on to a mark, its first token is settled by what stands in front of the mark so far
that another text there makes no mark of one character out of it. -/
theorem Reads.ne_mark_of_cons {mid rest rest' : List Char} {line line' : Nat} {t u : Located}
    {x : List Located} {before : List Token} {m n : Mark} {j k : Char} {c : Cursor}
    (h : Reads ⟨mid ++ j :: rest, line⟩ (t :: x) ⟨rest, line'⟩)
    (hx : x.map Located.token = before ++ [.mark n]) (hj : Mark.ofChar? j = some n)
    (hk : Mark.ofChar? k = some m) (ht : t.token ≠ .mark m)
    (hu : next ⟨mid ++ rest', line⟩ = (.ok u, c)) : u.token ≠ .mark m := by
  intro humark
  cases h with
  | more hn hne h =>
    obtain ⟨front, hfront, -⟩ := h.exists_mark_of_map hx hj
    obtain ⟨lay, text, hrest, hlay, hlex, -⟩ := isLexeme_of_next hn hne
    have hmid : mid = lay ++ (text ++ front) := by
      rw [hfront] at hrest
      have hall : mid ++ j :: rest = (lay ++ (text ++ front)) ++ j :: rest := by simpa using hrest
      exact List.append_cancel_right hall
    obtain ⟨d, s, rfl, hd, hslash⟩ := hlex.exists_cons
    rw [hmid, List.append_assoc, next_layout _ _ hlay] at hu
    have hdk := eq_of_next_mark hu humark hk rfl hd hslash
    subst hdk
    have hread := Lexeme.read_of_isLexeme hlex (.nil _ _)
    simp only [Lexeme.read, hk, Except.ok.injEq, Lexeme.mk.injEq] at hread
    exact ht hread.1.symm

end Cursor

end SchemaDiagram
