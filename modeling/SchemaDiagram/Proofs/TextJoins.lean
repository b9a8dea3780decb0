/-
The tokens of two texts with a newline between them (`tokenize_append`).

A newline makes no lexeme longer and ends a line comment, so nothing of the
first text reaches over it: the first text is read to its last lexeme as
before, what is left of it is layout, and the second text is read from there
with all its lines moved down.
-/
import SchemaDiagram.Proofs.Cuts

namespace SchemaDiagram

/-! ## A newline behind a lexeme and behind layout -/

/-- A newline, or nothing. -/
def EndsLine (s : List Char) : Prop := ∀ c, s.head? = some c → c = '\n'

theorem Ends.append_endsLine {t : Token} {text rest s : List Char} (h : Ends t text rest)
    (hs : EndsLine s) : Ends t text (rest ++ s) := by
  cases rest with
  | cons d rest => exact h.of_head rfl
  | nil =>
    refine .of_gap t text fun c hc => .inl ?_
    rw [hs c hc]
    exact Text.isBlank_newline

theorem IsLayout.append {lay lay' : List Char} (h : IsLayout lay) (h' : IsLayout lay') :
    IsLayout (lay ++ lay') := by
  induction h with
  | nil => exact h'
  | blank hc _ ih => exact .blank hc ih
  | line hb _ ih => simpa using IsLayout.line hb ih
  | comment hb _ ih => simpa using IsLayout.comment hb ih

/-- What is layout at the end of a text is layout in front of a newline. -/
theorem IsLastLayout.isLayout_newline {lay : List Char} (h : IsLastLayout lay) :
    IsLayout (lay ++ ['\n']) := by
  have hnewline : IsLayout ['\n'] := .blank (by decide) .nil
  cases h with
  | complete hlay => exact hlay.append hnewline
  | line hlay hbody =>
    rw [List.append_assoc]
    exact hlay.append (.line hbody .nil)

/-! ## Moved texts -/

/-- The token some lines further down. -/
def Located.lower (k : Nat) (t : Located) : Located := { t with line := t.line + k }

theorem Located.lower_zero (t : Located) : t.lower 0 = t := rfl

namespace Cursor

/-- The first token of a text that is moved down, with a newline and more behind it. -/
theorem next_lower {c c' : Cursor} {t : Located} {s : List Char} (k : Nat)
    (h : c.next = (.ok t, c')) (ht : t.token ≠ .endOfInput) (hs : EndsLine s) :
    next ⟨c.rest ++ s, c.line + k⟩ = (.ok (t.lower k), ⟨c'.rest ++ s, c'.line + k⟩) := by
  obtain ⟨lay, text, hrest, hlay, hlex, hends, hline, hline'⟩ := isLexeme_of_next h ht
  have hnext := next_of_isLexeme (c.line + k) hlay hlex (hends.append_endsLine hs)
  rw [hrest, List.append_assoc, List.append_assoc, hnext, Located.lower, hline, hline']
  have htoken : c.line + k + Text.newlines lay = c.line + Text.newlines lay + k := by omega
  have hplace : c.line + k + Text.newlines lay + Text.newlines text =
      c.line + Text.newlines lay + Text.newlines text + k := by omega
  rw [htoken, ← hplace, htoken]

theorem Reads.lower {c c' : Cursor} {x : List Located} {s : List Char} (h : Reads c x c')
    (k : Nat) (hs : EndsLine s) :
    Reads ⟨c.rest ++ s, c.line + k⟩ (x.map (Located.lower k)) ⟨c'.rest ++ s, c'.line + k⟩ := by
  induction h with
  | done c => exact .done _
  | more hn ht _ ih => exact .more (next_lower k hn ht hs) ht ih

/-- Lines are counted over what is read. -/
theorem Reads.line_add_newlines {c c' : Cursor} {x : List Located} (h : Reads c x c') :
    c'.line + Text.newlines c'.rest = c.line + Text.newlines c.rest := by
  induction h with
  | done c => rfl
  | more hn ht _ ih =>
    obtain ⟨lay, text, hrest, -, -, -, -, hline⟩ := isLexeme_of_next hn ht
    rw [ih, hline, hrest, Text.newlines_append, Text.newlines_append]
    omega

/-- The tokens of a place that is moved down. -/
theorem tokens_lower {c : Cursor} {toks : List Located} (k : Nat) (h : c.tokens = .ok toks) :
    tokens ⟨c.rest, c.line + k⟩ = .ok (toks.map (Located.lower k)) := by
  obtain ⟨x, c', e, c'', hreads, hnext, he, rfl⟩ := tokens_eq_ok_iff.1 h
  have hfst : c'.next.1 = .ok e := by rw [hnext]
  obtain ⟨hlast, rfl⟩ := isLastLayout_of_next hfst he
  have hmoved := hreads.lower (s := []) k (by intro c hc; cases hc)
  simp only [List.append_nil] at hmoved
  have hend := next_of_isLastLayout (c'.line + k) hlast
  have hlower : (⟨.endOfInput, c'.line + k + Text.newlines c'.rest⟩ : Located) =
      Located.lower k ⟨.endOfInput, c'.line + Text.newlines c'.rest⟩ := by
    simp only [Located.lower, Located.mk.injEq, true_and]
    omega
  rw [hlower] at hend
  exact tokens_eq_ok_iff.2 ⟨_, _, _, _, hmoved, Prod.ext hend rfl, rfl, by simp⟩

/-- Layout in front of a place only moves its tokens down. -/
theorem tokens_layout {lay s : List Char} {line : Nat} {toks : List Located} (h : IsLayout lay)
    (htoks : tokens ⟨s, line + Text.newlines lay⟩ = .ok toks) :
    tokens ⟨lay ++ s, line⟩ = .ok toks := by
  obtain ⟨x, c, e, c', hreads, hnext, he, rfl⟩ := tokens_eq_ok_iff.1 htoks
  cases hreads with
  | done =>
    rw [← next_layout s line h] at hnext
    exact tokens_eq_ok_iff.2 ⟨[], _, e, c', .done _, hnext, he, rfl⟩
  | more hn ht hmore =>
    rw [← next_layout s line h] at hn
    exact tokens_eq_ok_iff.2 ⟨_, _, e, c', .more hn ht hmore, hnext, he, rfl⟩

theorem Reads.tokens_append {c c' : Cursor} {x toks : List Located} (h : Reads c x c')
    (htoks : c'.tokens = .ok toks) : c.tokens = .ok (x ++ toks) := by
  obtain ⟨y, d, e, d', hreads, hnext, he, rfl⟩ := tokens_eq_ok_iff.1 htoks
  exact tokens_eq_ok_iff.2 ⟨x ++ y, d, e, d', h.append hreads, hnext, he, by simp⟩

end Cursor

/-- **The tokens of two texts with a newline between them are those of the first one and those of the
second one,** these with their lines moved down, and without the end of the first text. -/
theorem tokenize_append {a b : String} {x toks : List Located} {e : Located}
    (ha : tokenize a = .ok (x ++ [e])) (hb : tokenize b = .ok toks) :
    tokenize (a ++ "\n" ++ b) =
      .ok (x ++ toks.map (Located.lower (Text.newlines a.toList + 1))) := by
  obtain ⟨y, c, e', c', hreads, hnext, he, hsplit⟩ := Cursor.tokens_eq_ok_iff.1 ha
  obtain ⟨rfl, hlast⟩ := List.append_inj' hsplit rfl
  cases hlast
  have hfst : c.next.1 = .ok e := by rw [hnext]
  obtain ⟨hlast, -⟩ := Cursor.isLastLayout_of_next hfst he
  have hjoined := hreads.lower (s := '\n' :: b.toList) 0 (by intro c hc; cases hc; rfl)
  have hsource : (a ++ "\n" ++ b).toList = a.toList ++ '\n' :: b.toList := by simp
  have hlines : c.line + Text.newlines (c.rest ++ ['\n']) = 1 + (Text.newlines a.toList + 1) := by
    have hcount := hreads.line_add_newlines
    simp only [Cursor.start] at hcount
    simp only [Text.newlines_append, Text.newlines_cons, Text.newlines_nil]
    simp
    omega
  have hrest : Cursor.tokens ⟨c.rest ++ '\n' :: b.toList, c.line⟩ =
      .ok (toks.map (Located.lower (Text.newlines a.toList + 1))) := by
    have hmoved := Cursor.tokens_lower (Text.newlines a.toList + 1) hb
    rw [Cursor.start, ← hlines] at hmoved
    simpa using Cursor.tokens_layout hlast.isLayout_newline hmoved
  have hx : x.map (Located.lower 0) = x := List.map_id'' Located.lower_zero x
  rw [hx] at hjoined
  rw [tokenize, Cursor.start, hsource]
  exact hjoined.tokens_append hrest

end SchemaDiagram
