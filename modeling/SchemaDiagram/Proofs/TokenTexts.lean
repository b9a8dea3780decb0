/-
The tokens of a text without their lines, and texts that are put together or
taken apart between two tokens.

All of it is said with cuts (`hasTokens_iff_exists_isCut`). A text can be taken
apart behind any of its lexemes, since nothing behind a lexeme made it shorter;
and texts that are shown one after the other make up a cut if each one ends in
front of the next. Of the texts that tokens are shown with, those between quotes
are lexemes only where nothing in them needs an escape (`Token.IsVerbatim`).
-/
import Mathlib.Data.List.Chain
import SchemaDiagram.Proofs.Printing

namespace SchemaDiagram

/-! ## Texts and their tokens -/

/-- The tokens of a text, without the end of the input that stands behind them. -/
def HasTokens (text : String) (toks : List Token) : Prop :=
  ∃ x, tokenize text = .ok x ∧ x.map Located.token = toks ++ [.endOfInput]

theorem map_token_tokensBehind (before : List Char) (ps : List Piece) :
    (tokensBehind before ps).map Located.token = ps.map Piece.token := by
  induction ps generalizing before with
  | nil => rfl
  | cons p ps ih => rw [tokensBehind, List.map_cons, List.map_cons, ih]

/-- The tokens of a text are those of the lexemes it is cut into. -/
theorem hasTokens_iff_exists_isCut {text : String} {toks : List Token} :
    HasTokens text toks ↔
      ∃ ps last, IsCut text.toList ps last ∧ IsLastLayout last ∧ ps.map Piece.token = toks := by
  constructor
  · rintro ⟨x, htokenize, hmap⟩
    obtain ⟨y, c, e, c', hreads, hnext, he, rfl⟩ := Cursor.tokens_eq_ok_iff.1 htokenize
    obtain ⟨ps, hcut, rfl, -⟩ := hreads.exists_isCut [] rfl
    have hfst : c.next.1 = .ok e := by rw [hnext]
    obtain ⟨hlast, -⟩ := Cursor.isLastLayout_of_next hfst he
    rw [List.map_append, map_token_tokensBehind] at hmap
    obtain ⟨hps, -⟩ := List.append_inj' hmap rfl
    exact ⟨ps, c.rest, hcut, hlast, hps⟩
  · rintro ⟨ps, last, hcut, hlast, rfl⟩
    have hend := Cursor.tokens_of_isLastLayout
      (1 + Text.newlines ([] ++ ps.flatMap Piece.chars)) hlast
    refine ⟨_, (hcut.reads []).tokens_append hend, ?_⟩
    rw [List.map_append, map_token_tokensBehind]
    rfl

/-- The tokens of a text by computation. -/
theorem hasTokens_of_tokenize {text : String} {toks : List Token}
    (h : (tokenize text).toOption.map (·.map Located.token) = some (toks ++ [.endOfInput])) :
    HasTokens text toks := by
  obtain ⟨x, htokens, hmap⟩ := Option.map_eq_some_iff.1 h
  exact ⟨x, eq_ok_of_toOption htokens, hmap⟩

/-! ### Taking apart -/

theorem Ends.of_append {t : Token} {text a b : List Char} (h : Ends t text (a ++ b)) :
    Ends t text a := by
  cases a with
  | nil => exact .nil t text
  | cons c a => exact h.of_head rfl

/-- A cut can be taken apart behind any piece, with nothing left between the parts. -/
theorem IsCut.exists_split {s last : List Char} {ps qs : List Piece}
    (h : IsCut s (ps ++ qs) last) :
    ∃ back, s = ps.flatMap Piece.chars ++ back ∧ IsCut (ps.flatMap Piece.chars) ps [] ∧
      IsCut back qs last := by
  induction ps generalizing s with
  | nil => exact ⟨s, rfl, .nil [], h⟩
  | cons p ps ih =>
    cases h with
    | cons hlay hlex hlongest hmore =>
      obtain ⟨back, rfl, hfront, hback⟩ := ih hmore
      have hends := ((ends_iff_isLongest hlex).2 hlongest).of_append
      refine ⟨back, by simp, ?_, hback⟩
      rw [List.flatMap_cons]
      exact .cons hlay hlex ((ends_iff_isLongest hlex).1 hends) hfront

/-- **A text can be taken apart between any two of its tokens.** -/
theorem HasTokens.exists_split {text : String} {x y : List Token} (h : HasTokens text (x ++ y)) :
    ∃ front back, text = front ++ back ∧ HasTokens front x ∧ HasTokens back y := by
  obtain ⟨all, last, hcut, hlast, hmap⟩ := hasTokens_iff_exists_isCut.1 h
  obtain ⟨ps, qs, rfl, rfl, rfl⟩ := List.map_eq_append_iff.1 hmap
  obtain ⟨back, htext, hfront, hback⟩ := hcut.exists_split
  refine ⟨String.ofList (ps.flatMap Piece.chars), String.ofList back, ?_, ?_, ?_⟩
  · rw [← String.ofList_append, ← htext, String.ofList_toList]
  · rw [← String.toList_ofList (l := ps.flatMap Piece.chars)] at hfront
    exact hasTokens_iff_exists_isCut.2 ⟨ps, [], hfront, .complete .nil, rfl⟩
  · rw [← String.toList_ofList (l := back)] at hback
    exact hasTokens_iff_exists_isCut.2 ⟨qs, last, hback, hlast, rfl⟩

/-! ### Putting together -/

/-- A newline between two texts keeps the tokens of both. -/
theorem HasTokens.append_newline {a b : String} {x y : List Token} (ha : HasTokens a x)
    (hb : HasTokens b y) : HasTokens (a ++ "\n" ++ b) (x ++ y) := by
  obtain ⟨front, htokens, hmap⟩ := ha
  obtain ⟨back, htokens', hmap'⟩ := hb
  obtain ⟨front, last, rfl, rfl, hlast⟩ := List.map_eq_append_iff.1 hmap
  obtain ⟨e, rfl, -⟩ := List.map_eq_singleton_iff.1 hlast
  refine ⟨_, tokenize_append htokens htokens', ?_⟩
  have hlower : Located.token ∘ Located.lower (Text.newlines a.toList + 1) = Located.token := rfl
  rw [List.map_append, List.map_map, hlower, hmap', List.append_assoc]

/-! ## Tokens as they are shown -/

/-- A token that is shown as it is written: the text it stands for has no backslash, and none of the
double quotes that it stands between. Apostrophes are shown behind a backslash. -/
def Token.IsVerbatim : Token → Prop
  | .string s => '\\' ∉ s.toList
  | .quoted s => '\\' ∉ s.toList ∧ '"' ∉ s.toList
  | _ => True

theorem Token.IsVerbatim.written_eq {t : Token} (h : t.IsVerbatim) : t.written = t.text.toList := by
  cases t with
  | string s =>
    have hescaped : s.toList.flatMap (escapedFor '\'') = s.toList.flatMap text.escapeApostrophe := by
      refine List.flatMap_congr fun c hc => ?_
      have hslash : c ≠ '\\' := fun he => h (he ▸ hc)
      by_cases hquote : c = '\'' <;> simp [escapedFor, text.escapeApostrophe, hslash, hquote]
    simp [written, text, inQuotes, hescaped]
  | quoted s =>
    have hescaped : ∀ c ∈ s.toList, escapedFor '"' c = [c] := by
      intro c hc
      have hslash : c ≠ '\\' := fun he => h.1 (he ▸ hc)
      have hquote : c ≠ '"' := fun he => h.2 (he ▸ hc)
      simp [escapedFor, hslash, hquote]
    simp [written, text, inQuotes, List.flatMap_congr hescaped]
  | word | number | expression | color | mark | endOfInput => rfl

theorem IsLexeme.isPrintable {t : Token} {text : List Char} (h : IsLexeme t text) :
    t.isPrintable = true := by
  have hdigits {s : List Char} (hs : ∀ d ∈ s, d.isDigit = true) : s.count '.' = 0 :=
    List.count_eq_zero.2 fun hdot => by simpa using hs '.' hdot
  cases h with
  | word hc hs => simpa [Token.isPrintable, Text.isName, hc] using hs
  | @whole c s hc hs =>
    have hcount := hdigits hs
    simp only [Token.isPrintable, String.toList_ofList, Text.isNumeral, hc, hcount]
    simpa using fun d hd => Or.inl (hs d hd)
  | @decimal c s t hc hs ht =>
    have hcount : (s ++ '.' :: t).count '.' = 1 := by simp [hdigits hs, hdigits ht]
    have hfront : ∀ d ∈ s, d.isDigit = true ∨ d = '.' := fun d hd => .inl (hs d hd)
    have hback : ∀ d ∈ t, d.isDigit = true ∨ d = '.' := fun d hd => .inl (ht d hd)
    simp only [Token.isPrintable, String.toList_ofList, Text.isNumeral, hc, hcount]
    simpa using ⟨hfront, hback⟩
  | color hs => simpa [Token.isPrintable, Text.isColor] using hs
  | expression hbody => simpa [Token.isPrintable] using hbody
  | mark | less | lessGreater | quoted | string | emptyString | triple => rfl

/-- A token that is shown as it is written is shown with a lexeme. -/
theorem IsLexeme.of_isVerbatim {t : Token} {text : List Char} (h : IsLexeme t text)
    (hverbatim : t.IsVerbatim) : IsLexeme t t.text.toList :=
  hverbatim.written_eq ▸ isLexeme_written h.isPrintable

/-- No mark makes a lexeme longer but for a dot behind a number without one, and a `>` behind
a `<`. -/
theorem Ends.of_mark {t : Token} {text : List Char} {m : Mark}
    (hdot : ∀ n, t = .number n → m = .dot → '.' ∈ text)
    (hgreater : t = .mark .less → m ≠ .greater) : Ends t text m.text.toList := by
  have hmarks (m : Mark) : ∀ c, m.text.toList.head? = some c →
      Text.isNameChar c = false ∧ c.isDigit = false ∧ c.isAlphanum = false ∧ c ≠ '\'' ∧
        (c = '.' → m = .dot) ∧ (c = '>' → m = .greater) := by
    cases m
    all_goals
      rintro c hc
      cases hc
      decide +kernel
  intro c hc
  obtain ⟨hname, hdigit, halphanum, hquote, hcdot, hcgreater⟩ := hmarks m c hc
  cases t with
  | word => exact hname
  | number n => exact ⟨hdigit, fun he => hdot n rfl (hcdot he)⟩
  | color => exact halphanum
  | string => exact fun _ => hquote
  | mark k =>
    cases k with
    | less => exact fun he => hgreater rfl (hcgreater he)
    | _ => trivial
  | quoted | expression | endOfInput => trivial

/-- Nothing makes a mark longer but a `<`. -/
theorem Ends.of_ne_less {m : Mark} (h : m ≠ .less) (text rest : List Char) :
    Ends (.mark m) text rest := by
  intro c _
  cases m with
  | less => exact absurd rfl h
  | _ => trivial

theorem Ends.append {t : Token} {text a : List Char} (h : Ends t text a) (ha : a ≠ [])
    (b : List Char) : Ends t text (a ++ b) := by
  obtain ⟨c, a, rfl⟩ := List.exists_cons_of_ne_nil ha
  exact h.of_head rfl

/-- Tokens that are shown behind another one, each with a blank in front of it if it does not stand
tight. -/
def shownBehind (tight : Token → Token → Bool) (before : Token) : List Token → List Char
  | [] => []
  | t :: rest =>
    (if tight before t then [] else [' ']) ++ (t.text.toList ++ shownBehind tight t rest)

/-- **Tokens that are shown one after the other are read back** if each one is shown with a lexeme, and
ends in front of the next one where that stands tight. -/
theorem isCut_shown {tight : Token → Token → Bool} {t : Token} {run : List Token} {lay : List Char}
    (hlay : IsLayout lay) (hlexemes : ∀ u ∈ t :: run, IsLexeme u u.text.toList)
    (htight : (t :: run).IsChain fun u v => tight u v = true → Ends u u.text.toList v.text.toList) :
    ∃ ps, IsCut (lay ++ (t.text.toList ++ shownBehind tight t run)) ps [] ∧
      ps.map Piece.token = t :: run := by
  induction run generalizing t lay with
  | nil =>
    have hlexeme := hlexemes t (by simp)
    have hcut : IsCut (Piece.chars ⟨lay, t, t.text.toList⟩ ++ []) [⟨lay, t, t.text.toList⟩] [] :=
      .cons hlay hlexeme ((ends_iff_isLongest hlexeme).1 (.nil _ _)) (.nil [])
    exact ⟨_, by simpa [Piece.chars, shownBehind] using hcut, rfl⟩
  | cons u run ih =>
    obtain ⟨hlexeme, hmore⟩ := List.forall_mem_cons.1 hlexemes
    obtain ⟨hfirst, hchain⟩ := List.isChain_cons_cons.1 htight
    obtain ⟨c, s, hshown, -⟩ := (hmore u (by simp)).exists_cons
    have hgap : IsLayout (if tight t u then [] else [' ']) := by
      split
      · exact .nil
      · exact .blank (by decide) .nil
    obtain ⟨ps, hcut, hps⟩ := ih hgap hmore hchain
    have hends : Ends t t.text.toList (shownBehind tight t (u :: run)) := by
      rw [shownBehind]
      split
      · rename_i h
        exact (hfirst h).append (by simp [hshown]) _
      · exact .of_gap _ _ fun c hc => .inl (by cases hc; decide)
    have hall := IsCut.cons (p := ⟨lay, t, t.text.toList⟩) hlay hlexeme
      ((ends_iff_isLongest hlexeme).1 hends) hcut
    exact ⟨_, by simpa [Piece.chars] using hall, by rw [List.map_cons, hps]⟩

theorem hasTokens_of_shown (tight : Token → Token → Bool) {text : String} {t : Token}
    {run : List Token} (htext : text.toList = t.text.toList ++ shownBehind tight t run)
    (hlexemes : ∀ u ∈ t :: run, IsLexeme u u.text.toList)
    (htight : (t :: run).IsChain fun u v => tight u v = true → Ends u u.text.toList v.text.toList) :
    HasTokens text (t :: run) := by
  obtain ⟨ps, hcut, hps⟩ := isCut_shown .nil hlexemes htight
  rw [List.nil_append, ← htext] at hcut
  exact hasTokens_iff_exists_isCut.2 ⟨ps, [], hcut, .complete .nil, hps⟩

end SchemaDiagram
