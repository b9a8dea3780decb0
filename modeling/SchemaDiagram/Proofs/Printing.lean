/-
Writing tokens and reading them back (`tokenize_printed`).

Every token has one way to be written: the texts between quotes get a backslash
in front of each quote and each backslash, all other tokens are written as they
are shown. Between two tokens there is layout of any kind, but some.

That it works comes down to one character. A lexeme could only be made longer
by the character behind it, and layout begins with a blank or with a slash,
neither of which goes on with any lexeme (`Ends.of_gap`). So what is written is
a cut of the text (`isCut_printed`), and a cut is read piece by piece.
-/
import SchemaDiagram.Proofs.TextJoins

namespace SchemaDiagram

/-! ## Written tokens -/

/-- A character as it is written between two quotes. -/
def escapedFor (quote c : Char) : List Char := if c = quote ∨ c = '\\' then ['\\', c] else [c]

/-- A text between two quotes. -/
def inQuotes (quote : Char) (text : List Char) : List Char :=
  quote :: (text.flatMap (escapedFor quote) ++ [quote])

/-- Digits, with at most one dot somewhere behind the first one. -/
def Text.isNumeral : List Char → Bool
  | [] => false
  | c :: s => c.isDigit && s.all (fun d => d.isDigit || d == '.') && s.count '.' ≤ 1

/-- A number sign and letters and digits behind it. -/
def Text.isColor : List Char → Bool
  | '#' :: s => s.all Char.isAlphanum
  | _ => false

namespace Token

def written : Token → List Char
  | .quoted s => inQuotes '"' s.toList
  | .string s => inQuotes '\'' s.toList
  | t => t.text.toList

/-- Whether a token can be written at all. Texts between quotes may hold any character. -/
def isPrintable : Token → Bool
  | .word s => Text.isName s.toList
  | .number s => Text.isNumeral s.toList
  | .expression s => !s.toList.contains '\x60'
  | .color s => Text.isColor s.toList
  | .quoted _ | .string _ | .mark _ => true
  | .endOfInput => false

end Token

/-! ### Texts between quotes -/

theorem isQuotedBody_escapedFor (quote : Char) (s : List Char) :
    IsQuotedBody quote (s.flatMap (escapedFor quote)) := by
  induction s with
  | nil => exact .nil
  | cons c s ih =>
    rw [List.flatMap_cons]
    by_cases hc : c = quote ∨ c = '\\'
    · rw [escapedFor, if_pos hc]
      exact .escape ih
    · rw [escapedFor, if_neg hc]
      rw [not_or] at hc
      exact .plain hc.1 hc.2 ih

/-- A quote that stands for itself behind a backslash. -/
theorem unescape_escapedFor {quote : Char} (hquote : Lexeme.escaped quote = quote)
    (s : List Char) : Lexeme.unescape (s.flatMap (escapedFor quote)) = s := by
  induction s with
  | nil => rfl
  | cons c s ih =>
    rw [List.flatMap_cons]
    by_cases hc : c = quote ∨ c = '\\'
    · have hsame : Lexeme.escaped c = c := by
        rcases hc with rfl | rfl
        · exact hquote
        · rfl
      rw [escapedFor, if_pos hc]
      simp [Lexeme.unescape, hsame, ih]
    · rw [escapedFor, if_neg hc]
      rw [not_or] at hc
      rw [List.singleton_append, Lexeme.unescape.eq_2 _ _ (fun _ _ h => absurd h hc.2), ih]

theorem escapedFor_ne_nil (quote c : Char) : escapedFor quote c ≠ [] := by
  unfold escapedFor
  split <;> simp

/-! ### What is written is a lexeme -/

theorem isLexeme_word {w : String} (h : Text.isName w.toList = true) :
    IsLexeme (.word w) w.toList := by
  obtain ⟨c, s, hw⟩ : ∃ c s, w.toList = c :: s := by
    cases hw : w.toList with
    | nil => simp [hw, Text.isName] at h
    | cons c s => exact ⟨c, s, rfl⟩
  simp only [hw, Text.isName, Bool.and_eq_true, List.all_eq_true] at h
  have hlexeme := IsLexeme.word h.1 h.2
  rwa [← hw, String.ofList_toList] at hlexeme

/-- Digits and dots with at most one dot are digits, or digits on both sides of a dot. -/
theorem exists_of_count_dot {s : List Char} (h : ∀ d ∈ s, d.isDigit = true ∨ d = '.')
    (hcount : s.count '.' ≤ 1) :
    (∀ d ∈ s, d.isDigit = true) ∨ ∃ a b, s = a ++ '.' :: b ∧ (∀ d ∈ a, d.isDigit = true) ∧
      ∀ d ∈ b, d.isDigit = true := by
  by_cases hdot : '.' ∈ s
  · obtain ⟨a, b, rfl, ha⟩ := List.eq_append_cons_of_mem hdot
    have hb : '.' ∉ b := by
      intro hb
      have := List.count_pos_iff.2 hb
      simp only [List.count_append, List.count_cons_self] at hcount
      omega
    refine .inr ⟨a, b, rfl, fun d hd => ?_, fun d hd => ?_⟩
    · exact (h d (by simp [hd])).resolve_right fun he => ha (he ▸ hd)
    · exact (h d (by simp [hd])).resolve_right fun he => hb (he ▸ hd)
  · exact .inl fun d hd => (h d hd).resolve_right fun he => hdot (he ▸ hd)

theorem isLexeme_number {n : String} (h : Text.isNumeral n.toList = true) :
    IsLexeme (.number n) n.toList := by
  rw [← n.ofList_toList, String.toList_ofList]
  generalize n.toList = s at h
  cases s with
  | nil => cases h
  | cons c s =>
    simp only [Text.isNumeral, Bool.and_eq_true, List.all_eq_true, Bool.or_eq_true, beq_iff_eq,
      decide_eq_true_eq] at h
    obtain ⟨⟨hc, hs⟩, hcount⟩ := h
    obtain hdigits | ⟨a, b, rfl, ha, hb⟩ := exists_of_count_dot hs hcount
    · exact .whole hc hdigits
    · exact .decimal hc ha hb

theorem isLexeme_color {s : String} (h : Text.isColor s.toList = true) :
    IsLexeme (.color s) s.toList := by
  rw [← s.ofList_toList, String.toList_ofList]
  generalize s.toList = s at h
  unfold Text.isColor at h
  split at h
  · exact .color (List.all_eq_true.1 h)
  · cases h

theorem isLexeme_expression {s : String} (h : '\x60' ∉ s.toList) :
    IsLexeme (.expression s) ('\x60' :: (s.toList ++ ['\x60'])) := by
  have hlexeme := IsLexeme.expression h
  rwa [String.ofList_toList] at hlexeme

theorem isLexeme_quoted (s : String) : IsLexeme (.quoted s) (inQuotes '"' s.toList) := by
  have hlexeme := IsLexeme.quoted (isQuotedBody_escapedFor '"' s.toList)
  rwa [unescape_escapedFor rfl, String.ofList_toList] at hlexeme

/-- The empty text is written with two quotes and nothing between them. -/
theorem isLexeme_string (s : String) : IsLexeme (.string s) (inQuotes '\'' s.toList) := by
  by_cases hs : s.toList = []
  · obtain rfl : s = "" := String.toList_inj.1 hs
    exact .emptyString
  · have hne : s.toList.flatMap (escapedFor '\'') ≠ [] := by
      obtain ⟨c, t, hct⟩ := List.exists_cons_of_ne_nil hs
      rw [hct, List.flatMap_cons]
      simp [escapedFor_ne_nil]
    have hlexeme := IsLexeme.string (isQuotedBody_escapedFor '\'' s.toList) hne
    rwa [unescape_escapedFor rfl, String.ofList_toList] at hlexeme

theorem isLexeme_mark (m : Mark) : IsLexeme (.mark m) m.text.toList := by
  cases m with
  | less => exact .less
  | lessGreater => exact .lessGreater
  | leftBrace => exact .mark (c := '{') rfl
  | rightBrace => exact .mark (c := '}') rfl
  | leftParen => exact .mark (c := '(') rfl
  | rightParen => exact .mark (c := ')') rfl
  | leftBracket => exact .mark (c := '[') rfl
  | rightBracket => exact .mark (c := ']') rfl
  | comma => exact .mark (c := ',') rfl
  | colon => exact .mark (c := ':') rfl
  | dot => exact .mark (c := '.') rfl
  | greater => exact .mark (c := '>') rfl
  | minus => exact .mark (c := '-') rfl

theorem isLexeme_written {t : Token} (h : t.isPrintable = true) : IsLexeme t t.written := by
  cases t with
  | word w => exact isLexeme_word h
  | quoted s => exact isLexeme_quoted s
  | string s => exact isLexeme_string s
  | number n => exact isLexeme_number h
  | expression s =>
    have hnone : '\x60' ∉ s.toList := by simpa [Token.isPrintable] using h
    have hwritten : (Token.expression s).written = '\x60' :: (s.toList ++ ['\x60']) := by
      simp [Token.written, Token.text]
    rw [hwritten]
    exact isLexeme_expression hnone
  | color s => exact isLexeme_color h
  | mark m => exact isLexeme_mark m
  | endOfInput => cases h

/-! ## Printed texts -/

/-- A token to be written, and the layout to write in front of it. -/
structure Entry where
  layout : List Char
  token : Token
  isLayout : IsLayout layout
  isPrintable : token.isPrintable = true

def Entry.piece (e : Entry) : Piece := ⟨e.layout, e.token, e.token.written⟩

/-- Entries one after the other, with layout behind the last one. -/
def printed (es : List Entry) (last : List Char) : String :=
  String.ofList (es.flatMap (fun e => e.layout ++ e.token.written) ++ last)

theorem IsLastLayout.isGap {s : List Char} (h : IsLastLayout s) : IsGap s := by
  cases h with
  | complete hlay =>
    have hgap := hlay.isGap_append (s := []) fun _ => .nil
    rwa [List.append_nil] at hgap
  | line hlay =>
    refine hlay.isGap_append fun _ c he => ?_
    cases he
    exact .inr rfl

theorem isGap_entries {es : List Entry} {last : List Char} (hgaps : ∀ e ∈ es, e.layout ≠ [])
    (hlast : IsLastLayout last) :
    IsGap (es.flatMap (fun e => e.layout ++ e.token.written) ++ last) := by
  cases es with
  | nil => exact hlast.isGap
  | cons e es =>
    rw [List.flatMap_cons, List.append_assoc, List.append_assoc]
    exact e.isLayout.isGap_append fun hnil => absurd hnil (hgaps e List.mem_cons_self)

/-- What is printed is cut where it was put together. -/
theorem isCut_printed {es : List Entry} {last : List Char}
    (hgaps : ∀ e ∈ es.tail, e.layout ≠ []) (hlast : IsLastLayout last) :
    IsCut (printed es last).toList (es.map Entry.piece) last := by
  rw [printed, String.toList_ofList]
  induction es with
  | nil => exact .nil last
  | cons e es ih =>
    have hmore := ih fun d hd => hgaps d (List.mem_of_mem_tail hd)
    have hlexeme := isLexeme_written e.isPrintable
    have hends := Ends.of_gap e.token e.token.written (isGap_entries hgaps hlast)
    rw [List.flatMap_cons, List.append_assoc]
    exact .cons (p := e.piece) e.isLayout hlexeme ((ends_iff_isLongest hlexeme).1 hends) hmore

/-- Layout at the end of a text has no tokens but the end. -/
theorem Cursor.tokens_of_isLastLayout {s : List Char} (line : Nat) (h : IsLastLayout s) :
    tokens ⟨s, line⟩ = .ok [⟨.endOfInput, line + Text.newlines s⟩] :=
  tokens_eq_ok_iff.2 ⟨[], _, _, _, .done _, Prod.ext (next_of_isLastLayout line h) rfl, rfl, rfl⟩

/-- **Tokens that are written with layout between them are read back,** whatever the layout is and
whatever the texts between quotes hold, each on the line that it was written on. -/
theorem tokenize_printed (es : List Entry) (last : List Char)
    (hgaps : ∀ e ∈ es.tail, e.layout ≠ []) (hlast : IsLastLayout last) :
    tokenize (printed es last) =
      .ok (tokensBehind [] (es.map Entry.piece) ++
        [⟨.endOfInput, 1 + Text.newlines (printed es last).toList⟩]) := by
  have hcut := isCut_printed hgaps hlast
  have hreads := hcut.reads []
  have hend := Cursor.tokens_of_isLastLayout
    (1 + Text.newlines ([] ++ (es.map Entry.piece).flatMap Piece.chars)) hlast
  have htokens := hreads.tokens_append hend
  rw [List.nil_append, Nat.add_assoc, ← Text.newlines_append, ← hcut.eq_append] at htokens
  exact htokens

/-- An empty text in front of a comment that holds a quote, a text over two lines, and marks that would
be one mark without the newline between them. -/
def oddEntries : List Entry :=
  [⟨[], .string "", .nil, by decide⟩,
    ⟨"/*'*/".toList, .string "'\n\\", @IsLayout.comment ['\''] [] (by decide) .nil, by decide⟩,
    ⟨"//<\n".toList, .mark .less, @IsLayout.line ['<'] [] (by decide) .nil, by decide⟩,
    ⟨['\n'], .mark .greater, .blank (by decide) .nil, by decide⟩,
    ⟨[' '], .number "1.", .blank (by decide) .nil, by decide⟩,
    ⟨['\t'], .quoted "/*", .blank (by decide) .nil, by decide⟩]

theorem tokenize_printed_oddEntries :
    (∀ e ∈ oddEntries.tail, e.layout ≠ []) ∧ IsLastLayout "//".toList ∧
      printed oddEntries "//".toList = "''/*'*/'\\'\n\\\\'//<\n<\n> 1.\t\"/*\"//" ∧
      tokenize (printed oddEntries "//".toList) =
        .ok [⟨.string "", 1⟩, ⟨.string "'\n\\", 1⟩, ⟨.mark .less, 3⟩, ⟨.mark .greater, 4⟩,
          ⟨.number "1.", 4⟩, ⟨.quoted "/*", 4⟩, ⟨.endOfInput, 4⟩] := by
  have hgaps : ∀ e ∈ oddEntries.tail, e.layout ≠ [] := by simp [oddEntries]
  have hlast : IsLastLayout "//".toList := @IsLastLayout.line [] [] .nil (by decide)
  refine ⟨hgaps, hlast, by decide +kernel, ?_⟩
  rw [tokenize_printed oddEntries _ hgaps hlast]
  exact congrArg Except.ok (by decide +kernel)

end SchemaDiagram
