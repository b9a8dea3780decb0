/-
Layout and lexemes, each said without the scanner that reads it.

`IsLayout` is what may be skipped and `IsLexeme` relates a token to the
texts it may be written with. A lexeme is the longest one of its kind, which
says something about the character behind it: `Ends`. With these the
scanners are exact: layout is skipped whatever follows, and a lexeme is read
off a text exactly when it is written there and ends where it ends.
-/
import SchemaDiagram.Token.Lexer

namespace SchemaDiagram

/-! ## Blanks and the characters of names -/

namespace Text

/-- The numbers in ranges, one by one. -/
def points (ranges : List (Nat × Nat)) : List Nat :=
  ranges.flatMap fun (low, high) => List.range' low (high + 1 - low)

theorem mem_points {ranges : List (Nat × Nat)} {n : Nat} (h : inRanges ranges n = true) :
    n ∈ points ranges := by
  induction ranges with
  | nil => simp [inRanges] at h
  | cons r ranges ih =>
    obtain ⟨low, high⟩ := r
    simp only [inRanges, Bool.and_eq_true, Bool.or_eq_true, decide_eq_true_eq] at h
    simp only [points, List.flatMap_cons, List.mem_append, List.mem_range'_1]
    rcases h.2 with hle | hin
    · left; omega
    · right; exact ih hin

/-- No blank is a letter. -/
theorem not_isAlphabetic_of_mem_points :
    ∀ n ∈ points blankRanges, inRanges alphabeticRanges n = false := by decide +kernel

theorem isBlank_eq_false_of_isNameStart {c : Char} (h : isNameStart c = true) :
    isBlank c = false := by
  rw [Bool.eq_false_iff]
  intro hb
  have hp := mem_points hb
  simp only [isNameStart, Bool.or_eq_true, beq_iff_eq] at h
  rcases h with h | h
  · rw [isAlphabetic, not_isAlphabetic_of_mem_points _ hp] at h
    cases h
  · subst h
    revert hb
    decide

theorem isBlank_eq_false_of_isDigit {c : Char} (h : c.isDigit = true) : isBlank c = false := by
  rw [Bool.eq_false_iff]
  intro hb
  have hp := mem_points hb
  have hdigit : 48 ≤ c.toNat ∧ c.toNat ≤ 57 := by
    simpa [Char.isDigit, UInt32.le_iff_toNat_le] using h
  have hnone : ∀ n ∈ points blankRanges, ¬ (48 ≤ n ∧ n ≤ 57) := by decide +kernel
  exact hnone _ hp hdigit

end Text

/-! ## Layout -/

/-- Complete layout: blanks, comments with the newline that ends them, and comments with the mark
that closes them. -/
inductive IsLayout : List Char → Prop
  | nil : IsLayout []
  | blank {c : Char} {s : List Char} : Text.isBlank c = true → IsLayout s → IsLayout (c :: s)
  | line {body s : List Char} : '\n' ∉ body → IsLayout s →
      IsLayout ('/' :: '/' :: (body ++ '\n' :: s))
  | comment {body s : List Char} : ¬ ['*', '/'] <:+: body → IsLayout s →
      IsLayout ('/' :: '*' :: (body ++ '*' :: '/' :: s))

/-- Text that ends the comment a reader is inside of, and layout behind it. -/
def IsLayoutWithin : Layout.Within → List Char → Prop
  | .blanks, s => IsLayout s
  | .lineComment, s => ∃ body t, s = body ++ '\n' :: t ∧ '\n' ∉ body ∧ IsLayout t
  | .comment _, s => ∃ body t, s = body ++ '*' :: '/' :: t ∧ ¬ ['*', '/'] <:+: body ∧ IsLayout t

theorem lineAfter_add_newlines (c : Char) (s : List Char) (line : Nat) :
    lineAfter c line + Text.newlines s = line + Text.newlines (c :: s) := by
  rw [Text.newlines_cons]
  by_cases h : c = '\n' <;> simp [lineAfter, h]
  omega

namespace Layout

theorem skip_lineComment {body s : List Char} (line : Nat) (h : '\n' ∉ body) :
    skip .lineComment line (body ++ '\n' :: s) = skip .blanks (line + 1) s := by
  induction body generalizing line with
  | nil => simp [skip, lineAfter]
  | cons c body ih =>
    simp only [List.mem_cons, not_or] at h
    rw [List.cons_append, skip, if_neg (Ne.symm h.1), lineAfter, if_neg (Ne.symm h.1), ih line h.2]

theorem newlines_eq_zero {body : List Char} (h : '\n' ∉ body) : Text.newlines body = 0 :=
  List.count_eq_zero.2 h

theorem skip_comment {body s : List Char} (opened line : Nat) (h : ¬ ['*', '/'] <:+: body) :
    skip (.comment opened) line (body ++ '*' :: '/' :: s) =
      skip .blanks (line + Text.newlines body) s := by
  induction body generalizing line with
  | nil => simp [skip]
  | cons c body ih =>
    rw [List.infix_cons_iff, not_or] at h
    -- The comment does not close at `c`: no `*/` begins there.
    have hopen : ∀ t, c = '*' → body ++ '*' :: '/' :: s = '/' :: t → False := by
      intro t hc ht
      cases body with
      | nil => simp at ht
      | cons d body =>
        simp only [List.cons_append, List.cons.injEq] at ht
        exact h.1 (by simp [hc, ht.1])
    rw [List.cons_append, skip.eq_8 _ _ _ _ hopen, ih _ h.2, lineAfter_add_newlines]

/-- Complete layout is skipped, whatever follows. -/
theorem skip_layout {lay s : List Char} (line : Nat) (h : IsLayout lay) :
    skip .blanks line (lay ++ s) = skip .blanks (line + Text.newlines lay) s := by
  induction h generalizing line with
  | nil => rfl
  | @blank c lay hc _ ih =>
    have hslash : c ≠ '/' := by
      intro h
      subst h
      revert hc
      decide
    rw [List.cons_append, skip.eq_5 _ _ _ (fun _ h => absurd h hslash) (fun _ h => absurd h hslash),
      if_pos hc, ih, lineAfter_add_newlines]
  | @line body lay hb _ ih =>
    simp only [List.cons_append, List.append_assoc]
    rw [skip, skip_lineComment _ hb, ih]
    simp only [Text.newlines_cons, Text.newlines_append, newlines_eq_zero hb]
    congr 1
    simp
    omega
  | @comment body lay hb _ ih =>
    simp only [List.cons_append, List.append_assoc]
    rw [skip, skip_comment _ _ hb, ih]
    simp [Text.newlines_cons, Text.newlines_append]
    congr 1
    omega

/-- Layout ends in front of a character that neither is one nor can begin a comment. -/
theorem skip_stop {c : Char} {s : List Char} (line : Nat) (hc : Text.isBlank c = false)
    (hslash : c ≠ '/') : skip .blanks line (c :: s) = .stopped ⟨c :: s, line⟩ := by
  rw [skip.eq_5 _ _ _ (fun _ h => absurd h hslash) (fun _ h => absurd h hslash), hc]
  simp

/-- Where layout ends in front of a character, what was skipped is complete. -/
theorem isLayout_of_skip {w : Within} {line n : Nat} {s rest : List Char} {c : Char}
    (h : skip w line s = .stopped ⟨c :: rest, n⟩) :
    Text.isBlank c = false ∧
      ∃ lay, s = lay ++ c :: rest ∧ IsLayoutWithin w lay ∧ n = line + Text.newlines lay := by
  fun_induction skip w line s with
  | case1 => cases h
  | case2 => cases h
  | case3 line s ih =>
    obtain ⟨hc, lay, rfl, ⟨body, t, rfl, hb, ht⟩, rfl⟩ := ih h
    exact ⟨hc, '/' :: '/' :: (body ++ '\n' :: t), by simp, .line hb ht,
      by simp [Text.newlines_cons, Text.newlines_append]⟩
  | case4 line s ih =>
    obtain ⟨hc, lay, rfl, ⟨body, t, rfl, hb, ht⟩, rfl⟩ := ih h
    exact ⟨hc, '/' :: '*' :: (body ++ '*' :: '/' :: t), by simp, .comment hb ht,
      by simp [Text.newlines_cons, Text.newlines_append]⟩
  | case5 line d s _ _ hd ih =>
    obtain ⟨hc, lay, rfl, hlay, rfl⟩ := ih h
    exact ⟨hc, d :: lay, rfl, .blank hd hlay, lineAfter_add_newlines ..⟩
  | case6 line d s _ _ hd =>
    cases h
    exact ⟨by simpa using hd, [], rfl, .nil, rfl⟩
  | case7 line d s ih =>
    by_cases hd : d = '\n'
    · rw [if_pos hd] at h ih
      obtain ⟨hc, lay, rfl, hlay, rfl⟩ := ih h
      exact ⟨hc, d :: lay, rfl, ⟨[], lay, by rw [hd]; rfl, by simp, hlay⟩,
        lineAfter_add_newlines ..⟩
    · rw [if_neg hd] at h ih
      obtain ⟨hc, lay, rfl, ⟨body, t, rfl, hb, ht⟩, rfl⟩ := ih h
      exact ⟨hc, d :: (body ++ '\n' :: t), by simp,
        ⟨d :: body, t, rfl, by simp [hb, Ne.symm hd], ht⟩, lineAfter_add_newlines ..⟩
  | case8 opened line s ih =>
    obtain ⟨hc, lay, rfl, hlay, rfl⟩ := ih h
    exact ⟨hc, '*' :: '/' :: lay, rfl, ⟨[], lay, rfl, by simp, hlay⟩, by simp [Text.newlines_cons]⟩
  | case9 opened line d s hopen ih =>
    obtain ⟨hc, lay, rfl, ⟨body, t, rfl, hb, ht⟩, rfl⟩ := ih h
    refine ⟨hc, d :: (body ++ '*' :: '/' :: t), by simp, ⟨d :: body, t, rfl, ?_, ht⟩,
      lineAfter_add_newlines ..⟩
    rw [List.infix_cons_iff, not_or]
    refine ⟨fun hp => ?_, hb⟩
    obtain ⟨u, hu⟩ := hp
    simp only [List.cons_append, List.nil_append, List.cons.injEq] at hu
    obtain ⟨rfl, rfl⟩ := hu
    exact hopen _ rfl rfl

end Layout

/-! ## Lexemes -/

/-- What may stand between two quotes: a quote only behind a backslash, which takes the next
character along. -/
inductive IsQuotedBody (quote : Char) : List Char → Prop
  | nil : IsQuotedBody quote []
  | plain {c : Char} {s : List Char} : c ≠ quote → c ≠ '\\' → IsQuotedBody quote s →
      IsQuotedBody quote (c :: s)
  | escape {c : Char} {s : List Char} : IsQuotedBody quote s → IsQuotedBody quote ('\\' :: c :: s)

/-- What may stand between three quotes and three more: with two of those behind it, it holds no
three in a row. -/
def IsTripleBody (body : List Char) : Prop :=
  ¬ ['\'', '\'', '\''] <:+: body ++ ['\'', '\'']

open Lexeme in
/-- A token and a text it may be written with. -/
inductive IsLexeme : Token → List Char → Prop
  | mark {c : Char} {m : Mark} : Mark.ofChar? c = some m → IsLexeme (.mark m) [c]
  | less : IsLexeme (.mark .less) ['<']
  | lessGreater : IsLexeme (.mark .lessGreater) ['<', '>']
  | word {c : Char} {s : List Char} : Text.isNameStart c = true → (∀ d ∈ s, Text.isNameChar d = true) →
      IsLexeme (.word (String.ofList (c :: s))) (c :: s)
  | whole {c : Char} {s : List Char} : c.isDigit = true → (∀ d ∈ s, d.isDigit = true) →
      IsLexeme (.number (String.ofList (c :: s))) (c :: s)
  | decimal {c : Char} {s t : List Char} : c.isDigit = true → (∀ d ∈ s, d.isDigit = true) →
      (∀ d ∈ t, d.isDigit = true) →
      IsLexeme (.number (String.ofList (c :: (s ++ '.' :: t)))) (c :: (s ++ '.' :: t))
  | color {s : List Char} : (∀ d ∈ s, d.isAlphanum = true) →
      IsLexeme (.color (String.ofList ('#' :: s))) ('#' :: s)
  | expression {body : List Char} : '\x60' ∉ body →
      IsLexeme (.expression (String.ofList body)) ('\x60' :: (body ++ ['\x60']))
  | quoted {body : List Char} : IsQuotedBody '"' body →
      IsLexeme (.quoted (String.ofList (unescape body))) ('"' :: (body ++ ['"']))
  | string {body : List Char} : IsQuotedBody '\'' body → body ≠ [] →
      IsLexeme (.string (String.ofList (unescape body))) ('\'' :: (body ++ ['\'']))
  | emptyString : IsLexeme (.string "") ['\'', '\'']
  | triple {body : List Char} : IsTripleBody body →
      IsLexeme (.string (String.ofList (Text.trimChars body)))
        ('\'' :: '\'' :: '\'' :: (body ++ ['\'', '\'', '\'']))

/-- The text behind a lexeme does not make it longer. -/
def Ends (t : Token) (text rest : List Char) : Prop :=
  ∀ c, rest.head? = some c →
    match t with
    | .word _ => Text.isNameChar c = false
    | .number _ => c.isDigit = false ∧ (c = '.' → '.' ∈ text)
    | .color _ => c.isAlphanum = false
    | .mark .less => c ≠ '>'
    | .string _ => text = ['\'', '\''] → c ≠ '\''
    | _ => True

theorem Ends.nil (t : Token) (text : List Char) : Ends t text [] := by simp [Ends]

/-- Only the first character behind a lexeme counts. -/
theorem Ends.of_head {t : Token} {text rest rest' : List Char} (h : Ends t text rest)
    (he : rest'.head? = rest.head?) : Ends t text rest' := fun c hc => h c (he ▸ hc)

/-! ### Gaps -/

/-- The text begins with a blank or with a slash, or it is empty. -/
def IsGap (s : List Char) : Prop :=
  ∀ c, s.head? = some c → Text.isBlank c = true ∨ c = '/'

theorem IsLayout.isGap_append {lay s : List Char} (h : IsLayout lay) (hs : lay = [] → IsGap s) :
    IsGap (lay ++ s) := by
  cases h with
  | nil => exact hs rfl
  | blank hc =>
    intro c he
    cases he
    exact .inl hc
  | line | comment =>
    intro c he
    cases he
    exact .inr rfl

theorem IsGap.nil : IsGap [] := fun _ h => by cases h

/-- The characters that a gap can begin with go on with no lexeme. -/
theorem not_extends_of_gap {c : Char} (h : Text.isBlank c = true ∨ c = '/') :
    Text.isNameChar c = false ∧ c.isDigit = false ∧ c.isAlphanum = false ∧ c ≠ '.' ∧ c ≠ '>' ∧
      c ≠ '\'' := by
  have hnone : ∀ n ∈ '/'.toNat :: Text.points Text.blankRanges,
      Text.isNameChar (Char.ofNat n) = false ∧ (Char.ofNat n).isDigit = false ∧
        (Char.ofNat n).isAlphanum = false ∧ Char.ofNat n ≠ '.' ∧ Char.ofNat n ≠ '>' ∧
        Char.ofNat n ≠ '\'' := by decide +kernel
  have hpoint : c.toNat ∈ '/'.toNat :: Text.points Text.blankRanges := by
    rcases h with hblank | rfl
    · exact List.mem_cons_of_mem _ (Text.mem_points hblank)
    · exact List.mem_cons_self
  simpa using hnone _ hpoint

/-- A lexeme ends in front of a gap. -/
theorem Ends.of_gap (t : Token) (text : List Char) {rest : List Char} (h : IsGap rest) :
    Ends t text rest := by
  intro c hc
  obtain ⟨hname, hdigit, halphanum, hdot, hgreater, hquote⟩ := not_extends_of_gap (h c hc)
  cases t with
  | word => exact hname
  | number => exact ⟨hdigit, fun he => absurd he hdot⟩
  | color => exact halphanum
  | string => exact fun _ => hquote
  | mark m =>
    cases m with
    | less => exact hgreater
    | _ => trivial
  | quoted | expression | endOfInput => trivial

theorem takeWhile_of_head {p : Char → Bool} {s rest : List Char} (hs : ∀ c ∈ s, p c = true)
    (hr : ∀ c, rest.head? = some c → p c = false) :
    (s ++ rest).takeWhile p = s ∧ (s ++ rest).dropWhile p = rest := by
  rw [List.takeWhile_append_of_pos hs, List.dropWhile_append_of_pos hs]
  cases rest with
  | nil => simp
  | cons c rest => simp [hr c rfl]

theorem head_dropWhile {p : Char → Bool} {s : List Char} :
    ∀ c, (s.dropWhile p).head? = some c → p c = false := by
  intro c hc
  have := List.head?_dropWhile_not p s
  rw [hc] at this
  simpa using this

namespace Lexeme

/-! ### Cutting texts between quotes -/

theorem cutQuoted_of_isQuotedBody {quote : Char} {body : List Char} (rest : List Char)
    (hq : quote ≠ '\\') (h : IsQuotedBody quote body) :
    cutQuoted quote (body ++ quote :: rest) = some (body, rest) := by
  induction h with
  | nil => rw [List.nil_append, cutQuoted.eq_def]; simp
  | plain hc hb _ ih =>
    rw [List.cons_append, cutQuoted.eq_def]
    simp only [if_neg hc, if_neg hb, ih, Option.map_some]
  | escape _ ih =>
    rw [List.cons_append, List.cons_append, cutQuoted.eq_def]
    simp only [if_neg (Ne.symm hq), if_true, ih, Option.map_some]

theorem isQuotedBody_of_cutQuoted {quote : Char} {s body rest : List Char}
    (h : cutQuoted quote s = some (body, rest)) : IsQuotedBody quote body := by
  fun_induction cutQuoted quote s generalizing body with
  | case1 => cases h
  | case2 =>
    cases h
    exact .nil
  | case3 => cases h
  | case4 d s _ ih =>
    obtain ⟨⟨b, r⟩, hb, he⟩ := Option.map_eq_some_iff.1 h
    cases he
    exact .escape (ih hb)
  | case5 c s hc hb ih =>
    obtain ⟨⟨b, r⟩, hb', he⟩ := Option.map_eq_some_iff.1 h
    cases he
    exact .plain hc hb (ih hb')

theorem cutTriple_of_isTripleBody {body : List Char} (rest : List Char) (h : IsTripleBody body) :
    cutTriple (body ++ '\'' :: '\'' :: '\'' :: rest) = some (body, rest) := by
  induction body with
  | nil => rw [List.nil_append, cutTriple]
  | cons c body ih =>
    rw [IsTripleBody, List.cons_append, List.infix_cons_iff, not_or] at h
    -- No three quotes begin at `c`, also not with the ones behind the body.
    have hopen : ∀ t, c = '\'' → body ++ '\'' :: '\'' :: '\'' :: rest = '\'' :: '\'' :: t → False := by
      intro t hc ht
      apply h.1
      match body with
      | [] => simp [hc]
      | [d] =>
        simp only [List.cons_append, List.nil_append, List.cons.injEq] at ht
        simp [hc, ht.1]
      | d :: e :: body =>
        simp only [List.cons_append, List.cons.injEq] at ht
        simp [hc, ht.1, ht.2.1]
    rw [List.cons_append, cutTriple.eq_2 _ _ hopen, ih h.2, Option.map_some]

theorem isTripleBody_of_cutTriple {s body rest : List Char}
    (h : cutTriple s = some (body, rest)) : IsTripleBody body := by
  fun_induction cutTriple s generalizing body with
  | case1 =>
    cases h
    rw [IsTripleBody]
    decide
  | case2 c s hopen ih =>
    obtain ⟨⟨b, r⟩, hb, he⟩ := Option.map_eq_some_iff.1 h
    cases he
    have hs := eq_of_cutTriple hb
    rw [IsTripleBody, List.cons_append, List.infix_cons_iff, not_or]
    refine ⟨fun hp => ?_, ih hb⟩
    obtain ⟨u, hu⟩ := hp
    simp only [List.cons_append, List.nil_append, List.cons.injEq] at hu
    obtain ⟨rfl, hu⟩ := hu
    -- The three quotes would stand in the text that was cut.
    rcases b with _ | ⟨d, _ | ⟨e, b⟩⟩
    · exact hopen _ rfl hs
    · simp only [List.cons_append, List.nil_append, List.cons.injEq] at hu
      exact hopen _ rfl (by rw [hs, ← hu.1]; rfl)
    · simp only [List.cons_append, List.cons.injEq] at hu
      exact hopen _ rfl (by rw [hs, ← hu.1, ← hu.2.1]; rfl)
  | case3 => cases h

theorem cutExpression_of_not_mem {body : List Char} (rest : List Char) (h : '\x60' ∉ body) :
    cutExpression (body ++ '\x60' :: rest) = some (body, rest) := by
  have hbody : ∀ c ∈ body, decide (c ≠ '\x60') = true := by
    intro c hc
    simp only [decide_eq_true_eq]
    rintro rfl
    exact h hc
  obtain ⟨htake, hdrop⟩ := @takeWhile_of_head _ body ('\x60' :: rest) hbody (by simp)
  simp only [cutExpression, htake, hdrop]

theorem not_mem_of_cutExpression {s body rest : List Char}
    (h : cutExpression s = some (body, rest)) : '\x60' ∉ body := by
  unfold cutExpression at h
  split at h
  · cases h
  · cases h
    intro hm
    simpa using List.all_eq_true.1 List.all_takeWhile _ hm

/-! ### Reading one lexeme -/

theorem ofChar?_eq_none {c : Char} (h : Text.isNameStart c = true ∨ c.isDigit = true) :
    Mark.ofChar? c = none := by
  unfold Mark.ofChar?
  split
  all_goals first | rfl | (revert h; decide +kernel)

/-- A character that begins a name or a number is none of those that begin another lexeme. -/
theorem ne_of_isNameStart {c d : Char} (h : Text.isNameStart c = true ∨ c.isDigit = true)
    (hd : Text.isNameStart d = false ∧ d.isDigit = false) : c ≠ d := by
  intro he
  subst he
  simp [hd.1, hd.2] at h

theorem isDigit_eq_false_of_isNameStart {c : Char} (h : Text.isNameStart c = true) :
    c.isDigit = false := by
  rw [Bool.eq_false_iff]
  intro hd
  have hdigit : Text.inRanges [(48, 57)] c.toNat = true := by
    simpa [Text.inRanges, Char.isDigit, UInt32.le_iff_toNat_le] using hd
  have hnone : ∀ n ∈ Text.points [(48, 57)],
      Text.inRanges Text.alphabeticRanges n = false ∧ n ≠ '_'.toNat := by decide +kernel
  obtain ⟨hletter, hunder⟩ := hnone _ (Text.mem_points hdigit)
  simp only [Text.isNameStart, Text.isAlphabetic, hletter, Bool.false_or, beq_iff_eq] at h
  exact hunder (by rw [h])

theorem read_word {c : Char} (s : List Char) (h : Text.isNameStart c = true) :
    read c s = .ok (word c s) := by
  have hne := fun d => @ne_of_isNameStart c d (.inl h)
  rw [read, ofChar?_eq_none (.inl h)]
  simp only [if_neg (hne '<' (by decide +kernel)), if_neg (hne '"' (by decide +kernel)),
    if_neg (hne '\'' (by decide +kernel)), if_neg (hne '\x60' (by decide +kernel)),
    if_neg (hne '#' (by decide +kernel)), isDigit_eq_false_of_isNameStart h, h, if_true]
  simp

theorem read_number {c : Char} (s : List Char) (h : c.isDigit = true) :
    read c s = .ok (number c s) := by
  have hne := fun d => @ne_of_isNameStart c d (.inr h)
  rw [read, ofChar?_eq_none (.inr h)]
  simp only [if_neg (hne '<' (by decide +kernel)), if_neg (hne '"' (by decide +kernel)),
    if_neg (hne '\'' (by decide +kernel)), if_neg (hne '\x60' (by decide +kernel)),
    if_neg (hne '#' (by decide +kernel)), h, if_true]

theorem number_whole {c : Char} {s rest : List Char} (hs : ∀ d ∈ s, d.isDigit = true)
    (hr : ∀ d, rest.head? = some d → d.isDigit = false ∧ d ≠ '.') :
    number c (s ++ rest) = ⟨.number (String.ofList (c :: s)), c :: s, rest⟩ := by
  obtain ⟨htake, hdrop⟩ := takeWhile_of_head hs fun d hd => (hr d hd).1
  unfold number
  rw [htake, hdrop]
  split
  · exact absurd rfl (hr '.' rfl).2
  · rfl

theorem number_decimal {c : Char} {s t rest : List Char} (hs : ∀ d ∈ s, d.isDigit = true)
    (ht : ∀ d ∈ t, d.isDigit = true) (hr : ∀ d, rest.head? = some d → d.isDigit = false) :
    number c (s ++ '.' :: (t ++ rest)) =
      ⟨.number (String.ofList (c :: (s ++ '.' :: t))), c :: (s ++ '.' :: t), rest⟩ := by
  obtain ⟨htake, hdrop⟩ := @takeWhile_of_head _ s ('.' :: (t ++ rest)) hs (by simp)
  obtain ⟨htake', hdrop'⟩ := takeWhile_of_head ht hr
  unfold number
  rw [htake, hdrop]
  simp only [htake', hdrop', List.cons_append]

theorem string_of_isQuotedBody {body : List Char} (rest : List Char)
    (h : IsQuotedBody '\'' body) (hne : body ≠ []) :
    string (body ++ '\'' :: rest) =
      .ok ⟨.string (String.ofList (unescape body)), '\'' :: (body ++ ['\'']), rest⟩ := by
  have hcut := cutQuoted_of_isQuotedBody rest (by decide) h
  obtain ⟨c, body, rfl⟩ := List.exists_cons_of_ne_nil hne
  have hc : c ≠ '\'' := by
    cases h with
    | plain hc => exact hc
    | escape => decide
  rw [List.cons_append, string.eq_def]
  split
  · rename_i he
    exact absurd (List.cons.inj he).1 hc
  · rename_i he
    exact absurd (List.cons.inj he).1 hc
  · rename_i he
    rw [List.cons_append] at hcut
    rw [hcut]
    rfl

/-- A lexeme at the front of a text is read, if it ends there. -/
theorem read_of_isLexeme {t : Token} {c : Char} {text rest : List Char}
    (h : IsLexeme t (c :: text)) (he : Ends t (c :: text) rest) :
    read c (text ++ rest) = .ok ⟨t, c :: text, rest⟩ := by
  cases h with
  | mark hm => simp only [read, hm, List.nil_append]
  | less =>
    have hangle : angle rest = ⟨.mark .less, ['<'], rest⟩ := by
      unfold angle
      split
      · exact absurd rfl (he '>' rfl)
      · rfl
    simp [read, Mark.ofChar?, hangle]
  | lessGreater => rfl
  | word hc hs =>
    obtain ⟨htake, hdrop⟩ := takeWhile_of_head hs he
    rw [read_word _ hc, word, htake, hdrop]
  | whole hc hs =>
    rw [read_number _ hc, number_whole hs]
    intro d hd
    obtain ⟨hdigit, hdot⟩ := he d hd
    refine ⟨hdigit, fun hd' => ?_⟩
    rcases List.mem_cons.1 (hdot hd') with hm | hm
    · subst hm
      revert hc
      decide
    · have := hs _ hm
      revert this
      decide
  | @decimal _ s t hc hs ht =>
    rw [read_number _ hc, List.append_assoc, List.cons_append, number_decimal hs ht]
    exact fun d hd => (he d hd).1
  | color hs =>
    obtain ⟨htake, hdrop⟩ := takeWhile_of_head hs he
    simp [read, Mark.ofChar?, color, htake, hdrop]
  | expression hb =>
    have := cutExpression_of_not_mem rest hb
    simp [read, Mark.ofChar?, expression, this]
  | quoted hb =>
    have := cutQuoted_of_isQuotedBody rest (by decide) hb
    simp [read, Mark.ofChar?, quotedName, this]
  | string hb hne =>
    have := string_of_isQuotedBody rest hb hne
    simp [read, Mark.ofChar?, this]
  | emptyString =>
    have hempty : string ('\'' :: rest) = .ok ⟨.string "", ['\'', '\''], rest⟩ := by
      rw [string.eq_def]
      split
      · rename_i hs
        cases hs
        exact absurd rfl (he '\'' rfl rfl)
      · rename_i hs
        cases hs
        rfl
      · rename_i hne
        exact absurd rfl (hne rest)
    simp [read, Mark.ofChar?, hempty]
  | triple hb =>
    have := cutTriple_of_isTripleBody rest hb
    simp [read, Mark.ofChar?, string, this]

/-- What is read is a lexeme, and it ends there. -/
theorem isLexeme_of_read {c : Char} {s : List Char} {x : Lexeme} (h : read c s = .ok x) :
    IsLexeme x.token x.text ∧ Ends x.token x.text x.rest := by
  unfold read at h
  split at h
  · rename_i m hm
    cases h
    refine ⟨.mark hm, fun d _ => ?_⟩
    cases m <;> simp
    revert hm
    unfold Mark.ofChar?
    split <;> simp
  split at h
  · cases h
    unfold angle
    split
    · exact ⟨.lessGreater, fun d _ => trivial⟩
    · rename_i hne
      refine ⟨.less, fun d hd => ?_⟩
      rintro rfl
      cases s with
      | nil => cases hd
      | cons e s =>
        cases hd
        exact hne s rfl
  split at h
  · unfold quotedName at h
    split at h
    · cases h
    · rename_i hcut
      cases h
      exact ⟨.quoted (isQuotedBody_of_cutQuoted hcut), fun d _ => trivial⟩
  split at h
  · unfold string at h
    split at h
    · split at h
      · cases h
      · rename_i hcut
        cases h
        exact ⟨.triple (isTripleBody_of_cutTriple hcut), fun d _ hd => by simp at hd⟩
    · rename_i s hne
      cases h
      refine ⟨.emptyString, fun d hd _ => ?_⟩
      rintro rfl
      cases s with
      | nil => cases hd
      | cons e s =>
        cases hd
        exact hne s rfl
    · rename_i h₁ h₂
      split at h
      · cases h
      · rename_i body rest hcut
        cases h
        have hne : body ≠ [] := by
          rintro rfl
          exact h₂ rest (eq_of_cutQuoted hcut)
        refine ⟨.string (isQuotedBody_of_cutQuoted hcut) hne, fun d _ hd => ?_⟩
        simp at hd
        exact absurd hd hne
  split at h
  · unfold expression at h
    split at h
    · cases h
    · rename_i hcut
      cases h
      exact ⟨.expression (not_mem_of_cutExpression hcut), fun d _ => trivial⟩
  split at h
  · cases h
    exact ⟨.color fun d hd => List.all_eq_true.1 List.all_takeWhile d hd, head_dropWhile⟩
  split at h
  · rename_i hc
    cases h
    unfold number
    have hwhole : ∀ d ∈ s.takeWhile Char.isDigit, d.isDigit = true :=
      fun d hd => List.all_eq_true.1 List.all_takeWhile d hd
    split
    · rename_i t ht
      refine ⟨.decimal hc hwhole fun d hd => List.all_eq_true.1 List.all_takeWhile d hd, ?_⟩
      exact fun d hd => ⟨head_dropWhile d hd, fun _ => by simp⟩
    · rename_i hne
      refine ⟨.whole hc hwhole, fun d hd => ⟨head_dropWhile d hd, ?_⟩⟩
      rintro rfl
      cases hs : s.dropWhile Char.isDigit with
      | nil =>
        rw [hs] at hd
        cases hd
      | cons e r =>
        rw [hs] at hd
        cases hd
        exact absurd hs (hne r)
  split at h
  · rename_i hc
    cases h
    exact ⟨.word hc fun d hd => List.all_eq_true.1 List.all_takeWhile d hd, head_dropWhile⟩
  · cases h

end Lexeme

end SchemaDiagram
