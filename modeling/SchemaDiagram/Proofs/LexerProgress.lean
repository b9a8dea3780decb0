/-
Asking a place for its next token again and again, also behind errors
(`answers_of_source`).

What a step can do is said once (`Goes`, `exists_goes`): it takes some text off
the front and answers the end, a token, a character that begins nothing, or an
opening that is never closed. It does so on every line alike, and the line only
moves the answer down. All that holds of any number of steps follows from that
by induction: the text gets shorter until the end is found, the lines that are
reported only grow, and behind the end nothing comes but the end.
-/
import SchemaDiagram.Proofs.TextJoins

namespace SchemaDiagram

/-! ## Answers -/

/-- What a place answers when it is asked for its next token. -/
abbrev Answer := Except LexError Located

namespace Answer

/-- The line a token or an error is reported on. -/
def line : Answer → Nat
  | .ok t => t.line
  | .error e => e.line

def isEnd : Answer → Bool
  | .ok t => t.token == .endOfInput
  | .error _ => false

/-- Whether something is opened that nothing closes. -/
def isUnclosed : Answer → Bool
  | .error ⟨.unterminated _, _⟩ => true
  | _ => false

/-- The answer some lines further down. -/
def lower (k : Nat) : Answer → Answer
  | .ok t => .ok (t.lower k)
  | .error e => .error { e with line := e.line + k }

@[simp] theorem line_lower (k : Nat) (a : Answer) : (a.lower k).line = a.line + k := by
  cases a <;> rfl

@[simp] theorem isEnd_lower (k : Nat) (a : Answer) : (a.lower k).isEnd = a.isEnd := by
  cases a <;> rfl

@[simp] theorem isUnclosed_lower (k : Nat) (a : Answer) :
    (a.lower k).isUnclosed = a.isUnclosed := by
  obtain ⟨f, line⟩ | t := a
  · cases f <;> rfl
  · rfl

theorem lower_lower (j k : Nat) (a : Answer) : (a.lower j).lower k = a.lower (j + k) := by
  cases a <;> simp [lower, Located.lower, Nat.add_assoc]

end Answer

/-! ## One step -/

/-- A text, what it answers with lines counted from 0, the text that is taken off its front, and the
text that is left. -/
inductive Goes : List Char → Answer → List Char → List Char → Prop
  | finish (s : List Char) : Goes s (.ok ⟨.endOfInput, Text.newlines s⟩) s []
  | token {t : Token} {text : List Char} (lay rest : List Char) : t ≠ .endOfInput → text ≠ [] →
      Goes (lay ++ (text ++ rest)) (.ok ⟨t, Text.newlines lay⟩) (lay ++ text) rest
  | unexpected {d : Char} (lay rest : List Char) : d ≠ '\n' →
      Goes (lay ++ d :: rest) (.error ⟨.unexpected d, Text.newlines lay⟩) (lay ++ [d]) rest
  | unterminated {s : List Char} (kind : Enclosure) (lay : List Char) : s ≠ [] →
      Goes (lay ++ s) (.error ⟨.unterminated kind, Text.newlines lay⟩) (lay ++ s) []

namespace Goes

variable {s taken rest : List Char} {a : Answer}

theorem eq_append (h : Goes s a taken rest) : s = taken ++ rest := by
  cases h <;> simp

/-- What is answered stands in the text that is taken off. -/
theorem line_le (h : Goes s a taken rest) : a.line ≤ Text.newlines taken := by
  cases h <;> simp [Answer.line]

theorem taken_ne_nil (h : Goes s a taken rest) (ha : a.isEnd = false) : taken ≠ [] := by
  cases h with
  | finish => cases ha
  | token _ _ _ htext => simp [htext]
  | unexpected => simp
  | unterminated _ _ hs => simp [hs]

theorem rest_eq_nil (h : Goes s a taken rest) (ha : a.isEnd = true ∨ a.isUnclosed = true) :
    rest = [] := by
  cases h with
  | finish | unterminated => rfl
  | token _ _ ht => simp [Answer.isEnd, Answer.isUnclosed, ht] at ha
  | unexpected => simp [Answer.isEnd, Answer.isUnclosed] at ha

end Goes

namespace Cursor

/-- **What a step can do,** on every line alike. -/
theorem exists_goes (s : List Char) :
    ∃ a taken rest, Goes s a taken rest ∧
      ∀ line, next ⟨s, line⟩ = (a.lower line, ⟨rest, line + Text.newlines taken⟩) := by
  obtain ⟨lay, front, rfl, hlay, hfront⟩ := exists_front s
  -- The layout is skipped first, and what stands behind it decides.
  have hlayout (line : Nat) := next_layout front line hlay
  cases hfront with
  | nil =>
    refine ⟨_, _, _, .finish _, fun line => ?_⟩
    rw [hlayout, List.append_nil, Nat.add_comm line]
    rfl
  | @line body hbody =>
    have hlines : Text.newlines ('/' :: '/' :: body) = 0 := by
      simp [Text.newlines_cons, Layout.newlines_eq_zero hbody]
    refine ⟨_, _, _, .finish _, fun line => ?_⟩
    rw [hlayout, Text.newlines_append, hlines, Nat.add_zero, Nat.add_comm line]
    simp only [next, skipLayout, Layout.skip, Layout.skip_lineComment_end _ hbody]
    rfl
  | @comment body hbody =>
    have hlines : Text.newlines (lay ++ '/' :: '*' :: body) =
        Text.newlines lay + Text.newlines body := by simp [Text.newlines_cons]
    refine ⟨_, _, _, .unterminated .comment lay (by simp), fun line => ?_⟩
    rw [hlayout, hlines, ← Nat.add_assoc, Nat.add_comm line]
    simp only [next, skipLayout, Layout.skip, Layout.skip_comment_end _ _ hbody]
    rfl
  | @char c t hc hopen =>
    have hnewline : c ≠ '\n' := by
      rintro rfl
      rw [Text.isBlank_newline] at hc
      cases hc
    cases hread : Lexeme.read c t with
    | ok x =>
      have htoken := (Lexeme.isLexeme_of_read hread).1.ne_endOfInput
      have htext := Lexeme.text_ne_nil hread
      rw [← Lexeme.text_append_rest hread]
      refine ⟨_, _, _, .token lay x.rest htoken htext, fun line => ?_⟩
      rw [Lexeme.text_append_rest hread, hlayout, Text.newlines_append, ← Nat.add_assoc,
        Nat.add_comm line]
      simp only [next, skipLayout, Layout.skip_char _ hc hopen, hread]
      rfl
    | error f =>
      cases f with
      | unexpected d =>
        obtain ⟨rfl, -⟩ := Lexeme.read_of_unexpected hread
        have hlines : Text.newlines (lay ++ [d]) = Text.newlines lay := by
          simp [Text.newlines_cons, hnewline]
        refine ⟨_, _, _, .unexpected lay t hnewline, fun line => ?_⟩
        rw [hlayout, hlines, Nat.add_comm line]
        simp only [next, skipLayout, Layout.skip_char _ hc hopen, hread]
        rfl
      | unterminated kind =>
        have hlines : Text.newlines (lay ++ c :: t) = Text.newlines lay + Text.newlines t := by
          simp [Text.newlines_cons, hnewline]
        refine ⟨_, _, _, .unterminated kind lay (by simp), fun line => ?_⟩
        rw [hlayout, hlines, ← Nat.add_assoc, Nat.add_comm line]
        simp only [next, skipLayout, Layout.skip_char _ hc hopen, hread]
        rfl

theorem goes_next (c : Cursor) :
    ∃ a taken, Goes c.rest a taken c.next.2.rest ∧ c.next.1 = a.lower c.line ∧
      c.next.2.line = c.line + Text.newlines taken := by
  obtain ⟨a, taken, rest, hgoes, hnext⟩ := exists_goes c.rest
  have hc : c.next = (a.lower c.line, ⟨rest, c.line + Text.newlines taken⟩) := hnext c.line
  rw [hc]
  exact ⟨a, taken, hgoes, rfl, rfl⟩

theorem isEnd_or_taken (c : Cursor) :
    Answer.isEnd c.next.1 = true ∨ ∃ taken, taken ≠ [] ∧ c.rest = taken ++ c.next.2.rest := by
  obtain ⟨a, taken, hgoes, ha, -⟩ := goes_next c
  cases hend : a.isEnd with
  | true => exact .inl (by rw [ha, Answer.isEnd_lower, hend])
  | false => exact .inr ⟨taken, hgoes.taken_ne_nil hend, hgoes.eq_append⟩

/-- The line of an answer is one of those that the step goes over. -/
theorem line_next (c : Cursor) :
    c.line ≤ Answer.line c.next.1 ∧ Answer.line c.next.1 ≤ c.next.2.line := by
  obtain ⟨a, taken, hgoes, ha, hline⟩ := goes_next c
  have hle := hgoes.line_le
  rw [ha, hline, Answer.line_lower]
  omega

/-- An unexpected character is the last one that is taken off. -/
theorem exists_before_of_unexpected {c : Cursor} {d : Char} {line : Nat}
    (h : c.next.1 = .error ⟨.unexpected d, line⟩) :
    ∃ lay, c.rest = lay ++ d :: c.next.2.rest ∧ line = c.line + Text.newlines lay ∧
      c.next.2.line = line := by
  obtain ⟨a, taken, hgoes, ha, hline⟩ := goes_next c
  rw [h] at ha
  generalize hrest : c.rest = s, c.next.2.rest = rest at hgoes
  cases hgoes with
  | finish | token | unterminated => cases ha
  | @unexpected d' lay rest hd =>
    simp only [Answer.lower, Except.error.injEq, LexError.mk.injEq, LexFault.unexpected.injEq] at ha
    obtain ⟨rfl, rfl⟩ := ha
    refine ⟨lay, rfl, Nat.add_comm _ _, ?_⟩
    rw [hline, Text.newlines_append, Text.newlines_cons, if_neg hd, Text.newlines_nil]
    omega

/-! ## Many steps -/

/-- The place behind a number of answers, whatever they are. -/
def after (c : Cursor) : Nat → Cursor
  | 0 => c
  | n + 1 => (c.after n).next.2

/-- One answer after another, the first one being number 0. -/
def answer (c : Cursor) (n : Nat) : Answer := (c.after n).next.1

theorem after_add (c : Cursor) (m n : Nat) : c.after (m + n) = (c.after m).after n := by
  induction n with
  | zero => rfl
  | succ n ih => rw [Nat.add_succ, after, ih, after]

theorem answer_add (c : Cursor) (m n : Nat) : c.answer (m + n) = (c.after m).answer n := by
  rw [answer, after_add, answer]

/-- Any number of steps take text off the front and count its lines. -/
theorem exists_taken (c : Cursor) (n : Nat) :
    ∃ taken, c.rest = taken ++ (c.after n).rest ∧
      (c.after n).line = c.line + Text.newlines taken := by
  induction n with
  | zero => exact ⟨[], rfl, rfl⟩
  | succ n ih =>
    obtain ⟨taken, hrest, hline⟩ := ih
    obtain ⟨a, more, hgoes, -, hline'⟩ := goes_next (c.after n)
    refine ⟨taken ++ more, ?_, ?_⟩
    · rw [hrest, hgoes.eq_append, List.append_assoc, after]
    · rw [after, hline', hline, Text.newlines_append, Nat.add_assoc]

/-- **Progress.** Each answer but the end is paid for with a character. -/
theorem countP_answers_le (c : Cursor) (n : Nat) :
    (List.range n).countP (fun i => !(c.answer i).isEnd) + (c.after n).rest.length ≤
      c.rest.length := by
  induction n with
  | zero => simp [after]
  | succ n ih =>
    rw [List.range_succ, List.countP_append, after]
    obtain ⟨a, taken, hgoes, ha, -⟩ := goes_next (c.after n)
    have hlength := congrArg List.length hgoes.eq_append
    rw [List.length_append] at hlength
    cases hend : a.isEnd with
    | true =>
      have hcount : [n].countP (fun i => !(c.answer i).isEnd) = 0 := by simp [answer, ha, hend]
      omega
    | false =>
      have hcount : [n].countP (fun i => !(c.answer i).isEnd) = 1 := by simp [answer, ha, hend]
      have hpos := List.length_pos_iff.2 (hgoes.taken_ne_nil hend)
      omega

theorem after_nil (line n : Nat) : after ⟨[], line⟩ n = ⟨[], line⟩ := by
  induction n with
  | zero => rfl
  | succ n ih =>
    rw [after, ih]
    rfl

/-- Where the text is used up, the end is all that is answered. -/
theorem answer_nil (line n : Nat) : answer ⟨[], line⟩ n = .ok ⟨.endOfInput, line⟩ := by
  rw [answer, after_nil]
  rfl

/-- Behind the end and behind what is never closed, only the end is answered, on the last line. -/
theorem answer_behind_end {c : Cursor} {m n : Nat}
    (h : (c.answer n).isEnd = true ∨ (c.answer n).isUnclosed = true) (hm : n < m) :
    c.answer m = .ok ⟨.endOfInput, c.line + Text.newlines c.rest⟩ := by
  obtain ⟨k, rfl⟩ := Nat.exists_eq_add_of_lt hm
  obtain ⟨a, more, hgoes, ha, -⟩ := goes_next (c.after n)
  rw [answer, ha, Answer.isEnd_lower, Answer.isUnclosed_lower] at h
  -- Nothing is left behind that answer, so the place behind it stays where it is.
  have hnil : (c.after (n + 1)).rest = [] := hgoes.rest_eq_nil h
  obtain ⟨taken, hrest, hline⟩ := exists_taken c (n + 1)
  rw [hnil, List.append_nil] at hrest
  have hplace : c.after (n + 1) = ⟨[], c.line + Text.newlines c.rest⟩ := by
    rw [hrest, ← hline, ← hnil]
  rw [Nat.add_right_comm, answer_add, hplace, answer_nil]

theorem line_answer_mono (c : Cursor) {m n : Nat} (h : m ≤ n) :
    (c.answer m).line ≤ (c.answer n).line := by
  induction h with
  | refl => exact Nat.le_refl _
  | @step n _ ih =>
    calc (c.answer m).line ≤ (c.answer n).line := ih
      _ ≤ (c.after (n + 1)).line := (line_next (c.after n)).2
      _ ≤ (c.answer (n + 1)).line := (line_next (c.after (n + 1))).1

/-- A text that is moved down gives the same answers, moved down, and leaves the same text. -/
theorem next_move (s : List Char) (line k : Nat) :
    next ⟨s, line + k⟩ = (Answer.lower k (next ⟨s, line⟩).1,
      ⟨(next ⟨s, line⟩).2.rest, (next ⟨s, line⟩).2.line + k⟩) := by
  obtain ⟨a, taken, rest, -, hnext⟩ := exists_goes s
  rw [hnext, hnext, Answer.lower_lower]
  simp only [Nat.add_right_comm]

theorem after_move (s : List Char) (line k n : Nat) :
    after ⟨s, line + k⟩ n = ⟨(after ⟨s, line⟩ n).rest, (after ⟨s, line⟩ n).line + k⟩ := by
  induction n with
  | zero => rfl
  | succ n ih => rw [after, ih, next_move, after]

theorem answer_move (s : List Char) (line k n : Nat) :
    answer ⟨s, line + k⟩ n = (answer ⟨s, line⟩ n).lower k := by
  rw [answer, after_move, next_move, answer]

theorem start_ofList (s : List Char) : start (String.ofList s) = ⟨s, 1⟩ := by
  rw [start, String.toList_ofList]

/-- **Asked again and again, also behind errors, a text makes progress and ends.** Each answer is
the end or takes text off the front, so there are at most as many other answers as characters;
behind the end, and behind what is never closed, the end is answered for ever, on the last line of
the text; the lines of the answers never decrease; and behind an unexpected character the answers
are those of the text after it, moved down by the newlines in front of it. -/
theorem answers_of_source (source : String) :
    (∀ n, ((start source).answer n).isEnd = true ∨
      ∃ taken, taken ≠ [] ∧
        ((start source).after n).rest = taken ++ ((start source).after (n + 1)).rest) ∧
    (∀ n, (List.range n).countP (fun i => !((start source).answer i).isEnd) ≤
      source.toList.length) ∧
    (∀ n, ((start source).answer n).isEnd = true ∨ ((start source).answer n).isUnclosed = true →
      ∀ m, n < m →
        (start source).answer m = .ok ⟨.endOfInput, 1 + Text.newlines source.toList⟩) ∧
    (∀ m n, m ≤ n → ((start source).answer m).line ≤ ((start source).answer n).line) ∧
    ∀ n d line, (start source).answer n = .error ⟨.unexpected d, line⟩ →
      ∃ before rest, source.toList = before ++ d :: rest ∧
        ((start source).after (n + 1)).rest = rest ∧ line = 1 + Text.newlines before ∧
        ∀ m, (start source).answer (n + 1 + m) =
          ((start (String.ofList rest)).answer m).lower (Text.newlines before) := by
  refine ⟨fun n => isEnd_or_taken _, fun n => ?_, fun n h m hm => answer_behind_end h hm,
    fun m n => line_answer_mono _, fun n d line h => ?_⟩
  · exact Nat.le_trans (Nat.le_add_right _ _) (countP_answers_le (start source) n)
  · obtain ⟨taken, hrest, hline⟩ := exists_taken (start source) n
    obtain ⟨lay, hlay, hd, hplace⟩ := exists_before_of_unexpected h
    have hbefore : line = 1 + Text.newlines (taken ++ lay) := by
      rw [hd, hline, Text.newlines_append, ← Nat.add_assoc]
      rfl
    have hafter : (start source).after (n + 1) =
        ⟨((start source).after (n + 1)).rest, 1 + Text.newlines (taken ++ lay)⟩ := by
      rw [← hbefore, ← hplace]
      rfl
    refine ⟨taken ++ lay, _, ?_, rfl, hbefore, fun m => ?_⟩
    · calc source.toList = taken ++ ((start source).after n).rest := hrest
        _ = _ := by rw [hlay, List.append_assoc]; rfl
    · calc (start source).answer (n + 1 + m)
        _ = answer ⟨((start source).after (n + 1)).rest, 1 + Text.newlines (taken ++ lay)⟩ m := by
          rw [answer_add, ← hafter]
        _ = _ := by rw [answer_move, start_ofList]

/-- Behind an unexpected character a string is opened that nothing closes. -/
example : (List.range 4).map (start "a;\n 'b").answer =
    [.ok ⟨.word "a", 1⟩, .error ⟨.unexpected ';', 1⟩, .error ⟨.unterminated .string, 2⟩,
      .ok ⟨.endOfInput, 2⟩] := by rfl

end Cursor

end SchemaDiagram
