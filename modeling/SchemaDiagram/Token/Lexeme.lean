/-
Lexemes: the written form of one token. A lexeme is cut off the front of a
text as long as its kind allows, and its token is what the cut characters
stand for: the escapes of a quoted text are resolved, a text in three quotes is
trimmed, and everything else stands for itself. The characters of a lexeme are
kept, so that the lines it covers can be counted.
-/
import SchemaDiagram.Text.Blank
import SchemaDiagram.Text.Name
import SchemaDiagram.Token

namespace SchemaDiagram

/-- A lexeme at the front of a text and the text after it. -/
structure Lexeme where
  token : Token
  text : List Char
  rest : List Char
  deriving DecidableEq, Repr

/-- The kinds of text that need a closing mark. -/
inductive Enclosure
  | string
  | comment
  | expression
  deriving DecidableEq, Repr

/-- Why no lexeme could be read. -/
inductive LexFault
  | unexpected (c : Char)
  | unterminated (kind : Enclosure)
  deriving DecidableEq, Repr

namespace Lexeme

/-! ## Texts between quotes -/

/-- Cuts a text at the first closing mark `quote` that no backslash stands before. A backslash
takes the next character along, whatever it is. -/
def cutQuoted (quote : Char) : List Char → Option (List Char × List Char)
  | [] => none
  | c :: s =>
    if c = quote then some ([], s)
    else if c = '\\' then
      match s with
      | [] => none
      | d :: s' => (cutQuoted quote s').map fun (body, rest) => (c :: d :: body, rest)
    else (cutQuoted quote s).map fun (body, rest) => (c :: body, rest)

/-- What a backslash and a character stand for. -/
def escaped : Char → Char
  | 'n' => '\n'
  | 't' => '\t'
  | c => c

def unescape : List Char → List Char
  | '\\' :: c :: s => escaped c :: unescape s
  | c :: s => c :: unescape s
  | [] => []

/-- Cuts a text at the first three quotes in a row. -/
def cutTriple : List Char → Option (List Char × List Char)
  | '\'' :: '\'' :: '\'' :: s => some ([], s)
  | c :: s => (cutTriple s).map fun (body, rest) => (c :: body, rest)
  | [] => none

/-- Cuts a text at the first backtick. -/
def cutExpression (s : List Char) : Option (List Char × List Char) :=
  match s.dropWhile (· ≠ '\x60') with
  | [] => none
  | _ :: rest => some (s.takeWhile (· ≠ '\x60'), rest)

/-! ## Reading one lexeme

Each reader is given the text after the character that told which kind of lexeme comes. -/

/-- A name in double quotes. -/
def quotedName (s : List Char) : Except LexFault Lexeme :=
  match cutQuoted '"' s with
  | none => .error (.unterminated .string)
  | some (body, rest) =>
    .ok ⟨.quoted (String.ofList (unescape body)), '"' :: body ++ ['"'], rest⟩

/-- A text in single quotes. Two quotes are the empty text unless a third one follows. -/
def string : List Char → Except LexFault Lexeme
  | '\'' :: '\'' :: s =>
    match cutTriple s with
    | none => .error (.unterminated .string)
    | some (body, rest) =>
      .ok ⟨.string (String.ofList (Text.trimChars body)),
        '\'' :: '\'' :: '\'' :: body ++ ['\'', '\'', '\''], rest⟩
  | '\'' :: s => .ok ⟨.string "", ['\'', '\''], s⟩
  | s =>
    match cutQuoted '\'' s with
    | none => .error (.unterminated .string)
    | some (body, rest) =>
      .ok ⟨.string (String.ofList (unescape body)), '\'' :: body ++ ['\''], rest⟩

def expression (s : List Char) : Except LexFault Lexeme :=
  match cutExpression s with
  | none => .error (.unterminated .expression)
  | some (body, rest) =>
    .ok ⟨.expression (String.ofList body), '\x60' :: body ++ ['\x60'], rest⟩

/-- A number sign with the letters and digits after it, of which there may be none. -/
def color (s : List Char) : Lexeme :=
  let text := '#' :: s.takeWhile Char.isAlphanum
  ⟨.color (String.ofList text), text, s.dropWhile Char.isAlphanum⟩

/-- A number: digits with at most one dot, which may also end it. -/
def number (first : Char) (s : List Char) : Lexeme :=
  let whole := first :: s.takeWhile Char.isDigit
  match s.dropWhile Char.isDigit with
  | '.' :: t =>
    let text := whole ++ '.' :: t.takeWhile Char.isDigit
    ⟨.number (String.ofList text), text, t.dropWhile Char.isDigit⟩
  | t => ⟨.number (String.ofList whole), whole, t⟩

/-- A bare name. -/
def word (first : Char) (s : List Char) : Lexeme :=
  let text := first :: s.takeWhile Text.isNameChar
  ⟨.word (String.ofList text), text, s.dropWhile Text.isNameChar⟩

/-- A mark that begins with `<`; the longer one wins. -/
def angle : List Char → Lexeme
  | '>' :: s => ⟨.mark .lessGreater, ['<', '>'], s⟩
  | s => ⟨.mark .less, ['<'], s⟩

/-- The lexeme that begins with the character `c` before the text `s`. -/
def read (c : Char) (s : List Char) : Except LexFault Lexeme :=
  match Mark.ofChar? c with
  | some m => .ok ⟨.mark m, [c], s⟩
  | none =>
    if c = '<' then .ok (angle s)
    else if c = '"' then quotedName s
    else if c = '\'' then string s
    else if c = '\x60' then expression s
    else if c = '#' then .ok (color s)
    else if c.isDigit then .ok (number c s)
    else if Text.isNameStart c then .ok (word c s)
    else .error (.unexpected c)

/-! ## A lexeme and what follows it make up the text -/

theorem eq_of_cutQuoted {quote : Char} {s body rest : List Char}
    (h : cutQuoted quote s = some (body, rest)) : s = body ++ quote :: rest := by
  fun_induction cutQuoted quote s generalizing body with
  | case1 => cases h
  | case2 => cases h; simp_all
  | case3 => cases h
  | case4 d s' _ ih =>
    obtain ⟨⟨b, r⟩, hb, he⟩ := Option.map_eq_some_iff.1 h
    cases he
    simp [ih hb]
  | case5 c s _ _ ih =>
    obtain ⟨⟨b, r⟩, hb, he⟩ := Option.map_eq_some_iff.1 h
    cases he
    simp [ih hb]

theorem eq_of_cutTriple {s body rest : List Char} (h : cutTriple s = some (body, rest)) :
    s = body ++ '\'' :: '\'' :: '\'' :: rest := by
  fun_induction cutTriple s generalizing body with
  | case1 => cases h; rfl
  | case2 c s _ ih =>
    obtain ⟨⟨b, r⟩, hb, he⟩ := Option.map_eq_some_iff.1 h
    cases he
    simp [ih hb]
  | case3 => cases h

theorem eq_of_cutExpression {s body rest : List Char}
    (h : cutExpression s = some (body, rest)) : s = body ++ '\x60' :: rest := by
  unfold cutExpression at h
  split at h
  · cases h
  · rename_i d t hd
    cases h
    have hc : d = '\x60' := by
      have := List.head?_dropWhile_not (fun x => decide (x ≠ '\x60')) s
      rw [hd] at this
      simpa using this
    conv => lhs; rw [← List.takeWhile_append_dropWhile (p := fun x => decide (x ≠ '\x60')) (l := s)]
    rw [hd, hc]

theorem text_append_rest {c : Char} {s : List Char} {x : Lexeme} (h : read c s = .ok x) :
    x.text ++ x.rest = c :: s := by
  unfold read at h
  repeat' split at h
  · cases h; rfl
  · cases h; unfold angle; split <;> simp_all
  · unfold quotedName at h
    split at h
    · cases h
    · cases h; simp_all [eq_of_cutQuoted ‹_›]
  · unfold string at h
    repeat' split at h
    all_goals cases h
    · simp_all [eq_of_cutTriple ‹_›]
    · simp_all
    · simp_all [eq_of_cutQuoted ‹_›]
  · unfold expression at h
    split at h
    · cases h
    · cases h; simp_all [eq_of_cutExpression ‹_›]
  · cases h; simp_all [color]
  · cases h
    unfold number
    split
    · rename_i t ht
      have h₁ := List.takeWhile_append_dropWhile (p := Char.isDigit) (l := s)
      rw [ht] at h₁
      conv => rhs; rw [← h₁, ← List.takeWhile_append_dropWhile (p := Char.isDigit) (l := t)]
      simp
    · simp
  · cases h; simp [word]
  · cases h

theorem text_ne_nil {c : Char} {s : List Char} {x : Lexeme} (h : read c s = .ok x) :
    x.text ≠ [] := by
  unfold read at h
  repeat' split at h
  · cases h; simp
  · cases h; unfold angle; split <;> simp
  · unfold quotedName at h
    split at h
    · cases h
    · cases h; simp
  · unfold string at h
    repeat' split at h
    all_goals cases h
    all_goals simp
  · unfold expression at h
    split at h
    · cases h
    · cases h; simp
  · cases h; simp [color]
  · cases h; unfold number; split <;> simp
  · cases h; simp [word]
  · cases h

/-- A lexeme takes at least one character. -/
theorem length_rest_read {c : Char} {s : List Char} {x : Lexeme} (h : read c s = .ok x) :
    x.rest.length ≤ s.length := by
  have hlen := congrArg List.length (text_append_rest h)
  have hpos := List.length_pos_iff.2 (text_ne_nil h)
  simp only [List.length_append, List.length_cons] at hlen
  omega

end Lexeme

end SchemaDiagram
