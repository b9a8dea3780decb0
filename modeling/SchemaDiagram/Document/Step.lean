/-
Steps of reading a document. A step reads one phrase off the front of the
tokens. It gives what it read, or the cause why it stopped, and in both cases
the tokens that are left: reading can go on there even after an error.

The law of a successful step is `Spells`: the tokens it was given are the ones
that the phrase is written with, followed by the ones it left.
-/
import SchemaDiagram.Document.Error
import SchemaDiagram.Text.Case

namespace SchemaDiagram.Document

inductive Step (α : Type)
  | ok (value : α) (rest : List Located)
  | error (cause : ParseError) (rest : List Located)
  deriving DecidableEq, Repr

namespace Step

variable {α β : Type}

def map (f : α → β) : Step α → Step β
  | .ok a rest => .ok (f a) rest
  | .error e rest => .error e rest

/-- Goes on with the tokens that a successful step left. -/
def bind (s : Step α) (f : α → List Located → Step β) : Step β :=
  match s with
  | .ok a rest => f a rest
  | .error e rest => .error e rest

/-- The tokens left, whether the step succeeded or not. -/
def rest : Step α → List Located
  | .ok _ rest => rest
  | .error _ rest => rest

@[simp] theorem map_eq_ok_iff {f : α → β} {s : Step α} {b : β} {r : List Located} :
    s.map f = .ok b r ↔ ∃ a, s = .ok a r ∧ f a = b := by
  cases s <;> simp [map]; grind

@[simp] theorem bind_eq_ok_iff {s : Step α} {f : α → List Located → Step β} {b : β}
    {r : List Located} : s.bind f = .ok b r ↔ ∃ a r', s = .ok a r' ∧ f a r' = .ok b r := by
  cases s with
  | ok a rest => exact ⟨fun h => ⟨a, rest, rfl, h⟩, by rintro ⟨_, _, ⟨⟩, h⟩; exact h⟩
  | error e rest => simp [bind]

end Step

/-! ## Looking at the next token -/

/-- Nothing is left to read: the tokens are used up but for the end of the input. -/
def atEnd : List Located → Bool
  | [] => true
  | t :: _ => t.token == .endOfInput

/-- The error of meeting the next token where something else has to stand. -/
def ParseError.here (expected : Expected) : List Located → ParseError
  | [] => .unexpectedEnd expected
  | t :: _ =>
    if t.token = .endOfInput then .unexpectedEnd expected
    else .unexpected t.token expected t.line

/-- Stops in front of the next token. -/
def unexpected {α : Type} (expected : Expected) (toks : List Located) : Step α :=
  .error (.here expected toks) toks

/-- The line of the next token. -/
def lineOf : List Located → Nat
  | [] => 1
  | t :: _ => t.line

/-- The tokens after a mark, if that mark comes next. -/
def afterMark? (m : Mark) : List Located → Option (List Located)
  | [] => none
  | t :: rest => if t.token = .mark m then some rest else none

/-- A keyword as written and the tokens after it, if it comes next. Keywords are bare words, in
any case; a name in quotes is never one. -/
def afterKeyword? (keyword : String) : List Located → Option (String × List Located)
  | [] => none
  | t :: rest =>
    match t.token with
    | .word s => if Text.sameWord s keyword then some (s, rest) else none
    | _ => none

/-- A keyword as written and the tokens after the mark that directly follows it, if both come
next. -/
def afterKeywordMark? (keyword : String) (m : Mark) (toks : List Located) :
    Option (String × List Located) :=
  match afterKeyword? keyword toks with
  | none => none
  | some (s, rest) => (afterMark? m rest).map (s, ·)

/-! ## What a step has read -/

/-- Tokens `toks` begin with the tokens `written` and go on with `rest`. -/
def Spells (toks : List Located) (written : List Token) (rest : List Located) : Prop :=
  ∃ front, toks = front ++ rest ∧ front.map Located.token = written

namespace Spells

variable {a b c : List Located} {x y : List Token}

theorem nil : Spells a [] a := ⟨[], rfl, rfl⟩

theorem cons {t : Located} (h : Spells a x b) : Spells (t :: a) (t.token :: x) b := by
  obtain ⟨front, rfl, rfl⟩ := h
  exact ⟨t :: front, rfl, rfl⟩

theorem cons_of_eq {t : Located} {k : Token} (ht : t.token = k) (h : Spells a x b) :
    Spells (t :: a) (k :: x) b := ht ▸ h.cons

theorem append (h : Spells a x b) (h' : Spells b y c) : Spells a (x ++ y) c := by
  obtain ⟨front, rfl, rfl⟩ := h
  obtain ⟨front', rfl, rfl⟩ := h'
  exact ⟨front ++ front', by simp, by simp⟩

theorem length_eq (h : Spells a x b) : a.length = x.length + b.length := by
  obtain ⟨front, rfl, rfl⟩ := h
  simp

/-- A phrase of at least one token leaves fewer tokens. -/
theorem length_lt (h : Spells a x b) (hx : x ≠ []) : b.length < a.length := by
  have := h.length_eq
  have := List.length_pos_iff.2 hx
  omega

end Spells

theorem spells_of_afterMark? {m : Mark} {toks rest : List Located}
    (h : afterMark? m toks = some rest) : Spells toks [.mark m] rest := by
  cases toks with
  | nil => cases h
  | cons t toks =>
    simp only [afterMark?] at h
    split at h
    · rename_i ht
      cases h
      exact ht ▸ Spells.nil.cons
    · cases h

theorem spells_of_afterKeyword? {keyword s : String} {toks rest : List Located}
    (h : afterKeyword? keyword toks = some (s, rest)) : Spells toks [.word s] rest := by
  cases toks with
  | nil => cases h
  | cons t toks =>
    simp only [afterKeyword?] at h
    split at h
    · rename_i ht
      split at h
      · cases h
        exact ht ▸ Spells.nil.cons
      · cases h
    · cases h

theorem spells_of_afterKeywordMark? {keyword s : String} {m : Mark} {toks rest : List Located}
    (h : afterKeywordMark? keyword m toks = some (s, rest)) :
    Spells toks [.word s, .mark m] rest := by
  simp only [afterKeywordMark?] at h
  split at h
  · cases h
  · rename_i hk
    obtain ⟨r, hm, he⟩ := Option.map_eq_some_iff.1 h
    cases he
    exact (spells_of_afterKeyword? hk).append (spells_of_afterMark? hm)

end SchemaDiagram.Document
