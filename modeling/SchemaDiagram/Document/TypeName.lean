/-
Types of columns: a name, arguments in parentheses, and empty brackets for an
array, as in `decimal(10, 2)` or `schema.kind[]`. A type is kept as text only.
Between two commas there is at most one argument, and there may be none.
-/
import SchemaDiagram.Document.Name

namespace SchemaDiagram.Document

structure TypeName where
  name : QualifiedName
  /-- The tokens between the parentheses, if there are parentheses. -/
  arguments : Option (List Token)
  isArray : Bool
  deriving DecidableEq, Repr

namespace TypeName

/-- What may fill the place between two commas. -/
def isArgument : Token → Bool
  | .number _ | .word _ | .string _ => true
  | _ => false

/-- The text of a type holds no blanks but those inside a name or a quoted argument. -/
def text (t : TypeName) : String :=
  t.name.text ++
    (match t.arguments with
      | none => ""
      | some args => "(" ++ String.join (args.map Token.text) ++ ")") ++
    if t.isArray then "[]" else ""

def argumentTokens : Option (List Token) → List Token
  | none => []
  | some args => .mark .leftParen :: args ++ [.mark .rightParen]

def arrayTokens : Bool → List Token
  | true => [.mark .leftBracket, .mark .rightBracket]
  | false => []

def tokens (t : TypeName) : List Token :=
  t.name.tokens ++ (argumentTokens t.arguments ++ arrayTokens t.isArray)

/-- Reads arguments up to the closing parenthesis. `free` says that the place before the next
comma is not filled yet. -/
def readArguments (free : Bool) : List Located → Step (List Token)
  | [] => unexpected .typeArgument []
  | t :: rest =>
    if t.token = .mark .rightParen then .ok [] rest
    else if t.token = .mark .comma then (readArguments true rest).map (t.token :: ·)
    else if free && isArgument t.token then (readArguments false rest).map (t.token :: ·)
    else unexpected .typeArgument (t :: rest)

def readOptionalArguments (toks : List Located) : Step (Option (List Token)) :=
  match afterMark? .leftParen toks with
  | none => .ok none toks
  | some rest => (readArguments true rest).map some

/-- Two brackets with nothing between them make an array; other brackets are left alone. -/
def readArray (toks : List Located) : Step Bool :=
  match (afterMark? .leftBracket toks).bind (afterMark? .rightBracket) with
  | none => .ok false toks
  | some rest => .ok true rest

def read (toks : List Located) : Step TypeName :=
  (QualifiedName.read .columnType .columnType toks).bind fun name rest =>
    (readOptionalArguments rest).bind fun args rest =>
      (readArray rest).map fun isArray => ⟨name, args, isArray⟩

theorem spells_of_readArguments {free : Bool} {toks rest : List Located} {args : List Token}
    (h : readArguments free toks = .ok args rest) :
    Spells toks (args ++ [.mark .rightParen]) rest := by
  fun_induction readArguments free toks generalizing args with
  | case1 => cases h
  | case2 free t toks ht => cases h; exact ht ▸ Spells.nil.cons
  | case3 free t toks _ _ ih | case4 free t toks _ _ _ ih =>
    obtain ⟨args', h', rfl⟩ := Step.map_eq_ok_iff.1 h
    exact (ih h').cons
  | case5 => cases h

theorem spells_of_readOptionalArguments {toks rest : List Located} {args : Option (List Token)}
    (h : readOptionalArguments toks = .ok args rest) : Spells toks (argumentTokens args) rest := by
  unfold readOptionalArguments at h
  split at h
  · cases h; exact .nil
  · rename_i r hr
    obtain ⟨args', h', rfl⟩ := Step.map_eq_ok_iff.1 h
    exact (spells_of_afterMark? hr).append (spells_of_readArguments h')

theorem spells_of_readArray {toks rest : List Located} {isArray : Bool}
    (h : readArray toks = .ok isArray rest) : Spells toks (arrayTokens isArray) rest := by
  unfold readArray at h
  split at h
  · cases h; exact .nil
  · rename_i r hr
    cases h
    obtain ⟨r', hl, hr⟩ := Option.bind_eq_some_iff.1 hr
    exact (spells_of_afterMark? hl).append (spells_of_afterMark? hr)

theorem spells_of_read {toks rest : List Located} {t : TypeName}
    (h : read toks = .ok t rest) : Spells toks t.tokens rest := by
  obtain ⟨name, r, hn, h⟩ := Step.bind_eq_ok_iff.1 h
  obtain ⟨args, r', ha, h⟩ := Step.bind_eq_ok_iff.1 h
  obtain ⟨isArray, hb, rfl⟩ := Step.map_eq_ok_iff.1 h
  exact (QualifiedName.spells_of_read hn).append
    ((spells_of_readOptionalArguments ha).append (spells_of_readArray hb))

end TypeName

end SchemaDiagram.Document
