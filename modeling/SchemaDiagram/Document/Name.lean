/-
Names as a document writes them: single names, names joined by dots, and the
endpoints of references. What a name means is its text; quotes only allow more
characters in it and keep it from being read as a keyword. The text of a joined
name is its parts with dots between, so `"a.b"` and `a.b` name the same table.
-/
import SchemaDiagram.Document.Step

namespace SchemaDiagram.Document

/-! ## Single names -/

inductive Name
  | bare (text : String)
  | quoted (text : String)
  deriving DecidableEq, Repr

namespace Name

def text : Name → String
  | .bare s => s
  | .quoted s => s

def token : Name → Token
  | .bare s => .word s
  | .quoted s => .quoted s

def ofToken? : Token → Option Name
  | .word s => some (.bare s)
  | .quoted s => some (.quoted s)
  | _ => none

theorem ofToken?_token (n : Name) : ofToken? n.token = some n := by cases n <;> rfl

theorem token_of_ofToken? {t : Token} {n : Name} (h : ofToken? t = some n) : n.token = t := by
  cases t <;> cases h <;> rfl

def read (expected : Expected) : List Located → Step Name
  | [] => unexpected expected []
  | t :: rest =>
    match ofToken? t.token with
    | some n => .ok n rest
    | none => unexpected expected (t :: rest)

theorem spells_of_read {expected : Expected} {toks rest : List Located} {n : Name}
    (h : read expected toks = .ok n rest) : Spells toks [n.token] rest := by
  cases toks with
  | nil => cases h
  | cons t toks =>
    simp only [read] at h
    split at h
    · rename_i hn
      cases h
      exact token_of_ofToken? hn ▸ Spells.nil.cons
    · cases h

end Name

/-! ## Names joined by dots -/

structure QualifiedName where
  first : Name
  more : List Name
  deriving DecidableEq, Repr

namespace QualifiedName

def text (q : QualifiedName) : String := ".".intercalate (q.first.text :: q.more.map Name.text)

/-- The tokens of further names, each after a dot. -/
def moreTokens (more : List Name) : List Token := more.flatMap fun n => [.mark .dot, n.token]

def tokens (q : QualifiedName) : List Token := q.first.token :: moreTokens q.more

/-- Reads on as long as dots follow; after a dot there must be a name. -/
def readMore (expected : Expected) : List Located → Step (List Name)
  | [] => .ok [] []
  | d :: toks =>
    if d.token = .mark .dot then
      match toks with
      | [] => unexpected expected []
      | t :: rest =>
        match Name.ofToken? t.token with
        | some n => (readMore expected rest).map (n :: ·)
        | none => unexpected expected (t :: rest)
    else .ok [] (d :: toks)

/-- Reads a joined name. The two expectations are for its first name and for the others. -/
def read (first more : Expected) (toks : List Located) : Step QualifiedName :=
  (Name.read first toks).bind fun n rest => (readMore more rest).map (⟨n, ·⟩)

theorem spells_of_readMore {expected : Expected} {toks rest : List Located} {ns : List Name}
    (h : readMore expected toks = .ok ns rest) : Spells toks (moreTokens ns) rest := by
  fun_induction readMore expected toks generalizing ns with
  | case1 => cases h; exact .nil
  | case2 => cases h
  | case3 d hd t toks n hn ih =>
    obtain ⟨ns', h', rfl⟩ := Step.map_eq_ok_iff.1 h
    have := ((ih h').cons (t := t)).cons (t := d)
    rw [hd, ← Name.token_of_ofToken? hn] at this
    exact this
  | case4 => cases h
  | case5 => cases h; exact .nil

theorem spells_of_read {first more : Expected} {toks rest : List Located} {q : QualifiedName}
    (h : read first more toks = .ok q rest) : Spells toks q.tokens rest := by
  obtain ⟨n, r, hn, h⟩ := Step.bind_eq_ok_iff.1 h
  obtain ⟨ns, hns, rfl⟩ := Step.map_eq_ok_iff.1 h
  exact (Name.spells_of_read hn).append (spells_of_readMore hns)

end QualifiedName

/-! ## Endpoints of references -/

/-- A column of a table: the last of two or more joined names is the column. -/
structure Endpoint where
  table : QualifiedName
  field : Name
  deriving DecidableEq, Repr

namespace Endpoint

def tokens (e : Endpoint) : List Token := e.table.tokens ++ [.mark .dot, e.field.token]

def text (e : Endpoint) : String := e.table.text ++ "." ++ e.field.text

def ofName? (q : QualifiedName) : Option Endpoint :=
  q.more.getLast?.map fun field => ⟨⟨q.first, q.more.dropLast⟩, field⟩

/-- Reads an endpoint. A single name is refused, after it has been read. -/
def read (toks : List Located) : Step Endpoint :=
  (QualifiedName.read .tableName .columnName toks).bind fun q rest =>
    match ofName? q with
    | some e => .ok e rest
    | none => .error (.invalidEndpoint q.text (lineOf toks)) rest

theorem tokens_of_ofName? {q : QualifiedName} {e : Endpoint} (h : ofName? q = some e) :
    e.tokens = q.tokens := by
  obtain ⟨field, hl, rfl⟩ := Option.map_eq_some_iff.1 h
  obtain ⟨first, more⟩ := q
  obtain ⟨more, rfl⟩ := List.getLast?_eq_some_iff.1 hl
  simp [tokens, QualifiedName.tokens, QualifiedName.moreTokens]

theorem spells_of_read {toks rest : List Located} {e : Endpoint}
    (h : read toks = .ok e rest) : Spells toks e.tokens rest := by
  obtain ⟨q, r, hq, h⟩ := Step.bind_eq_ok_iff.1 h
  split at h
  · rename_i he
    cases h
    exact tokens_of_ofName? he ▸ QualifiedName.spells_of_read hq
  · cases h

theorem tokens_ne_nil (e : Endpoint) : e.tokens ≠ [] := by simp [tokens]

end Endpoint

end SchemaDiagram.Document
