/-
References as a document writes them outside of tables: one behind a colon, or
any number in a block, each with two endpoints and an operator between them.
A reference may have settings, which are read and dropped, and the whole
definition may have a name, which means nothing.
-/
import SchemaDiagram.Document.Setting

namespace SchemaDiagram.Document

structure Reference where
  source : Endpoint
  cardinality : Cardinality
  target : Endpoint
  settings : Option Settings
  deriving DecidableEq, Repr

namespace Reference

def tokens (r : Reference) : List Token :=
  r.source.tokens ++ .mark (operatorMark r.cardinality) ::
    (r.target.tokens ++ Settings.optionalTokens r.settings)

def relationship (r : Reference) : Relationship :=
  ⟨r.source.table.text, r.source.field.text, r.target.table.text, r.target.field.text,
    r.cardinality⟩

def read (toks : List Located) : Step Reference :=
  (Endpoint.read toks).bind fun source rest =>
    (readOperator rest).bind fun cardinality rest =>
      (Endpoint.read rest).bind fun target rest =>
        (Settings.readOptional rest).map fun settings => ⟨source, cardinality, target, settings⟩

theorem spells_of_read {toks rest : List Located} {ref : Reference}
    (h : read toks = .ok ref rest) : Spells toks ref.tokens rest := by
  obtain ⟨source, r, hs, h⟩ := Step.bind_eq_ok_iff.1 h
  obtain ⟨c, r', hc, h⟩ := Step.bind_eq_ok_iff.1 h
  obtain ⟨target, r'', ht, h⟩ := Step.bind_eq_ok_iff.1 h
  obtain ⟨ss, hss, rfl⟩ := Step.map_eq_ok_iff.1 h
  exact (Endpoint.spells_of_read hs).append ((spells_of_readOperator hc).append
    ((Endpoint.spells_of_read ht).append (Settings.spells_of_readOptional hss)))

theorem tokens_ne_nil (r : Reference) : r.tokens ≠ [] := by
  simp [tokens, Endpoint.tokens_ne_nil]

/-- Reads references up to the brace that closes their block. -/
def readAll (toks : List Located) : Step (List Reference) :=
  match afterMark? .rightBrace toks with
  | some rest => .ok [] rest
  | none =>
    if atEnd toks then unexpected .referencesClose toks
    else
      match _h : read toks with
      | .error cause rest => .error cause rest
      | .ok r rest => (readAll rest).map (r :: ·)
termination_by toks.length
decreasing_by exact (spells_of_read _h).length_lt (tokens_ne_nil _)

theorem spells_of_readAll {toks rest : List Located} {rs : List Reference}
    (h : readAll toks = .ok rs rest) :
    Spells toks (rs.flatMap tokens ++ [.mark .rightBrace]) rest := by
  fun_induction readAll toks generalizing rs with
  | case1 toks r hr => cases h; exact spells_of_afterMark? hr
  | case2 => cases h
  | case3 => cases h
  | case4 toks _ _ ref r href ih =>
    obtain ⟨rs', h', rfl⟩ := Step.map_eq_ok_iff.1 h
    simpa using (spells_of_read href).append (ih h')

end Reference

/-! ## Definitions of references -/

inductive ReferenceBody
  | single (reference : Reference)
  | block (references : List Reference)
  deriving DecidableEq, Repr

structure ReferenceGroup where
  keyword : String
  name : Option Name
  body : ReferenceBody
  deriving DecidableEq, Repr

namespace ReferenceGroup

def references (g : ReferenceGroup) : List Reference :=
  match g.body with
  | .single r => [r]
  | .block rs => rs

def relationships (g : ReferenceGroup) : List Relationship :=
  g.references.map Reference.relationship

def bodyTokens : ReferenceBody → List Token
  | .single r => .mark .colon :: r.tokens
  | .block rs => .mark .leftBrace :: (rs.flatMap Reference.tokens ++ [.mark .rightBrace])

def nameTokens : Option Name → List Token
  | none => []
  | some n => [n.token]

def tokens (g : ReferenceGroup) : List Token :=
  .word g.keyword :: (nameTokens g.name ++ bodyTokens g.body)

/-- Reads a name if one comes next. -/
def readName : List Located → Step (Option Name)
  | [] => .ok none []
  | t :: rest =>
    match Name.ofToken? t.token with
    | some n => .ok (some n) rest
    | none => .ok none (t :: rest)

def readBody (toks : List Located) : Step ReferenceBody :=
  match afterMark? .colon toks with
  | some rest => (Reference.read rest).map .single
  | none =>
    match afterMark? .leftBrace toks with
    | some rest => (Reference.readAll rest).map .block
    | none => unexpected .referencesOpen toks

/-- Reads a definition of references behind its keyword. -/
def read (keyword : String) (toks : List Located) : Step ReferenceGroup :=
  (readName toks).bind fun name rest => (readBody rest).map (⟨keyword, name, ·⟩)

theorem spells_of_readName {toks rest : List Located} {name : Option Name}
    (h : readName toks = .ok name rest) : Spells toks (nameTokens name) rest := by
  cases toks with
  | nil => cases h; exact .nil
  | cons t toks =>
    simp only [readName] at h
    split at h
    · rename_i hn
      cases h
      exact Spells.nil.cons_of_eq (Name.token_of_ofToken? hn).symm
    · cases h; exact .nil

theorem spells_of_readBody {toks rest : List Located} {body : ReferenceBody}
    (h : readBody toks = .ok body rest) : Spells toks (bodyTokens body) rest := by
  unfold readBody at h
  repeat' split at h
  · obtain ⟨r, hr, rfl⟩ := Step.map_eq_ok_iff.1 h
    exact (spells_of_afterMark? ‹_›).append (Reference.spells_of_read hr)
  · obtain ⟨rs, hr, rfl⟩ := Step.map_eq_ok_iff.1 h
    exact (spells_of_afterMark? ‹_›).append (Reference.spells_of_readAll hr)
  · cases h

theorem spells_of_read {keyword : String} {t : Located} {toks rest : List Located}
    {g : ReferenceGroup} (ht : t.token = .word keyword) (h : read keyword toks = .ok g rest) :
    Spells (t :: toks) g.tokens rest := by
  obtain ⟨name, r, hn, h⟩ := Step.bind_eq_ok_iff.1 h
  obtain ⟨body, hb, rfl⟩ := Step.map_eq_ok_iff.1 h
  exact ((spells_of_readName hn).append (spells_of_readBody hb)).cons_of_eq ht

end ReferenceGroup

end SchemaDiagram.Document
