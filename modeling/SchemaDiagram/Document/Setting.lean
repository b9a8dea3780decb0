/-
Settings: the lists in brackets behind columns, table names and references. A
setting is either a reference, `ref: > users.id`, or any run of tokens up to the
next comma or closing bracket outside parentheses. A list may be empty and may
end in a comma; a run of no tokens is refused.
-/
import SchemaDiagram.Schema
import SchemaDiagram.Document.Name
import SchemaDiagram.Document.Spacing

namespace SchemaDiagram.Document

/-! ## Operators of references -/

/-- The mark that stands for a cardinality. -/
def operatorMark : Cardinality → Mark
  | .oneToOne => .minus
  | .oneToMany => .less
  | .manyToOne => .greater
  | .manyToMany => .lessGreater

def cardinalityOf? : Token → Option Cardinality
  | .mark .minus => some .oneToOne
  | .mark .less => some .oneToMany
  | .mark .greater => some .manyToOne
  | .mark .lessGreater => some .manyToMany
  | _ => none

theorem mark_of_cardinalityOf? {t : Token} {c : Cardinality} (h : cardinalityOf? t = some c) :
    .mark (operatorMark c) = t := by
  unfold cardinalityOf? at h
  split at h <;> cases h <;> rfl

def readOperator : List Located → Step Cardinality
  | [] => unexpected .operator []
  | t :: rest =>
    match cardinalityOf? t.token with
    | some c => .ok c rest
    | none => unexpected .operator (t :: rest)

theorem spells_of_readOperator {toks rest : List Located} {c : Cardinality}
    (h : readOperator toks = .ok c rest) : Spells toks [.mark (operatorMark c)] rest := by
  cases toks with
  | nil => cases h
  | cons t toks =>
    simp only [readOperator] at h
    split at h
    · rename_i hc
      cases h
      exact mark_of_cardinalityOf? hc ▸ Spells.nil.cons
    · cases h

/-! ## One setting -/

inductive Setting
  /-- A reference to a column, with its keyword as written. -/
  | reference (keyword : String) (cardinality : Cardinality) (target : Endpoint)
  | plain (tokens : List Token)
  deriving DecidableEq, Repr

namespace Setting

def tokens : Setting → List Token
  | .reference keyword c target =>
    .word keyword :: .mark .colon :: .mark (operatorMark c) :: target.tokens
  | .plain toks => toks

/-- The text kept for a setting of a column. A reference is shown in one way, however its
keyword was written. -/
def text : Setting → String
  | .reference _ c target => "ref: " ++ c.operator ++ " " ++ target.text
  | .plain toks => spacedText toks

/-- Reads tokens up to the comma or bracket that ends a setting, which stays in place. `depth`
parentheses are open; one that closes without having been opened does not count. -/
def readPlain (depth : Nat) : List Located → Step (List Token)
  | [] => .error (.unexpectedEnd .settingsClose) []
  | t :: rest =>
    match t.token with
    | .endOfInput => .error (.unexpectedEnd .settingsClose) (t :: rest)
    | .mark .comma | .mark .rightBracket =>
      if depth = 0 then .ok [] (t :: rest) else (readPlain depth rest).map (t.token :: ·)
    | .mark .leftParen => (readPlain (depth + 1) rest).map (t.token :: ·)
    | .mark .rightParen => (readPlain (depth - 1) rest).map (t.token :: ·)
    | _ => (readPlain depth rest).map (t.token :: ·)

def read (toks : List Located) : Step Setting :=
  match afterKeywordMark? "ref" .colon toks with
  | some (keyword, rest) =>
    (readOperator rest).bind fun c rest => (Endpoint.read rest).map (.reference keyword c ·)
  | none =>
    (readPlain 0 toks).bind fun run rest =>
      if run = [] then unexpected .columnSetting rest else .ok (.plain run) rest

theorem spells_of_readPlain {depth : Nat} {toks rest : List Located} {run : List Token}
    (h : readPlain depth toks = .ok run rest) : Spells toks run rest := by
  fun_induction readPlain depth toks generalizing run with
  | case1 | case2 => cases h
  | case3 | case5 => cases h; exact .nil
  | case4 depth t toks _ _ ih | case6 depth t toks _ _ ih =>
    obtain ⟨run', h', rfl⟩ := Step.map_eq_ok_iff.1 h
    exact (ih h').cons
  | case7 depth t toks _ ih | case8 depth t toks _ ih =>
    obtain ⟨run', h', rfl⟩ := Step.map_eq_ok_iff.1 h
    exact (ih h').cons
  | case9 depth t toks _ _ _ _ _ ih =>
    obtain ⟨run', h', rfl⟩ := Step.map_eq_ok_iff.1 h
    exact (ih h').cons

theorem spells_of_read {toks rest : List Located} {s : Setting} (h : read toks = .ok s rest) :
    Spells toks s.tokens rest ∧ s.tokens ≠ [] := by
  unfold read at h
  split at h
  · rename_i keyword r hk
    obtain ⟨c, r', hc, h⟩ := Step.bind_eq_ok_iff.1 h
    obtain ⟨e, he, rfl⟩ := Step.map_eq_ok_iff.1 h
    exact ⟨(spells_of_afterKeywordMark? hk).append
      ((spells_of_readOperator hc).append (Endpoint.spells_of_read he)), by simp [tokens]⟩
  · obtain ⟨run, r, hr, h⟩ := Step.bind_eq_ok_iff.1 h
    split at h
    · cases h
    · cases h
      exact ⟨spells_of_readPlain hr, ‹_›⟩

end Setting

/-! ## Lists of settings -/

structure Settings where
  items : List Setting
  trailingComma : Bool
  deriving DecidableEq, Repr

namespace Settings

/-- The tokens of settings with commas between them, and one behind them if `trailing` holds. -/
def listTokens (trailing : Bool) : List Setting → List Token
  | [] => []
  | [s] => s.tokens ++ if trailing then [.mark .comma] else []
  | s :: more => s.tokens ++ .mark .comma :: listTokens trailing more

/-- The tokens behind the opening bracket. -/
def innerTokens (ss : Settings) : List Token :=
  listTokens ss.trailingComma ss.items ++ [.mark .rightBracket]

def tokens (ss : Settings) : List Token := .mark .leftBracket :: ss.innerTokens

def push (s : Setting) (ss : Settings) : Settings := { ss with items := s :: ss.items }

theorem innerTokens_push {s : Setting} {ss : Settings}
    (h : ss.items = [] → ss.trailingComma = true) :
    (push s ss).innerTokens = s.tokens ++ .mark .comma :: ss.innerTokens := by
  obtain ⟨items, trailing⟩ := ss
  cases items with
  | nil =>
    cases trailing
    · simp at h
    · simp [push, innerTokens, listTokens]
  | cons s' more => simp [push, innerTokens, listTokens]

/-- Reads settings up to the closing bracket. `afterComma` says that a comma was read last, so
that a bracket which comes at once makes it a trailing one. -/
def readItems (afterComma : Bool) (toks : List Located) : Step Settings :=
  match afterMark? .rightBracket toks with
  | some rest => .ok ⟨[], afterComma⟩ rest
  | none =>
    match _h : Setting.read toks with
    | .error cause rest => .error cause rest
    | .ok s rest =>
      match _hc : afterMark? .comma rest with
      | some rest => (readItems true rest).map (push s)
      | none =>
        match afterMark? .rightBracket rest with
        | some rest => .ok ⟨[s], false⟩ rest
        | none => unexpected .settingsSeparator rest
termination_by toks.length
decreasing_by
  have := (Setting.spells_of_read _h).1.length_eq
  have := (spells_of_afterMark? _hc).length_eq
  simp only [List.length_singleton] at *
  omega

/-- Reads a list of settings if a bracket comes next. -/
def readOptional (toks : List Located) : Step (Option Settings) :=
  match afterMark? .leftBracket toks with
  | none => .ok none toks
  | some rest => (readItems false rest).map some

def optionalTokens : Option Settings → List Token
  | none => []
  | some ss => ss.tokens

theorem spells_of_readItems {afterComma : Bool} {toks rest : List Located} {ss : Settings}
    (h : readItems afterComma toks = .ok ss rest) :
    Spells toks ss.innerTokens rest ∧ (ss.items = [] → ss.trailingComma = afterComma) := by
  fun_induction readItems afterComma toks generalizing ss with
  | case1 afterComma toks r hr =>
    cases h
    exact ⟨by simpa [innerTokens, listTokens] using spells_of_afterMark? hr, fun _ => rfl⟩
  | case2 => cases h
  | case3 afterComma toks _ s r hs r' hc ih =>
    obtain ⟨ss', h', rfl⟩ := Step.map_eq_ok_iff.1 h
    obtain ⟨hspells, hempty⟩ := ih h'
    refine ⟨?_, fun he => by simp [push] at he⟩
    rw [innerTokens_push hempty]
    exact (Setting.spells_of_read hs).1.append ((spells_of_afterMark? hc).append hspells)
  | case4 afterComma toks _ s r hs _ r' hr =>
    cases h
    refine ⟨?_, fun he => by simp at he⟩
    simpa [innerTokens, listTokens] using
      (Setting.spells_of_read hs).1.append (spells_of_afterMark? hr)
  | case5 => cases h

theorem spells_of_readOptional {toks rest : List Located} {ss : Option Settings}
    (h : readOptional toks = .ok ss rest) : Spells toks (optionalTokens ss) rest := by
  unfold readOptional at h
  split at h
  · cases h; exact .nil
  · rename_i r hr
    obtain ⟨ss', h', rfl⟩ := Step.map_eq_ok_iff.1 h
    exact (spells_of_afterMark? hr).append (spells_of_readItems h').1

end Settings

end SchemaDiagram.Document
