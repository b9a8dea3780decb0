/-
What readers do about the end of the input: it is the last token of a text, and
no reader looks behind it (`readFrom_before`).

A reader of a phrase never takes it, whether it succeeds or fails (`KeepsEnd`);
being local, such a reader answers alike whatever stands behind the end. The one
reader that does take the end is that of a block, which fails with it, and right
there (`StaysWithin`).
-/
import SchemaDiagram.Proofs.Failures

namespace SchemaDiagram.Document

variable {α β : Type} {toks rest : List Located}

/-! ## Tokens up to an end of the input -/

/-- The last one of the tokens is the end of the input. -/
def EndsInput (toks : List Located) : Prop :=
  ∃ front e, toks = front ++ [e] ∧ e.token = .endOfInput

namespace EndsInput

theorem ne_nil (h : EndsInput toks) : toks ≠ [] := by
  obtain ⟨front, e, rfl, -⟩ := h
  simp

theorem of_suffix (h : EndsInput toks) (hrest : rest <:+ toks) : rest = [] ∨ EndsInput rest := by
  obtain ⟨front, e, rfl, he⟩ := h
  obtain rfl | ⟨front', rfl, -⟩ := List.suffix_concat_iff.1 hrest
  · exact .inl rfl
  · exact .inr ⟨front', e, rfl, he⟩

/-- A phrase in front of which no end of the input is written leaves the end in place. -/
theorem of_spells {x : List Token} (h : EndsInput toks) (hspells : Spells toks x rest)
    (hx : .endOfInput ∉ x) : EndsInput rest := by
  obtain ⟨front, rfl, rfl⟩ := hspells
  obtain rfl | hrest := h.of_suffix ⟨front, rfl⟩
  · obtain ⟨front', e, hfront, he⟩ := h
    rw [List.append_nil] at hfront
    exact absurd (List.mem_map.2 ⟨e, by simp [hfront], he⟩) hx
  · exact hrest

theorem tail {t : Located} (h : EndsInput (t :: toks)) (ht : t.token ≠ .endOfInput) :
    EndsInput toks := h.of_spells Spells.nil.cons (by simpa using ht.symm)

end EndsInput

/-! ## Phrases leave the end in place -/

/-- The reader leaves the end of the input in place, also where it fails. -/
def KeepsEnd (read : List Located → Step α) : Prop :=
  ∀ toks, EndsInput toks → EndsInput (read toks).rest

namespace KeepsEnd

variable {f : List Located → Step α} {g : α → List Located → Step β}

theorem of_error {cause : ParseError} (hf : KeepsEnd f) (h : EndsInput toks)
    (he : f toks = .error cause rest) : EndsInput rest := by
  have hrest := hf toks h
  rwa [he] at hrest

theorem of_ok {a : α} (hf : KeepsEnd f) (h : EndsInput toks) (ha : f toks = .ok a rest) :
    EndsInput rest := by
  have hrest := hf toks h
  rwa [ha] at hrest

theorem map (k : α → β) (hf : KeepsEnd f) : KeepsEnd fun toks => (f toks).map k := by
  intro toks h
  rw [Step.rest_map]
  exact hf toks h

theorem bind (hf : KeepsEnd f) (hg : ∀ a, KeepsEnd (g a)) :
    KeepsEnd fun toks => (f toks).bind g := by
  intro toks h
  show EndsInput ((f toks).bind g).rest
  cases hstep : f toks with
  | ok a rest => exact hg a rest (hf.of_ok h hstep)
  | error cause rest => exact hf.of_error h hstep

theorem done (a : α) : KeepsEnd (.ok a) := fun _ h => h

theorem unexpected (expected : Expected) : KeepsEnd (Document.unexpected (α := α) expected) :=
  fun _ h => h

/-- A mark tells how the reader goes on. -/
theorem of_afterMark? {read f g : List Located → Step α} (m : Mark)
    (hread : ∀ toks, read toks =
      match afterMark? m toks with
      | some rest => f rest
      | none => g toks)
    (hf : KeepsEnd f) (hg : KeepsEnd g) : KeepsEnd read := by
  intro toks h
  rw [hread]
  cases hm : afterMark? m toks with
  | none => exact hg toks h
  | some rest => exact hf rest (h.of_spells (spells_of_afterMark? hm) (by simp))

/-- The next token alone tells whether it is taken, and an end of the input is not. -/
theorem of_token {read g : List Located → Step α} (f : Token → Option β) (k : β → α)
    (hg : KeepsEnd g) (hsome : ∀ t r b, f t.token = some b → read (t :: r) = .ok (k b) r)
    (hnone : ∀ t r, f t.token = none → read (t :: r) = g (t :: r))
    (hend : f .endOfInput = none) : KeepsEnd read := by
  intro toks h
  cases toks with
  | nil => exact absurd rfl h.ne_nil
  | cons t toks =>
    cases ht : f t.token with
    | none =>
      rw [hnone t toks ht]
      exact hg _ h
    | some b =>
      have hinput : t.token ≠ .endOfInput := by
        intro he
        rw [he, hend] at ht
        cases ht
      rw [hsome t toks b ht]
      exact h.tail hinput

end KeepsEnd

theorem Name.keepsEnd_read (expected : Expected) : KeepsEnd (read expected) :=
  .of_token ofToken? id (.unexpected expected) (fun t r n hn => by simp only [read, hn, id])
    (fun t r hn => by simp only [read, hn]) rfl

namespace QualifiedName

theorem keepsEnd_readMore (expected : Expected) : KeepsEnd (readMore expected) := by
  intro toks h
  fun_induction readMore expected toks with
  | case1 | case5 => exact h
  | case2 d hd => exact h.tail (by simp [hd])
  | case3 d hd t toks n hn ih =>
    have hmore := (h.tail (by simp [hd])).tail (by simp [← Name.token_of_ofToken? hn])
    rw [Step.rest_map]
    exact ih hmore
  | case4 d hd => exact h.tail (by simp [hd])

theorem keepsEnd_read (first more : Expected) : KeepsEnd (read first more) :=
  (Name.keepsEnd_read first).bind fun _ => (keepsEnd_readMore more).map _

end QualifiedName

theorem Endpoint.keepsEnd_read : KeepsEnd read := by
  intro toks h
  refine KeepsEnd.bind (QualifiedName.keepsEnd_read _ _)
    (g := ofRead (lineOf toks)) (fun q rest h => ?_) toks h
  unfold ofRead
  cases ofName? q <;> exact h

namespace TypeName

theorem keepsEnd_readArguments (free : Bool) : KeepsEnd (readArguments free) := by
  intro toks h
  fun_induction readArguments free toks with
  | case1 | case5 => exact h
  | case2 free t toks ht => exact h.tail (by simp [ht])
  | case3 free t toks _ ht ih =>
    rw [Step.rest_map]
    exact ih (h.tail (by simp [ht]))
  | case4 free t toks _ _ ht ih =>
    have harg : t.token ≠ .endOfInput := by
      intro he
      simp [he, isArgument] at ht
    rw [Step.rest_map]
    exact ih (h.tail harg)

theorem keepsEnd_readArray : KeepsEnd readArray := by
  intro toks h
  cases hread : readArray toks with
  | ok isArray rest =>
    have harray : .endOfInput ∉ arrayTokens isArray := by cases isArray <;> simp [arrayTokens]
    exact h.of_spells (spells_of_readArray hread) harray
  | error cause rest =>
    unfold readArray at hread
    split at hread <;> cases hread

theorem keepsEnd_readOptionalArguments : KeepsEnd readOptionalArguments := by
  refine .of_afterMark? .leftParen (fun toks => ?_) ((keepsEnd_readArguments true).map some)
    (.done none)
  rw [readOptionalArguments]
  split <;> rename_i h <;> rw [h]

theorem keepsEnd_read : KeepsEnd read :=
  (QualifiedName.keepsEnd_read _ _).bind fun _ =>
    keepsEnd_readOptionalArguments.bind fun _ => keepsEnd_readArray.map _

end TypeName

theorem keepsEnd_readOperator : KeepsEnd readOperator :=
  .of_token cardinalityOf? id (.unexpected .operator)
    (fun t r c hc => by simp only [readOperator, hc, id])
    (fun t r hc => by simp only [readOperator, hc]) rfl

namespace Setting

theorem keepsEnd_readPlain (depth : Nat) : KeepsEnd (readPlain depth) := by
  intro toks h
  induction toks generalizing depth with
  | nil => exact absurd rfl h.ne_nil
  | cons t toks ih =>
    by_cases hi : t.token = .endOfInput
    · simp only [readPlain, hi]
      exact h
    by_cases hclose : EndsSetting t.token ∧ depth = 0
    · obtain ⟨hclose, rfl⟩ := hclose
      obtain ht | ht := hclose
      all_goals
        simp only [readPlain, ht, if_true]
        exact h
    · rw [readPlain_cons (fun ht hd => hclose ⟨ht, hd⟩) hi, Step.rest_map]
      exact ih _ (h.tail hi)

theorem keepsEnd_read : KeepsEnd read := by
  intro toks h
  unfold read
  split
  · rename_i hk
    have hrest := h.of_spells (spells_of_afterKeywordMark? hk) (by simp)
    exact keepsEnd_readOperator.bind (fun c => Endpoint.keepsEnd_read.map _) _ hrest
  · refine (keepsEnd_readPlain 0).bind (fun run rest h => ?_) toks h
    split <;> exact h

end Setting

namespace Settings

theorem keepsEnd_readItems (afterComma : Bool) : KeepsEnd (readItems afterComma) := by
  intro toks h
  fun_induction readItems afterComma toks with
  | case1 afterComma toks rest hr => exact h.of_spells (spells_of_afterMark? hr) (by simp)
  | case2 afterComma toks _ cause rest hs => exact Setting.keepsEnd_read.of_error h hs
  | case3 afterComma toks _ s r hs rest hc ih =>
    have hbehind := Setting.keepsEnd_read.of_ok h hs
    rw [Step.rest_map]
    exact ih (hbehind.of_spells (spells_of_afterMark? hc) (by simp))
  | case4 afterComma toks _ s r hs _ rest hr =>
    have hbehind := Setting.keepsEnd_read.of_ok h hs
    exact hbehind.of_spells (spells_of_afterMark? hr) (by simp)
  | case5 afterComma toks _ s r hs => exact Setting.keepsEnd_read.of_ok h hs

theorem keepsEnd_readOptional : KeepsEnd readOptional := by
  refine .of_afterMark? .leftBracket (fun toks => ?_) ((keepsEnd_readItems false).map some)
    (.done none)
  rw [readOptional]
  split <;> rename_i h <;> rw [h]

end Settings

theorem ColumnLine.keepsEnd_read : KeepsEnd read :=
  (Name.keepsEnd_read _).bind fun _ =>
    TypeName.keepsEnd_read.bind fun _ => Settings.keepsEnd_readOptional.map _

theorem keepsEnd_readNoteText : KeepsEnd readNoteText := by
  intro toks h
  cases hread : readNoteText toks with
  | ok s rest => exact h.of_spells (spells_of_readNoteText hread) (by simp)
  | error cause rest =>
    cases toks with
    | nil => exact absurd rfl h.ne_nil
    | cons t toks =>
      simp only [readNoteText] at hread
      split at hread <;> cases hread
      exact h

namespace TableHead

theorem keepsEnd_readShortName : KeepsEnd readShortName := by
  intro toks h
  unfold readShortName
  split
  · exact h
  · rename_i hk
    have hrest := h.of_spells (spells_of_afterKeyword? hk) (by simp)
    exact (Name.keepsEnd_read .tableAlias).map _ _ hrest

theorem keepsEnd_read (keyword : String) (line : Nat) : KeepsEnd (read keyword line) :=
  (QualifiedName.keepsEnd_read _ _).bind fun _ => keepsEnd_readShortName.map _

end TableHead

namespace Reference

theorem keepsEnd_read : KeepsEnd read :=
  Endpoint.keepsEnd_read.bind fun _ =>
    keepsEnd_readOperator.bind fun _ =>
      Endpoint.keepsEnd_read.bind fun _ => Settings.keepsEnd_readOptional.map _

theorem keepsEnd_readAll : KeepsEnd readAll := by
  intro toks h
  fun_induction readAll toks with
  | case1 toks rest hr => exact h.of_spells (spells_of_afterMark? hr) (by simp)
  | case2 => exact h
  | case3 toks _ _ cause rest hread => exact keepsEnd_read.of_error h hread
  | case4 toks _ _ r rest hread ih =>
    rw [Step.rest_map]
    exact ih (keepsEnd_read.of_ok h hread)

end Reference

namespace ReferenceGroup

theorem keepsEnd_readName : KeepsEnd readName :=
  .of_token Name.ofToken? some (.done none) (fun t r n hn => by simp only [readName, hn])
    (fun t r hn => by simp only [readName, hn]) rfl

theorem keepsEnd_readBlock : KeepsEnd readBlock :=
  .of_afterMark? .leftBrace (fun _ => rfl) (Reference.keepsEnd_readAll.map _)
    (.unexpected .referencesOpen)

theorem keepsEnd_readBody : KeepsEnd readBody :=
  .of_afterMark? .colon (fun _ => rfl) (Reference.keepsEnd_read.map _) keepsEnd_readBlock

theorem keepsEnd_read (keyword : String) : KeepsEnd (read keyword) :=
  keepsEnd_readName.bind fun _ => keepsEnd_readBody.map _

end ReferenceGroup

/-! ## No reader looks behind the end -/

/-- The step with more tokens behind those that are left. -/
def Step.before (s : List Located) : Step α → Step α
  | .ok a rest => .ok a (rest ++ s)
  | .error cause rest => .error cause (rest ++ s)

theorem Step.map_before (k : α → β) (s : List Located) (step : Step α) :
    (step.before s).map k = (step.map k).before s := by
  cases step <;> rfl

/-- A local reader that leaves a token looks at no token behind it. -/
theorem LocalAt.before {read : List Located → Step α} (h : LocalAt read toks)
    (hrest : (read toks).rest ≠ []) (s : List Located) :
    read (toks ++ s) = (read toks).before s := by
  obtain ⟨front, rest, answer, rfl, hanswer, hgives⟩ := h
  have hread := hgives rest rfl
  have hleft : (answer rest).rest = rest := by cases hanswer <;> rfl
  rw [hread, hleft] at hrest
  have hhead : (rest ++ s).head? = rest.head? := by
    obtain ⟨t, rest, rfl⟩ := List.exists_cons_of_ne_nil hrest
    rfl
  rw [List.append_assoc, hgives _ hhead, hread]
  cases hanswer <;> rfl

/-- What stands behind the end of the input is left, and changes nothing. A phrase that could be
read leaves the end too. -/
structure StaysWithin (read : List Located → Step α) : Prop where
  before : ∀ {toks}, EndsInput toks → ∀ s, read (toks ++ s) = (read toks).before s
  ends : ∀ {toks a rest}, EndsInput toks → read toks = .ok a rest → EndsInput rest

/-- A look for a word finds the same in front of more tokens, and the end of the input behind it. -/
structure Looks (after : List Located → Option (String × List Located)) : Prop where
  before : ∀ {toks}, EndsInput toks → ∀ s,
    after (toks ++ s) = (after toks).map fun found => (found.1, found.2 ++ s)
  ends : ∀ {toks word rest}, EndsInput toks → after toks = some (word, rest) → EndsInput rest

theorem EndsInput.lineOf_append (h : EndsInput toks) (s : List Located) :
    lineOf (toks ++ s) = lineOf toks := by
  obtain ⟨t, toks, rfl⟩ := List.exists_cons_of_ne_nil h.ne_nil
  rfl

theorem EndsInput.atEnd_append (h : EndsInput toks) (s : List Located) :
    atEnd (toks ++ s) = atEnd toks := by
  obtain ⟨t, toks, rfl⟩ := List.exists_cons_of_ne_nil h.ne_nil
  rfl

theorem EndsInput.afterMark?_append (h : EndsInput toks) (m : Mark) (s : List Located) :
    afterMark? m (toks ++ s) = (afterMark? m toks).map (· ++ s) := by
  obtain ⟨t, toks, rfl⟩ := List.exists_cons_of_ne_nil h.ne_nil
  simp only [List.cons_append, afterMark?]
  split <;> rfl

theorem EndsInput.afterMark?_append_eq_none {m : Mark} (h : EndsInput toks)
    (hm : afterMark? m toks = none) (s : List Located) : afterMark? m (toks ++ s) = none := by
  rw [h.afterMark?_append, hm, Option.map_none]

theorem LooksForWord.looks {after : List Located → Option (String × List Located)}
    (h : LooksForWord after)
    (hspells : ∀ {toks s rest}, after toks = some (s, rest) → Spells toks [.word s] rest) :
    Looks after where
  before {toks} hends s := by
    obtain ⟨t, toks, rfl⟩ := List.exists_cons_of_ne_nil hends.ne_nil
    obtain ⟨word, hsome⟩ | hnone := h.cons t
    · rw [List.cons_append, hsome, hsome]
      rfl
    · rw [List.cons_append, hnone, hnone]
      rfl
  ends hends hafter := hends.of_spells (hspells hafter) (by simp)

theorem looks_afterKeyword? (keyword : String) : Looks (afterKeyword? keyword) :=
  (looksForWord_afterKeyword? keyword).looks spells_of_afterKeyword?

theorem looks_afterKeywordMark? (keyword : String) (m : Mark) :
    Looks (afterKeywordMark? keyword m) where
  before {toks} hends s := by
    have hword := (looks_afterKeyword? keyword).before hends s
    rw [afterKeywordMark?, afterKeywordMark?, hword]
    cases hk : afterKeyword? keyword toks with
    | none => rfl
    | some found =>
      obtain ⟨word, rest⟩ := found
      have hrest := (looks_afterKeyword? keyword).ends hends hk
      simp only [Option.map_some, hrest.afterMark?_append, Option.map_map]
      rfl
  ends hends hafter := hends.of_spells (spells_of_afterKeywordMark? hafter) (by simp)

namespace StaysWithin

variable {f read : List Located → Step α}

theorem of_local (hl : Local read) (hk : KeepsEnd read) : StaysWithin read where
  before {toks} h s := (hl toks).before (hk toks h).ne_nil s
  ends h ha := hk.of_ok h ha

theorem map (k : α → β) (hf : StaysWithin f) : StaysWithin fun toks => (f toks).map k where
  before h s := by rw [hf.before h, Step.map_before]
  ends h ha := by
    obtain ⟨a, ha, -⟩ := Step.map_eq_ok_iff.1 ha
    exact hf.ends h ha

theorem bind {g : α → List Located → Step β} (hf : StaysWithin f) (hg : ∀ a, StaysWithin (g a)) :
    StaysWithin fun toks => (f toks).bind g where
  before {toks} h s := by
    rw [hf.before h]
    cases hstep : f toks with
    | ok a rest => exact (hg a).before (hf.ends h hstep) s
    | error cause rest => rfl
  ends h hb := by
    obtain ⟨a, rest, ha, hb⟩ := Step.bind_eq_ok_iff.1 hb
    exact (hg a).ends (hf.ends h ha) hb

theorem unexpected (expected : Expected) :
    StaysWithin (Document.unexpected (α := α) expected) :=
  .of_local (fun _ => .unexpected expected) (.unexpected expected)

/-- A word that comes next, or none, tells how the reader goes on. -/
theorem of_looks {after : List Located → Option (String × List Located)}
    {g : List Located → Step α} {f : Nat → String → List Located → Step α} (hafter : Looks after)
    (hread : ∀ toks, read toks =
      match after toks with
      | some (word, rest) => f (lineOf toks) word rest
      | none => g toks)
    (hf : ∀ line word, StaysWithin (f line word)) (hg : StaysWithin g) : StaysWithin read where
  before {toks} h s := by
    rw [hread, hread, hafter.before h, h.lineOf_append]
    cases hfound : after toks with
    | none => exact hg.before h s
    | some found => exact (hf _ _).before (hafter.ends h hfound) s
  ends {toks a rest} h ha := by
    rw [hread] at ha
    cases hfound : after toks with
    | none =>
      rw [hfound] at ha
      exact hg.ends h ha
    | some found =>
      rw [hfound] at ha
      exact (hf _ _).ends (hafter.ends h hfound) ha

/-- A mark that comes next, or another token, tells how the reader goes on. -/
theorem of_afterMark? {g : List Located → Step α} (m : Mark)
    (hread : ∀ toks, read toks =
      match afterMark? m toks with
      | some rest => f rest
      | none => g toks)
    (hf : StaysWithin f) (hg : StaysWithin g) : StaysWithin read where
  before {toks} h s := by
    rw [hread, hread, h.afterMark?_append]
    cases hm : afterMark? m toks with
    | none => exact hg.before h s
    | some rest => exact hf.before (h.of_spells (spells_of_afterMark? hm) (by simp)) s
  ends {toks a rest} h ha := by
    rw [hread] at ha
    cases hm : afterMark? m toks with
    | none =>
      rw [hm] at ha
      exact hg.ends h ha
    | some r =>
      rw [hm] at ha
      exact hf.ends (h.of_spells (spells_of_afterMark? hm) (by simp)) ha

end StaysWithin

/-! ## Blocks and definitions -/

/-- The end of the input that a block meets is taken, and is the last token that is. -/
theorem Block.staysWithin_readBody (depth : Nat) : StaysWithin (readBody depth) where
  before {toks} h s := by
    induction toks generalizing depth with
    | nil => exact absurd rfl h.ne_nil
    | cons t toks ih =>
      -- Any other token is followed by more.
      have hgoes (depth : Nat) (ht : t.token ≠ .endOfInput) :
          (readBody depth (toks ++ s)).map (t.token :: ·) =
            ((readBody depth toks).map (t.token :: ·)).before s := by
        rw [ih depth (h.tail ht), Step.map_before]
      cases ht : t.token with
      | endOfInput => simp only [List.cons_append, readBody, ht, Step.before]
      | mark m =>
        cases m with
        | rightBrace =>
          cases depth with
          | zero => simp only [List.cons_append, readBody, ht, Step.before]
          | succ depth =>
            simpa only [List.cons_append, readBody, ht] using hgoes depth (by simp [ht])
        | leftBrace =>
          simpa only [List.cons_append, readBody, ht] using hgoes (depth + 1) (by simp [ht])
        | _ => simpa only [List.cons_append, readBody, ht] using hgoes depth (by simp [ht])
      | _ => simpa only [List.cons_append, readBody, ht] using hgoes depth (by simp [ht])
  ends {toks body rest} h hbody := by
    fun_induction readBody depth toks generalizing body with
    | case1 | case2 => cases hbody
    | case3 depth t toks ht ih | case5 t toks ht depth ih =>
      obtain ⟨body', hbody', -⟩ := Step.map_eq_ok_iff.1 hbody
      exact ih (h.tail (by simp [ht])) hbody'
    | case4 t toks ht =>
      cases hbody
      exact h.tail (by simp [ht])
    | case6 depth t toks ht _ _ ih =>
      obtain ⟨body', hbody', -⟩ := Step.map_eq_ok_iff.1 hbody
      exact ih (h.tail ht) hbody'

theorem staysWithin_readNoteText : StaysWithin readNoteText :=
  .of_local local_readNoteText keepsEnd_readNoteText

namespace Skipped

theorem staysWithin_readFrom : StaysWithin readFrom where
  before {toks} h s := by
    induction toks with
    | nil => exact absurd rfl h.ne_nil
    | cons t toks ih =>
      -- The token belongs to the header, unless it ends the header or the input.
      have hgoes (ht : t.token ≠ .endOfInput) :
          ((readFrom (toks ++ s)).map fun p => (t.token :: p.1, p.2)) =
            ((readFrom toks).map fun p => (t.token :: p.1, p.2)).before s := by
        rw [ih (h.tail ht), Step.map_before]
      cases ht : t.token with
      | endOfInput => simp only [List.cons_append, readFrom, ht, Step.before]
      | mark m =>
        cases m with
        | leftBrace =>
          have hbody := (Block.staysWithin_readBody 0).before (h.tail (by simp [ht])) s
          simp only [List.cons_append, readFrom, ht, hbody, Step.map_before]
        | colon =>
          have htext := staysWithin_readNoteText.before (h.tail (by simp [ht])) s
          simp only [List.cons_append, readFrom, ht, htext, Step.map_before]
        | _ => simpa only [List.cons_append, readFrom, ht] using hgoes (by simp [ht])
      | _ => simpa only [List.cons_append, readFrom, ht] using hgoes (by simp [ht])
  ends {toks p rest} h hp := by
    fun_induction readFrom toks generalizing p with
    | case1 | case2 => cases hp
    | case3 t toks ht =>
      obtain ⟨body, hbody, -⟩ := Step.map_eq_ok_iff.1 hp
      exact (Block.staysWithin_readBody 0).ends (h.tail (by simp [ht])) hbody
    | case4 t toks ht =>
      obtain ⟨text, htext, -⟩ := Step.map_eq_ok_iff.1 hp
      exact staysWithin_readNoteText.ends (h.tail (by simp [ht])) htext
    | case5 t toks ht _ _ ih =>
      obtain ⟨p', hp', -⟩ := Step.map_eq_ok_iff.1 hp
      exact ih (h.tail ht) hp'

theorem staysWithin_read (keyword : String) : StaysWithin (read keyword) :=
  staysWithin_readFrom.map _

end Skipped

namespace Member

theorem staysWithin_read : StaysWithin read := by
  have hblock (keyword : String) : StaysWithin fun toks =>
      (Block.readBody 0 toks).map (Member.block keyword) := (Block.staysWithin_readBody 0).map _
  have hcolumn : StaysWithin fun toks => (ColumnLine.read toks).map Member.column :=
    (StaysWithin.of_local ColumnLine.takesWord_read.isLocal ColumnLine.keepsEnd_read).map _
  have hnotes := StaysWithin.of_looks (looks_afterKeywordMark? "note" .leftBrace) (fun _ => rfl)
    (fun _ => hblock) hcolumn
  have hmore := StaysWithin.of_looks (looks_afterKeywordMark? "note" .colon) (fun _ => rfl)
    (fun _ keyword => staysWithin_readNoteText.map (Member.note keyword)) hnotes
  exact .of_looks (looks_afterKeywordMark? "indexes" .leftBrace) (fun _ => rfl)
    (fun _ => hblock) hmore

theorem readAll_before (h : EndsInput toks) (hopen : afterMark? .rightBrace toks = none)
    (hend : ¬ atEnd toks = true) (s : List Located) :
    readAll (toks ++ s) =
      ((read toks).before s).bind fun m rest => (readAll rest).map (m :: ·) := by
  rw [readAll_of_open (h.afterMark?_append_eq_none hopen s), if_neg (by rwa [h.atEnd_append]),
    staysWithin_read.before h]

theorem staysWithin_readAll : StaysWithin readAll where
  before {toks} h s := by
    fun_induction readAll toks with
    | case1 toks rest hr =>
      have hclose : afterMark? .rightBrace (toks ++ s) = some (rest ++ s) := by
        rw [h.afterMark?_append, hr, Option.map_some]
      rw [readAll, hclose]
      rfl
    | case2 toks hopen hend =>
      rw [readAll_of_open (h.afterMark?_append_eq_none hopen s),
        if_pos (by rw [h.atEnd_append, hend])]
      exact (StaysWithin.unexpected .tableClose).before h s
    | case3 toks hopen hend cause rest hread =>
      rw [readAll_before h hopen hend, hread]
      rfl
    | case4 toks hopen hend m rest hread ih =>
      rw [readAll_before h hopen hend, hread]
      show (readAll (rest ++ s)).map (m :: ·) = _
      rw [ih (staysWithin_read.ends h hread), Step.map_before]
  ends {toks ms rest} h hms := by
    fun_induction readAll toks generalizing ms with
    | case1 toks r hr =>
      cases hms
      exact h.of_spells (spells_of_afterMark? hr) (by simp)
    | case2 | case3 => cases hms
    | case4 toks _ _ m r hread ih =>
      obtain ⟨ms', hms', -⟩ := Step.map_eq_ok_iff.1 hms
      exact ih (staysWithin_read.ends h hread) hms'

end Member

namespace TableHead

theorem staysWithin_read (keyword : String) (line : Nat) : StaysWithin (read keyword line) :=
  .of_local (local_read keyword line) (keepsEnd_read keyword line)

end TableHead

namespace TableBlock

theorem staysWithin_readBody (head : TableHead) : StaysWithin (readBody head) := by
  refine (StaysWithin.of_local Settings.local_readOptional Settings.keepsEnd_readOptional).bind
    fun settings => ?_
  exact .of_afterMark? .leftBrace
    (f := fun toks => (Member.readAll toks).map fun members => ⟨head, settings, members⟩)
    (fun toks => by cases afterMark? .leftBrace toks <;> rfl) (Member.staysWithin_readAll.map _)
    (.unexpected .tableOpen)

theorem staysWithin_read (keyword : String) (line : Nat) : StaysWithin (read keyword line) :=
  (TableHead.staysWithin_read keyword line).bind staysWithin_readBody

end TableBlock

namespace Definition

theorem looks_afterSkippedKeyword? : Looks afterSkippedKeyword? :=
  (looksForWord_findSome? Skipped.keywords).looks spells_of_afterSkippedKeyword?

theorem staysWithin_read : StaysWithin read := by
  have hskipped : StaysWithin fun toks =>
      match afterSkippedKeyword? toks with
      | some (keyword, rest) => (Skipped.read keyword rest).map skipped
      | none => unexpected .definition toks :=
    .of_looks looks_afterSkippedKeyword? (fun _ => rfl)
      (fun _ keyword => (Skipped.staysWithin_read keyword).map skipped) (.unexpected .definition)
  have hgroup (keyword : String) : StaysWithin (ReferenceGroup.read keyword) :=
    .of_local (ReferenceGroup.local_read keyword) (ReferenceGroup.keepsEnd_read keyword)
  have href := StaysWithin.of_looks (looks_afterKeyword? "ref") (fun _ => rfl)
    (fun _ keyword => (hgroup keyword).map references) hskipped
  exact .of_looks (looks_afterKeyword? "table") (fun _ => rfl)
    (fun line keyword => (TableBlock.staysWithin_read keyword line).map table) href

/-- The alias of a table that breaks off is settled by the tokens up to the end. -/
theorem aliasesBroken_append (h : EndsInput toks) (s : List Located) :
    aliasesBroken (toks ++ s) = aliasesBroken toks := by
  rw [aliasesBroken, aliasesBroken, (looks_afterKeyword? "table").before h, h.lineOf_append]
  cases hfound : afterKeyword? "table" toks with
  | none => rfl
  | some found =>
    obtain ⟨keyword, rest⟩ := found
    have hrest := (looks_afterKeyword? "table").ends h hfound
    simp only [Option.map_some, (TableHead.staysWithin_read _ _).before hrest s]
    cases TableHead.read keyword (lineOf toks) rest <;> rfl

theorem eventsBroken_append (h : EndsInput toks) (s : List Located) :
    eventsBroken (toks ++ s) = eventsBroken toks := by
  simp only [eventsBroken, (looks_afterKeyword? _).before h, looks_afterSkippedKeyword?.before h,
    Option.isSome_map]
  cases afterSkippedKeyword? toks <;> rfl

end Definition

/-! ## A whole run -/

/-- The reader with more tokens behind those that are left. -/
def Reader.before (s : List Located) (r : Reader) : Reader := { r with rest := r.rest ++ s }

def Outcome.before (s : List Located) (o : Outcome) : Outcome :=
  { o with reader := o.reader.before s }

/-- One round of the loop, where the input is not at its end. -/
theorem readFrom_of_not_atEnd (schema : Schema) (aliases : Aliases) (hend : ¬ atEnd toks = true) :
    readFrom schema aliases toks =
      match Definition.read toks with
      | .error cause rest =>
        ⟨.error cause, Definition.eventsBroken toks,
          ⟨rest, Definition.aliasesBroken toks ++ aliases⟩⟩
      | .ok d rest =>
        match extend schema d with
        | .error cause => ⟨.error cause, [], ⟨rest, d.aliases ++ aliases⟩⟩
        | .ok schema => (readFrom schema (d.aliases ++ aliases) rest).preceded d.events := by
  rw [readFrom, if_neg hend]
  split
  · rename_i hread
    simp only [hread]
  · rename_i d rest hread
    cases hextend : extend schema d <;> simp only [hread, hextend]

/-- **No reader looks behind the end of the input.** Whatever stands there is left, and the result,
the events and the aliases are the same as without it. -/
theorem readFrom_before (schema : Schema) (aliases : Aliases) (h : EndsInput toks)
    (s : List Located) :
    readFrom schema aliases (toks ++ s) = (readFrom schema aliases toks).before s := by
  fun_induction readFrom schema aliases toks with
  | case1 schema aliases toks hend result =>
    rw [readFrom, if_pos (by rw [h.atEnd_append, hend])]
    rfl
  | case2 schema aliases toks hend cause rest hread =>
    rw [readFrom_of_not_atEnd _ _ (by rwa [h.atEnd_append]), Definition.staysWithin_read.before h,
      hread, Definition.eventsBroken_append h, Definition.aliasesBroken_append h]
    rfl
  | case3 schema aliases toks hend d rest hread cause hextend =>
    rw [readFrom_of_not_atEnd _ _ (by rwa [h.atEnd_append]), Definition.staysWithin_read.before h,
      hread]
    simp only [Step.before, hextend]
    rfl
  | case4 schema aliases toks hend d rest hread schema' hextend ih =>
    rw [readFrom_of_not_atEnd _ _ (by rwa [h.atEnd_append]), Definition.staysWithin_read.before h,
      hread]
    simp only [Step.before, hextend, ih (Definition.staysWithin_read.ends h hread)]
    rfl

end SchemaDiagram.Document
