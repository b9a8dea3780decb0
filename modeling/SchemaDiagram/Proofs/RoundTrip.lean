/-
Writing a schema and reading it back (`parse_schemaText`).

A schema is written in one way only: names bare where they can be, one
definition a line. Every part of the text is related to the tokens it is
written with by `Writes`, which holds in front of any text that does not go on
with a character of a name; so the parts can be put together without looking
at their characters again. The tokens are those of definitions that declare
the schema, and exactness (`Proofs.Exactness`) does the rest.
-/
import SchemaDiagram.Proofs.Exactness
import SchemaDiagram.Proofs.Printing

namespace SchemaDiagram

namespace Document

/-! ## Writing -/

/-- The characters that stand for a character of a name in quotes. -/
def escapedChar (c : Char) : List Char := if c = '"' ∨ c = '\\' then ['\\', c] else [c]

def escapedText (name : String) : String := String.ofList (name.toList.flatMap escapedChar)

/-- A name, bare if it can be and in quotes otherwise. -/
def nameText (name : String) : String :=
  if Text.isName name.toList then name else "\"" ++ escapedText name ++ "\""

def attributesText : List String → String
  | [] => ""
  | attributes => " [" ++ ", ".intercalate attributes ++ "]"

def columnText (c : Column) : String :=
  nameText c.name ++ " " ++ nameText c.type ++ attributesText c.attributes

def tableText (t : Table) : String :=
  "Table " ++ nameText t.name ++ " \x7b" ++
    String.join (t.columns.map fun c => " " ++ columnText c) ++ " \x7d"

def endpointText (table field : String) : String := nameText table ++ "." ++ nameText field

def relationshipText (r : Relationship) : String :=
  "Ref: " ++ endpointText r.fromTable r.fromField ++ " " ++ r.cardinality.operator ++ " " ++
    endpointText r.toTable r.toField

/-- A schema with one definition a line, the tables first. -/
def schemaText (s : Schema) : String :=
  String.join ((s.tables.map tableText ++ s.relationships.map relationshipText).map (· ++ "\n"))

/-- Words with single blanks between them. Other attributes are not kept as they are written. -/
def IsAttribute (a : String) : Prop :=
  ∃ words : List String, words ≠ [] ∧ (∀ w ∈ words, Text.isName w.toList = true) ∧
    a = " ".intercalate words

/-! ## Texts and their tokens -/

/-- The text does not go on with a character of a name. -/
def Stops (rest : List Char) : Prop := ∀ c, rest.head? = some c → Text.isNameChar c = false

/-- A text is read as the tokens, wherever it stands, in front of any text that does not go on with
a character of a name. -/
def Writes (text : List Char) (toks : List Token) : Prop :=
  ∀ rest line, Stops rest →
    ∃ x line', Cursor.Reads ⟨text ++ rest, line⟩ x ⟨rest, line'⟩ ∧ x.map Located.token = toks

namespace Writes

variable {a b : List Char} {x y : List Token}

theorem nil : Writes [] [] := fun _ _ _ => ⟨[], _, .done _, rfl⟩

theorem append (ha : Writes a x) (hb : Writes b y) (hs : Stops b) : Writes (a ++ b) (x ++ y) := by
  intro rest line hrest
  have hstop : Stops (b ++ rest) := by
    cases b with
    | nil => exact hrest
    | cons c b => exact hs
  obtain ⟨x', line', hx, rfl⟩ := ha (b ++ rest) line hstop
  obtain ⟨y', line'', hy, rfl⟩ := hb rest line' hrest
  exact ⟨x' ++ y', line'', by simpa using hx.append hy, by simp⟩

/-- A lexeme that a character of a name at most could make longer. -/
theorem of_isLexeme {t : Token} (h : IsLexeme t a)
    (hends : ∀ rest, Stops rest → Ends t a rest) : Writes a [t] := by
  intro rest line hrest
  have hnext := Cursor.next_of_isLexeme line .nil h (hends rest hrest)
  exact ⟨[_], _, .more hnext h.ne_endOfInput (.done _), rfl⟩

/-- A mark of one character ends wherever it stands. -/
theorem mark {k : Char} {m : Mark} (hk : Mark.ofChar? k = some m) (hb : Writes b y) :
    Writes (k :: b) (.mark m :: y) := by
  intro rest line hrest
  have hnext := Cursor.next_of_isLexeme line .nil (.mark hk) (.of_ofChar? hk [k] (b ++ rest))
  obtain ⟨y', line', hy, rfl⟩ := hb rest (line + Text.newlines [] + Text.newlines [k]) hrest
  exact ⟨_ :: y', line', .more hnext (by simp) hy, rfl⟩

/-- Layout in front of a first token. -/
theorem layout {lay : List Char} (hlay : IsLayout lay) (hb : Writes b y) (hy : y ≠ []) :
    Writes (lay ++ b) y := by
  intro rest line hrest
  obtain ⟨x', line', hx, hmap⟩ := hb rest (line + Text.newlines lay) hrest
  cases x' with
  | nil => exact absurd hmap.symm hy
  | cons u x' =>
    obtain ⟨c', hn, ht, hx⟩ : ∃ c', Cursor.next ⟨b ++ rest, line + Text.newlines lay⟩ = (.ok u, c') ∧
        u.token ≠ .endOfInput ∧ Cursor.Reads c' x' ⟨rest, line'⟩ := by
      cases hx with
      | more hn ht hx => exact ⟨_, hn, ht, hx⟩
    rw [← Cursor.next_layout _ _ hlay] at hn
    exact ⟨u :: x', line', by simpa using Cursor.Reads.more hn ht hx, hmap⟩

theorem blank (hb : Writes b y) (hy : y ≠ []) : Writes (' ' :: b) y :=
  layout (.blank (by decide) .nil) hb hy

end Writes

theorem stops_cons {c : Char} {s : List Char} (h : c ∈ [' ', '.', ',', ':', ']', '\n']) :
    Stops (c :: s) := by
  intro d hd
  cases hd
  simp only [List.mem_cons, List.not_mem_nil, or_false] at h
  rcases h with rfl | rfl | rfl | rfl | rfl | rfl
  all_goals decide +kernel

/-! ## Names -/

/-- A name as it is written. -/
def nameOf (name : String) : Name := if Text.isName name.toList then .bare name else .quoted name

theorem text_nameOf (name : String) : (nameOf name).text = name := by
  unfold nameOf
  split <;> rfl

theorem writes_word {w : String} (h : Text.isName w.toList = true) : Writes w.toList [.word w] :=
  .of_isLexeme (isLexeme_word h) fun _ hrest => hrest

theorem writes_nameText (name : String) : Writes (nameText name).toList [(nameOf name).token] := by
  unfold nameText nameOf
  split
  · rename_i h
    exact writes_word h
  · have htext : ("\"" ++ escapedText name ++ "\"").toList = inQuotes '"' name.toList := by
      simp [escapedText, inQuotes]
      rfl
    rw [htext]
    exact .of_isLexeme (isLexeme_quoted name) fun rest _ c _ => trivial

/-! ## Columns -/

theorem isRun_words (words : List String) : IsRun 0 (words.map .word) := by
  induction words with
  | nil => exact ⟨by simp, rfl, by simp⟩
  | cons w words ih =>
    rw [List.map_cons, isRun_cons_iff]
    exact ⟨by simp [EndsSetting], by simp, ih⟩

theorem spacedText_words (w : String) (words : List String) :
    spacedText ((w :: words).map .word) = " ".intercalate (w :: words) := by
  have hafter (before : String) (words : List String) :
      before ++ textAfter (.word before) (words.map .word) =
        " ".intercalate (before :: words) := by
    induction words generalizing before with
    | nil => simp [textAfter]
    | cons w words ih =>
      have htight : standsTight (.word before) (.word w) = false := rfl
      rw [String.intercalate_cons_cons, ← ih]
      simp [textAfter, htight, Token.text, String.append_assoc]
  exact hafter w words

theorem writes_words {w : String} {words : List String}
    (h : ∀ v ∈ w :: words, Text.isName v.toList = true) :
    Writes (" ".intercalate (w :: words)).toList ((w :: words).map .word) := by
  induction words generalizing w with
  | nil => simpa using writes_word (h w (by simp))
  | cons v words ih =>
    have htext : (" ".intercalate (w :: v :: words)).toList =
        w.toList ++ ' ' :: (" ".intercalate (v :: words)).toList := by simp
    have hmore := @ih v fun u hu => h u (by simp [List.mem_cons.1 hu])
    rw [htext]
    exact (writes_word (h w (by simp))).append (hmore.blank (by simp)) (stops_cons (by simp))

/-- An attribute is written with a setting. -/
theorem exists_setting {a : String} (h : IsAttribute a) :
    ∃ run, Setting.WellFormed (.plain run) ∧ Setting.text (.plain run) = a ∧
      Writes a.toList run := by
  obtain ⟨words, hne, hwords, rfl⟩ := h
  cases words with
  | nil => exact absurd rfl hne
  | cons w words =>
    refine ⟨(w :: words).map .word, ⟨by simp, isRun_words _, ?_⟩, spacedText_words w words,
      writes_words hwords⟩
    intro s more he
    cases words <;> cases he

/-- Attributes are written with settings, in front of the bracket that closes the list. -/
theorem exists_settings {a : String} {more : List String} (h : ∀ b ∈ a :: more, IsAttribute b) :
    ∃ runs : List (List Token), (∀ run ∈ runs, Setting.WellFormed (.plain run)) ∧
      runs.map (fun run => Setting.text (.plain run)) = a :: more ∧
      Writes ((", ".intercalate (a :: more)).toList ++ [']'])
        (Settings.innerTokens ⟨runs.map .plain, false⟩) := by
  induction more generalizing a with
  | nil =>
    obtain ⟨run, hrun, htext, hwrites⟩ := exists_setting (h a (by simp))
    refine ⟨[run], by simpa using hrun, by simp [htext], ?_⟩
    have hclose := hwrites.append (.mark (k := ']') (m := .rightBracket) rfl .nil)
      (stops_cons (by simp))
    simpa [Settings.innerTokens, Settings.listTokens, Setting.tokens] using hclose
  | cons b more ih =>
    obtain ⟨run, hrun, htext, hwrites⟩ := exists_setting (h a (by simp))
    obtain ⟨runs, hruns, htexts, hmore⟩ := @ih b fun c hc => h c (by simp [List.mem_cons.1 hc])
    refine ⟨run :: runs, List.forall_mem_cons.2 ⟨hrun, hruns⟩, by simp [htext, htexts], ?_⟩
    · obtain ⟨s, items, hitems⟩ : ∃ s items, runs.map Setting.plain = s :: items := by
        cases runs with
        | nil => cases htexts
        | cons run runs => exact ⟨_, _, rfl⟩
      have htokens : Settings.innerTokens ⟨(run :: runs).map .plain, false⟩ =
          run ++ .mark .comma :: Settings.innerTokens ⟨runs.map .plain, false⟩ := by
        simp [Settings.innerTokens, Settings.listTokens, hitems, Setting.tokens]
      have hmore := hmore.blank (by simp [Settings.innerTokens])
      rw [htokens]
      simpa using hwrites.append (.mark (k := ',') (m := .comma) rfl hmore)
        (stops_cons (by simp))

/-- Attributes are written with settings that may be left out, none of which is a reference. -/
theorem exists_optionalSettings {attributes : List String} (h : ∀ a ∈ attributes, IsAttribute a) :
    ∃ (ss : Option Settings) (runs : List (List Token)), Settings.OptionalWellFormed ss ∧
      ss ≠ some ⟨[], false⟩ ∧ (∀ name type, ColumnLine.items ⟨name, type, ss⟩ = runs.map .plain) ∧
      runs.map (fun run => Setting.text (.plain run)) = attributes ∧
      Writes (attributesText attributes).toList (Settings.optionalTokens ss) := by
  cases attributes with
  | nil =>
    refine ⟨none, [], ?_, by simp, fun _ _ => rfl, rfl, .nil⟩
    intro ss he
    cases he
  | cons a more =>
    obtain ⟨runs, hruns, htexts, hwrites⟩ := exists_settings h
    refine ⟨some ⟨runs.map .plain, false⟩, runs, ?_, ?_, fun _ _ => rfl, htexts, ?_⟩
    · intro ss he
      cases he
      exact ⟨by simpa using hruns, by simp⟩
    · intro he
      have hnil : runs = [] := by simpa using he
      rw [hnil] at htexts
      cases htexts
    · have hlist := Writes.mark (k := '[') (m := .leftBracket) rfl hwrites
      have htext : (attributesText (a :: more)).toList =
          ' ' :: '[' :: ((", ".intercalate (a :: more)).toList ++ [']']) := by
        simp [attributesText]
      rw [htext]
      exact hlist.blank (by simp)

theorem stops_attributesText (attributes : List String) :
    Stops (attributesText attributes).toList := by
  cases attributes with
  | nil =>
    intro c hc
    cases hc
  | cons a more =>
    have htext : (attributesText (a :: more)).toList =
        ' ' :: (("[" ++ ", ".intercalate (a :: more)).toList ++ [']']) := by
      simp [attributesText]
    rw [htext]
    exact stops_cons (by simp)

/-- A column is written with a line that declares it and refers to nothing. -/
theorem exists_columnLine {c : Column} (h : ∀ a ∈ c.attributes, IsAttribute a) :
    ∃ line : ColumnLine, line.WellFormed ∧ line.column = c ∧
      (∀ table, line.relationships table = []) ∧ Writes (columnText c).toList line.tokens := by
  obtain ⟨name, type, attributes⟩ := c
  obtain ⟨ss, runs, hss, hne, hitems, htexts, hwrites⟩ := exists_optionalSettings h
  have htype : TypeName.text ⟨⟨nameOf type, []⟩, none, false⟩ = type := by
    simp [TypeName.text, QualifiedName.text, text_nameOf]
  refine ⟨⟨nameOf name, ⟨⟨nameOf type, []⟩, none, false⟩, ss⟩, ⟨?_, hss, fun _ => hne⟩, ?_, ?_, ?_⟩
  · intro args he
    cases he
  · simp [ColumnLine.column, hitems, text_nameOf, htype, Function.comp_def, htexts]
  · intro table
    simp [ColumnLine.relationships, hitems]
  · have hbehind := (writes_nameText type).append hwrites (stops_attributesText attributes)
    have hline := (writes_nameText name).append (hbehind.blank (by simp)) (stops_cons (by simp))
    have htext : (columnText ⟨name, type, attributes⟩).toList = (nameText name).toList ++
        ' ' :: ((nameText type).toList ++ (attributesText attributes).toList) := by
      simp [columnText]
    rw [htext]
    exact hline

/-! ## Definitions -/

/-- Columns are written with lines, in front of the brace that closes the table. -/
theorem exists_columnLines {cs : List Column}
    (h : ∀ c ∈ cs, ∀ a ∈ c.attributes, IsAttribute a) :
    ∃ lines : List ColumnLine,
      (∀ line ∈ lines, line.WellFormed ∧ ∀ table, line.relationships table = []) ∧
      lines.map ColumnLine.column = cs ∧
      Writes (cs.flatMap (fun c => ' ' :: (columnText c).toList) ++ [' ', '}'])
        (lines.flatMap ColumnLine.tokens ++ [.mark .rightBrace]) := by
  induction cs with
  | nil =>
    exact ⟨[], by simp, rfl,
      (Writes.mark (k := '}') (m := .rightBrace) rfl .nil).blank (by simp)⟩
  | cons c cs ih =>
    obtain ⟨line, hline, hcolumn, hrefs, hwrites⟩ := exists_columnLine (h c (by simp))
    obtain ⟨lines, hlines, hcolumns, hmore⟩ := ih fun c hc => h c (by simp [hc])
    refine ⟨line :: lines, List.forall_mem_cons.2 ⟨⟨hline, hrefs⟩, hlines⟩,
      by simp [hcolumn, hcolumns], ?_⟩
    · have hstop : Stops (cs.flatMap (fun c => ' ' :: (columnText c).toList) ++ [' ', '}']) := by
        cases cs <;> exact stops_cons (by simp)
      have hall := (hwrites.append hmore hstop).blank (by simp)
      simpa using hall

/-- The text is that of one definition, which declares the part of a schema and no alias. -/
def Declares (text : String) (part : Schema) : Prop :=
  ∃ d : Definition, d.WellFormed ∧ d.aliases = [] ∧
    (∀ s, gather s [d] = ⟨s.tables ++ part.tables, s.relationships ++ part.relationships⟩) ∧
    Writes text.toList d.tokens

theorem declares_tableText {t : Table} (h : ∀ c ∈ t.columns, ∀ a ∈ c.attributes, IsAttribute a) :
    Declares (tableText t) ⟨[t], []⟩ := by
  obtain ⟨name, columns⟩ := t
  obtain ⟨lines, hlines, rfl, hwrites⟩ := exists_columnLines h
  have hcolumns : (lines.map Member.column).filterMap Member.column? = lines := by
    simp [List.filterMap_map, Function.comp_def, Member.column?]
  have hkeyword : Text.sameWord "Table" "table" = true := by decide
  refine ⟨.table ⟨⟨"Table", 0, ⟨nameOf name, []⟩, none⟩, none, lines.map .column⟩,
    ⟨⟨hkeyword, ?_⟩, ?_, ?_⟩, rfl, ?_, ?_⟩
  · intro word short he
    cases he
  · intro ss he
    cases he
  · intro m hm
    obtain ⟨line, hline, rfl⟩ := List.mem_map.1 hm
    exact (hlines line hline).1
  · intro s
    have hrefs (table : String) : lines.flatMap (ColumnLine.relationships table) = [] := by
      rw [List.flatMap_eq_nil_iff]
      exact fun line hline => (hlines line hline).2 table
    simp [gather, Definition.relationships, TableBlock.relationships, TableBlock.table,
      TableBlock.columnLines, TableBlock.name, hcolumns, hrefs, QualifiedName.text, text_nameOf]
  · have hbrace := Writes.mark (k := '{') (m := .leftBrace) rfl hwrites
    have hhead := (writes_nameText name).append (hbrace.blank (by simp))
      (stops_cons (by simp))
    have hword : Writes "Table".toList [.word "Table"] := writes_word (by decide +kernel)
    have hall := hword.append (hhead.blank (by simp)) (stops_cons (by simp))
    have htext : (tableText ⟨name, lines.map ColumnLine.column⟩).toList = "Table".toList ++
        ' ' :: ((nameText name).toList ++ ' ' :: '{' :: ((lines.map ColumnLine.column).flatMap
          (fun c => ' ' :: (columnText c).toList) ++ [' ', '}'])) := by
      simp only [tableText, String.toList_append, String.toList_join, List.flatMap_map,
        List.append_assoc]
      rfl
    have htokens : (lines.map Member.column).flatMap Member.tokens =
        lines.flatMap ColumnLine.tokens := by
      simp [List.flatMap_map, Member.tokens]
    rw [htext]
    simpa [Definition.tokens, TableBlock.tokens, TableHead.tokens, TableHead.shortNameTokens,
      QualifiedName.tokens, QualifiedName.moreTokens, Settings.optionalTokens, htokens] using hall

/-- An operator is read if a blank follows it; a `<` alone would take a `>` along. -/
theorem writes_operator (c : Cardinality) {b : List Char} {y : List Token} (hb : Writes b y)
    (hy : y ≠ []) :
    Writes (c.operator.toList ++ ' ' :: b) (.mark (operatorMark c) :: y) := by
  have hlexeme : IsLexeme (.mark (operatorMark c)) c.operator.toList := by
    cases c with
    | oneToOne => exact .mark (c := '-') rfl
    | oneToMany => exact .less
    | manyToOne => exact .mark (c := '>') rfl
    | manyToMany => exact .lessGreater
  intro rest line hrest
  have hends : Ends (.mark (operatorMark c)) c.operator.toList (' ' :: b ++ rest) := by
    intro d hd
    cases hd
    cases c <;> simp [operatorMark]
  have hnext := Cursor.next_of_isLexeme line .nil hlexeme hends
  obtain ⟨y', line', hy', rfl⟩ :=
    (hb.blank hy) rest (line + Text.newlines [] + Text.newlines c.operator.toList) hrest
  rw [List.append_assoc]
  exact ⟨_ :: y', line', .more hnext hlexeme.ne_endOfInput hy', rfl⟩

theorem writes_endpoint (table field : String) :
    Writes (endpointText table field).toList
      (Endpoint.tokens ⟨⟨nameOf table, []⟩, nameOf field⟩) := by
  have hdot := Writes.mark (k := '.') (m := .dot) rfl (writes_nameText field)
  have htext : (endpointText table field).toList =
      (nameText table).toList ++ '.' :: (nameText field).toList := by
    simp [endpointText]
  rw [htext]
  exact (writes_nameText table).append hdot (stops_cons (by simp))

theorem declares_relationshipText (r : Relationship) : Declares (relationshipText r) ⟨[], [r]⟩ := by
  obtain ⟨fromTable, fromField, toTable, toField, c⟩ := r
  let ref : Reference := ⟨⟨⟨nameOf fromTable, []⟩, nameOf fromField⟩, c,
    ⟨⟨nameOf toTable, []⟩, nameOf toField⟩, none⟩
  have hkeyword : Text.sameWord "Ref" "ref" = true := by decide
  refine ⟨.references ⟨"Ref", none, .single ref⟩, ⟨hkeyword, ?_⟩, rfl, ?_, ?_⟩
  · intro ref' href'
    have he : ref' = ref := by simpa [ReferenceGroup.references] using href'
    subst he
    intro ss he
    cases he
  · intro s
    simp [gather, Definition.relationships, ReferenceGroup.relationships,
      ReferenceGroup.references, Reference.relationship, ref, QualifiedName.text, text_nameOf]
  · have htarget := writes_operator c (writes_endpoint toTable toField) (by simp [Endpoint.tokens])
    have hends := (writes_endpoint fromTable fromField).append (htarget.blank (by simp))
      (stops_cons (by simp))
    have hcolon := Writes.mark (k := ':') (m := .colon) rfl
      (hends.blank (by simp [Endpoint.tokens]))
    have hword : Writes "Ref".toList [.word "Ref"] := writes_word (by decide +kernel)
    have hall := hword.append hcolon (stops_cons (by simp))
    have htext : (relationshipText ⟨fromTable, fromField, toTable, toField, c⟩).toList =
        "Ref".toList ++ ':' :: ' ' :: ((endpointText fromTable fromField).toList ++
          ' ' :: (c.operator.toList ++ ' ' :: (endpointText toTable toField).toList)) := by
      simp only [relationshipText, String.toList_append, List.append_assoc]
      rfl
    rw [htext]
    simpa [Definition.tokens, ReferenceGroup.tokens, ReferenceGroup.nameTokens,
      ReferenceGroup.bodyTokens, Reference.tokens, Settings.optionalTokens, ref] using hall

/-! ## Schemas -/

/-- A text of whole lines, read behind layout: layout may also be left. -/
def WritesLines (text : List Char) (toks : List Token) : Prop :=
  ∀ lay rest line, IsLayout lay → ∃ x lay' line', IsLayout lay' ∧
    Cursor.Reads ⟨lay ++ (text ++ rest), line⟩ x ⟨lay' ++ rest, line'⟩ ∧
      x.map Located.token = toks

namespace WritesLines

variable {a b : List Char} {x y : List Token}

theorem nil : WritesLines [] [] := fun lay _ line hlay => ⟨[], lay, line, hlay, .done _, rfl⟩

theorem append (ha : WritesLines a x) (hb : WritesLines b y) : WritesLines (a ++ b) (x ++ y) := by
  intro lay rest line hlay
  obtain ⟨x', lay', line', hlay', hx, rfl⟩ := ha lay (b ++ rest) line hlay
  obtain ⟨y', lay'', line'', hlay'', hy, rfl⟩ := hb lay' rest line' hlay'
  exact ⟨x' ++ y', lay'', line'', hlay'', by simpa using hx.append hy, by simp⟩

/-- A newline is left behind a line. -/
theorem of_writes (h : Writes a x) (hx : x ≠ []) : WritesLines (a ++ ['\n']) x := by
  intro lay rest line hlay
  have hstop : Stops ('\n' :: rest) := stops_cons (by simp)
  obtain ⟨x', line', hreads, hmap⟩ := (h.layout hlay hx) ('\n' :: rest) line hstop
  exact ⟨x', ['\n'], line', .blank (by decide) .nil, by simpa using hreads, hmap⟩

end WritesLines

/-- A text of whole lines that are written with definitions is a document. -/
theorem isDocument_of_writesLines {source : String} {ds : List Definition}
    (h : WritesLines source.toList (ds.flatMap Definition.tokens)) (hds : ∀ d ∈ ds, d.WellFormed) :
    IsDocument source ds := by
  obtain ⟨x, lay, line, hlay, hreads, hmap⟩ := h [] [] 1 .nil
  have hend : Cursor.next ⟨lay ++ [], line⟩ =
      (.ok ⟨.endOfInput, line + Text.newlines lay⟩, ⟨[], line + Text.newlines lay⟩) := by
    rw [Cursor.next_layout _ _ hlay]
    rfl
  have htoks := Cursor.tokens_eq_ok_iff.2 ⟨x, _, _, _, hreads, hend, rfl, rfl⟩
  rw [List.nil_append, List.append_nil] at htoks
  exact ⟨_, htoks, by simp [hmap], hds⟩

/-- Lines that declare parts of a schema are written with definitions that declare all of them. -/
theorem exists_definitions {lines : List (String × Schema)}
    (h : ∀ l ∈ lines, Declares l.1 l.2) :
    ∃ ds : List Definition, (∀ d ∈ ds, d.WellFormed) ∧ aliasesOf ds = [] ∧
      (∀ s, gather s ds = ⟨s.tables ++ lines.flatMap fun l => l.2.tables,
        s.relationships ++ lines.flatMap fun l => l.2.relationships⟩) ∧
      WritesLines (lines.flatMap fun l => l.1.toList ++ ['\n']) (ds.flatMap Definition.tokens) := by
  induction lines with
  | nil => exact ⟨[], by simp, rfl, fun s => by simp [gather_nil], .nil⟩
  | cons l lines ih =>
    obtain ⟨d, hd, haliases, hgather, hwrites⟩ := h l (by simp)
    obtain ⟨ds, hds, haliasesOf, hgathers, hmore⟩ := ih fun l hl => h l (by simp [hl])
    refine ⟨d :: ds, List.forall_mem_cons.2 ⟨hd, hds⟩, ?_, ?_, ?_⟩
    · rw [aliasesOf_cons, haliasesOf, haliases, List.append_nil]
    · intro s
      rw [gather_cons, hgather, hgathers]
      simp
    · exact (WritesLines.of_writes hwrites d.tokens_ne_nil).append hmore

/-- Without aliases definitions mean what they add to a schema. -/
theorem schemaOf_eq_gather {ds : List Definition} (h : aliasesOf ds = []) :
    schemaOf ds = gather ⟨[], []⟩ ds := by
  have hresolve : Aliases.resolveEnds [] = id := rfl
  simp [schemaOf, gather, h, hresolve]

/-- **A schema is read back from the text it is written with,** with its tables, columns, types,
attributes and relationships in their order, whatever its names and types are. -/
theorem parse_schemaText {schema : Schema}
    (hnonempty : schema.tables ≠ [] ∨ schema.relationships ≠ []) (hnames : schema.names.Nodup)
    (hattributes : ∀ t ∈ schema.tables, ∀ c ∈ t.columns, ∀ a ∈ c.attributes, IsAttribute a) :
    parse (schemaText schema) = .ok schema := by
  let lines : List (String × Schema) :=
    schema.tables.map (fun t => (tableText t, ⟨[t], []⟩)) ++
      schema.relationships.map (fun r => (relationshipText r, ⟨[], [r]⟩))
  have hlines : ∀ l ∈ lines, Declares l.1 l.2 := by
    intro l hl
    rcases List.mem_append.1 hl with hl | hl
    · obtain ⟨t, ht, rfl⟩ := List.mem_map.1 hl
      exact declares_tableText (hattributes t ht)
    · obtain ⟨r, -, rfl⟩ := List.mem_map.1 hl
      exact declares_relationshipText r
  obtain ⟨ds, hds, haliases, hgather, hwrites⟩ := exists_definitions hlines
  have hdocument : IsDocument (schemaText schema) ds := by
    refine isDocument_of_writesLines ?_ hds
    have htext : (schemaText schema).toList = lines.flatMap fun l => l.1.toList ++ ['\n'] := by
      simp [schemaText, lines, List.flatMap_map]
    rw [htext]
    exact hwrites
  have hall : gather ⟨[], []⟩ ds = schema := by
    have hnone {α β : Type} (l : List α) : l.flatMap (fun _ => ([] : List β)) = [] := by
      simp [List.flatMap_eq_nil_iff]
    rw [hgather]
    simp [lines, List.flatMap_map, hnone]
  have hschema : schemaOf ds = schema := (schemaOf_eq_gather haliases).trans hall
  have hadmissible : Admissible ds := by
    constructor
    · rw [← hall, names_gather] at hnames
      exact (List.nodup_append.1 hnames).2.1
    · rw [hschema]
      exact hnonempty
  exact (hdocument.parse_eq_ok_iff_admissible schema).2 ⟨hadmissible, hschema.symm⟩

/-- Names that are also keywords, or no identifiers at all. -/
def keywordSchema : Schema where
  tables := [
    ⟨"table", [⟨"note", "varchar(9)", ["not null", "pk"]⟩, ⟨"indexes", "ref", ["ref"]⟩, ⟨"", "as", []⟩]⟩,
    ⟨"a\"\\.\n", []⟩]
  relationships := [⟨"as", "Ref", "table", "no.te", .oneToMany⟩]

theorem parse_schemaText_keywordSchema :
    schemaText keywordSchema =
        "Table table \x7b note \"varchar(9)\" [not null, pk] indexes ref [ref] \"\" as \x7d\n" ++
        "Table \"a\\\"\\\\.\n\" \x7b \x7d\nRef: as.Ref < table.\"no.te\"\n" ∧
      parse (schemaText keywordSchema) = .ok keywordSchema := by
  refine ⟨by decide +kernel, parse_schemaText (.inl (by decide)) (by decide) ?_⟩
  have hwords : ∀ t ∈ keywordSchema.tables, ∀ c ∈ t.columns, ∀ a ∈ c.attributes,
      a = " ".intercalate ["not", "null"] ∨ a = " ".intercalate ["pk"] ∨
        a = " ".intercalate ["ref"] := by decide
  intro t ht c hc a ha
  rcases hwords t ht c hc a ha with h | h | h
  all_goals exact ⟨_, by decide, by decide +kernel, h⟩

end Document

end SchemaDiagram
