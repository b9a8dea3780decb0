/-
The texts kept for settings and for types, read back (`hasTokens_column`).

A setting is kept as the text of its tokens, with a blank between most of them,
and a type as the text of its tokens without any. Where no blank stands, one of
the two neighbours is a mark, and a mark neither goes on behind itself nor makes
a lexeme in front of it longer; the one exception among the texts that are kept
is a number in front of a dot, which would take the dot along.
-/
import SchemaDiagram.Proofs.Rewriting
import SchemaDiagram.Proofs.TokenTexts

namespace SchemaDiagram.Document

/-! ## Columns and their lines -/

theorem ColumnLine.WellFormed.items_wellFormed {c : ColumnLine} (h : c.WellFormed) :
    ∀ s ∈ c.items, s.WellFormed := by
  cases hs : c.settings with
  | none => simp [items, hs]
  | some ss =>
    simp only [items, hs]
    exact (h.settings ss hs).items

/-- A column of the schema comes from the line at the same place of the document. -/
theorem IsDocument.exists_columnLine {source : String} {schema : Schema} {ds : List Definition}
    {i j : Nat} {t : Table} {col : Column} (hdocument : IsDocument source ds)
    (hparse : parse source = .ok schema) (ht : schema.tables[i]? = some t)
    (hcol : t.columns[j]? = some col) :
    ∃ b c, (tableBlocks ds)[i]? = some b ∧ b.columnLines[j]? = some c ∧ c.column = col ∧
      c.WellFormed ∧ Writable c.tokens := by
  obtain ⟨-, rfl⟩ := (hdocument.parse_eq_ok_iff_admissible schema).1 hparse
  rw [schemaOf, List.getElem?_map] at ht
  obtain ⟨b, hb, rfl⟩ := Option.map_eq_some_iff.1 ht
  rw [TableBlock.table, List.getElem?_map] at hcol
  obtain ⟨c, hc, rfl⟩ := Option.map_eq_some_iff.1 hcol
  obtain ⟨d, hd, htable⟩ := List.mem_filterMap.1 (List.mem_of_getElem? hb)
  obtain rfl : d = .table b := by
    cases d <;> cases htable
    rfl
  have hmember := TableBlock.exists_column_of_mem_columnLines (List.mem_of_getElem? hc)
  have hwell : b.WellFormed := hdocument.wellFormed _ hd
  have hwritable : Writable b.tokens := writable_flatMap.1 hdocument.writable _ hd
  simp only [TableBlock.tokens, writable_cons, writable_append, writable_flatMap] at hwritable
  obtain ⟨-, -, -, -, hmembers, -⟩ := hwritable
  exact ⟨b, c, hb, hc, rfl, hwell.members _ hmember, hmembers _ hmember⟩

/-! ## Settings -/

/-- No number without a dot stands directly before a dot. -/
def DotsApart (run : List Token) : Prop :=
  ∀ n, [.number n, .mark .dot] <:+: run → '.' ∈ n.toList

theorem toList_textAfter (before : Token) (run : List Token) :
    (textAfter before run).toList = shownBehind standsTight before run := by
  induction run generalizing before with
  | nil => rfl
  | cons t run ih =>
    simp only [textAfter, shownBehind, String.toList_append, ih]
    split <;> simp

/-- A token ends in front of one that stands tight behind it, unless they are a number without a dot
and a dot. -/
theorem ends_of_standsTight {t u : Token} (htight : standsTight t u = true)
    (hdot : ∀ n, t = .number n → u = .mark .dot → '.' ∈ n.toList) :
    Ends t t.text.toList u.text.toList := by
  unfold standsTight at htight
  split at htight
  -- The colon, the comma and the parenthesis that closes.
  · exact .of_mark (by simp) (by simp)
  · exact .of_mark (by simp) (by simp)
  · exact .of_mark (by simp) (by simp)
  · refine .of_mark (fun n hn _ => ?_) (by simp)
    subst hn
    exact hdot n rfl rfl
  · exact .of_ne_less (by simp) _ _
  · exact .of_ne_less (by simp) _ _
  · exact .of_ne_less (by simp) _ _
  · exact .of_mark (by simp) (by simp)
  · cases htight

theorem isLexeme_text_of_writable {run : List Token} (hwritable : Writable run)
    (hverbatim : ∀ u ∈ run, u.IsVerbatim) : ∀ u ∈ run, IsLexeme u u.text.toList := by
  intro u hu
  obtain ⟨text, hlexeme⟩ := hwritable u hu
  exact hlexeme.of_isVerbatim (hverbatim u hu)

theorem hasTokens_spacedText {run : List Token} (hwritable : Writable run) (hne : run ≠ [])
    (hverbatim : ∀ u ∈ run, u.IsVerbatim) (hdots : DotsApart run) :
    HasTokens (spacedText run) run := by
  obtain ⟨t, run, rfl⟩ := List.exists_cons_of_ne_nil hne
  refine hasTokens_of_shown standsTight ?_
    (isLexeme_text_of_writable hwritable hverbatim) ?_
  · rw [spacedText, String.toList_append, toList_textAfter]
  · refine (List.isChain_isInfix (t :: run)).imp fun u v hinfix htight => ?_
    refine ends_of_standsTight htight fun n hu hv => hdots n ?_
    rwa [hu, hv] at hinfix

/-! ## Types -/

/-- A type that is shown as it is written: no part of its name stands in quotes, and neither does
anything between its parentheses need an escape. -/
structure TypeName.IsVerbatim (t : TypeName) : Prop where
  name : ∀ n ∈ t.name.first :: t.name.more, ∃ s, n = .bare s
  arguments : ∀ args, t.arguments = some args → ∀ u ∈ args, u.IsVerbatim

/-- One of two tokens is a mark that keeps them apart without a blank. -/
def Parted (t u : Token) : Prop :=
  (∃ m, t = .mark m ∧ m ≠ .less) ∨
    ∃ m, u = .mark m ∧ m ≠ .greater ∧ (m = .dot → ∀ n, t ≠ .number n)

theorem Parted.ends {t u : Token} (h : Parted t u) : Ends t t.text.toList u.text.toList := by
  obtain ⟨m, rfl, hm⟩ | ⟨m, rfl, hm, hdot⟩ := h
  · exact .of_ne_less hm _ _
  · exact .of_mark (fun n hn he => absurd hn (hdot he n)) fun _ => hm

theorem Parted.of_left {m : Mark} {u : Token} (h : m ≠ .less) : Parted (.mark m) u :=
  .inl ⟨m, rfl, h⟩

theorem Parted.of_right {m : Mark} {t : Token} (h : m ≠ .greater) (hdot : m ≠ .dot) :
    Parted t (.mark m) :=
  .inr ⟨m, rfl, h, fun he => absurd he hdot⟩

namespace TypeName

theorem isChain_arrayTokens (t : Token) (isArray : Bool) :
    (t :: arrayTokens isArray).IsChain Parted := by
  cases isArray with
  | false => exact .singleton t
  | true =>
    exact .cons_cons (.of_right (by decide) (by decide))
      (.cons_cons (.of_left (by decide)) (.singleton _))

/-- Arguments are parted by their commas. The place in front of them is free behind a mark only. -/
theorem isChain_arguments {free : Bool} {before : Token} {args rest : List Token}
    (hargs : IsArgumentsFrom free args)
    (hfree : free = true → ∃ m, before = .mark m ∧ m ≠ .less)
    (hrest : (.mark .rightParen :: rest).IsChain Parted) :
    (before :: (args ++ .mark .rightParen :: rest)).IsChain Parted := by
  induction args generalizing free before with
  | nil => exact .cons_cons (.of_right (by decide) (by decide)) hrest
  | cons t args ih =>
    have hcomma {more : List Token} (ht : t = .mark .comma) (hmore : args = more)
        (h : IsArguments more) : (before :: (t :: args ++ .mark .rightParen :: rest)).IsChain Parted := by
      subst ht hmore
      exact .cons_cons (.of_right (by decide) (by decide))
        (@ih true _ h fun _ => ⟨.comma, rfl, by decide⟩)
    cases free with
    | false =>
      obtain he | ⟨more, he, hmore⟩ := hargs <;> cases he
      exact hcomma rfl rfl hmore
    | true =>
      obtain (he | ⟨more, he, hmore⟩) | ⟨u, more, he, harg, hmore⟩ := IsArguments.cases hargs <;>
        cases he
      · exact hcomma rfl rfl hmore
      · obtain ⟨m, rfl, hm⟩ := hfree rfl
        exact .cons_cons (.of_left hm) (@ih false _ hmore fun h => by cases h)

theorem isChain_argumentTokens {t : Token} {args : Option (List Token)} {rest : List Token}
    (hargs : ∀ as, args = some as → IsArguments as) (hrest : ∀ u, (u :: rest).IsChain Parted) :
    (t :: (argumentTokens args ++ rest)).IsChain Parted := by
  cases args with
  | none => exact hrest t
  | some args =>
    have hinner := @isChain_arguments true (.mark .leftParen) args rest (hargs args rfl)
      (fun _ => ⟨.leftParen, rfl, by decide⟩) (hrest _)
    have houter := List.IsChain.cons_cons (a := t) (.of_right (by decide) (by decide)) hinner
    simpa [argumentTokens] using houter

theorem isChain_moreTokens {n : Name} {more : List Name} {rest : List Token}
    (hrest : ∀ u, (u :: rest).IsChain Parted) :
    (n.token :: (QualifiedName.moreTokens more ++ rest)).IsChain Parted := by
  induction more generalizing n with
  | nil => exact hrest n.token
  | cons k more ih =>
    have hdot : Parted n.token (.mark .dot) :=
      .inr ⟨.dot, rfl, by decide, fun _ s => by cases n <;> simp [Name.token]⟩
    exact .cons_cons hdot (.cons_cons (.of_left (by decide)) ih)

theorem isChain_tokens {t : TypeName} (h : t.WellFormed) : t.tokens.IsChain Parted :=
  isChain_moreTokens fun _ => isChain_argumentTokens h fun u => isChain_arrayTokens u t.isArray

end TypeName

theorem shownBehind_tight (before : Token) (run : List Token) :
    shownBehind (fun _ _ => true) before run = run.flatMap fun u => u.text.toList := by
  induction run generalizing before with
  | nil => rfl
  | cons t run ih => simp [shownBehind, ih]

theorem QualifiedName.toList_text {q : QualifiedName}
    (h : ∀ n ∈ q.first :: q.more, ∃ s, n = .bare s) :
    q.text.toList = q.tokens.flatMap fun u => u.text.toList := by
  obtain ⟨first, more⟩ := q
  induction more generalizing first with
  | nil =>
    obtain ⟨s, rfl⟩ := h first (by simp)
    simp [text, tokens, moreTokens, Name.text, Name.token, Token.text]
  | cons n more ih =>
    obtain ⟨s, rfl⟩ := h first (by simp)
    have hmore := @ih n fun k hk => h k (List.mem_cons_of_mem _ hk)
    simp only [text, tokens, moreTokens] at hmore ⊢
    simp only [List.map_cons, String.intercalate_cons_cons, String.toList_append, hmore]
    simp [Name.text, Name.token, Token.text, Mark.text]

theorem TypeName.toList_text {t : TypeName} (h : t.IsVerbatim) :
    t.text.toList = t.tokens.flatMap fun u => u.text.toList := by
  obtain ⟨name, args, isArray⟩ := t
  have hname := QualifiedName.toList_text h.name
  cases args <;> cases isArray <;>
    simp [text, tokens, hname, argumentTokens, arrayTokens, Token.text, Mark.text,
      List.flatMap_map]

theorem TypeName.isVerbatim_of_mem_tokens {t : TypeName} (h : t.IsVerbatim) :
    ∀ u ∈ t.tokens, u.IsVerbatim := by
  obtain ⟨⟨first, more⟩, args, isArray⟩ := t
  have hnames : ∀ n ∈ first :: more, n.token.IsVerbatim := by
    intro n hn
    obtain ⟨s, rfl⟩ := h.name n hn
    trivial
  have hargs : ∀ u ∈ argumentTokens args, u.IsVerbatim := by
    cases args with
    | none => simp [argumentTokens]
    | some args =>
      simp only [argumentTokens, List.cons_append, List.forall_mem_cons, List.forall_mem_append]
      exact ⟨trivial, h.arguments args rfl, trivial, by simp⟩
  have harray : ∀ u ∈ arrayTokens isArray, u.IsVerbatim := by
    cases isArray with
    | false => simp [arrayTokens]
    | true => exact List.forall_mem_cons.2 ⟨trivial, List.forall_mem_cons.2 ⟨trivial, by simp⟩⟩
  obtain ⟨hfirst, hmore⟩ := List.forall_mem_cons.1 hnames
  simp only [tokens, QualifiedName.tokens, List.cons_append, List.forall_mem_cons,
    List.forall_mem_append]
  refine ⟨hfirst, fun u hu => ?_, hargs, harray⟩
  obtain ⟨n, hn, hu⟩ := List.mem_flatMap.1 hu
  simp only [List.mem_cons, List.not_mem_nil, or_false] at hu
  obtain rfl | rfl := hu
  · trivial
  · exact hmore n hn

theorem TypeName.hasTokens_text {t : TypeName} (hwell : t.WellFormed) (hwritable : Writable t.tokens)
    (hverbatim : t.IsVerbatim) : HasTokens t.text t.tokens := by
  have hlexemes := isLexeme_text_of_writable hwritable (isVerbatim_of_mem_tokens hverbatim)
  have htext := TypeName.toList_text hverbatim
  have hchain := isChain_tokens hwell
  obtain ⟨u, run, hrun⟩ : ∃ u run, t.tokens = u :: run := ⟨_, _, rfl⟩
  rw [hrun, List.flatMap_cons, ← shownBehind_tight u] at htext
  rw [hrun] at hlexemes hchain ⊢
  exact hasTokens_of_shown _ htext hlexemes (hchain.imp fun _ _ hparted _ => hparted.ends)

/-! ## Columns -/

/-- **The texts kept for a column read back as the tokens they were built from:** the text of each
setting that is no reference, unless a number in it would take a dot along or a text between quotes
is shown without its escapes; and the text of its type, if no part of the type's name stands in
quotes. -/
theorem hasTokens_column {source : String} {schema : Schema} (hparse : parse source = .ok schema) :
    (∃ ds, IsDocument source ds) ∧ ∀ ds, IsDocument source ds →
      ∀ (i j : Nat) (t : Table) (col : Column), schema.tables[i]? = some t →
        t.columns[j]? = some col → ∃ (b : TableBlock) (c : ColumnLine),
          (tableBlocks ds)[i]? = some b ∧ b.columnLines[j]? = some c ∧
          (∀ (k : Nat) (run : List Token), c.items[k]? = some (.plain run) →
            (∀ u ∈ run, u.IsVerbatim) → DotsApart run →
              ∃ a, col.attributes[k]? = some a ∧ HasTokens a run) ∧
          (c.type.IsVerbatim → HasTokens col.type c.type.tokens) := by
  refine ⟨exists_isDocument_of_parse hparse, fun ds hdocument i j t col ht hcol => ?_⟩
  obtain ⟨b, c, hb, hc, rfl, hwell, hwritable⟩ := hdocument.exists_columnLine hparse ht hcol
  obtain ⟨-, htype, hitems⟩ := c.writable_tokens.1 hwritable
  refine ⟨b, c, hb, hc, fun k run hk hverbatim hdots => ?_, TypeName.hasTokens_text hwell.type htype⟩
  have hmem := List.mem_of_getElem? hk
  have hne : run ≠ [] := (hwell.items_wellFormed _ hmem).1
  refine ⟨spacedText run, ?_, hasTokens_spacedText (hitems _ hmem) hne hverbatim hdots⟩
  simp [ColumnLine.column, hk, Setting.text]

/-- A string with an apostrophe, a sign in front of a number, and a number that ends in a dot right
before a dot; in the type, arguments and brackets. -/
theorem hasTokens_column_oddSettings :
    HasTokens "note: 'it\\'s'" [.word "note", .mark .colon, .string "it's"] ∧
      HasTokens "default: now(-1, 2..x)" [.word "default", .mark .colon, .word "now",
        .mark .leftParen, .mark .minus, .number "1", .mark .comma, .number "2.", .mark .dot,
        .word "x", .mark .rightParen] ∧
      HasTokens "app.kind(2,'')[]" [.word "app", .mark .dot, .word "kind", .mark .leftParen,
        .number "2", .mark .comma, .string "", .mark .rightParen, .mark .leftBracket,
        .mark .rightBracket] := by
  let note : List Token := [.word "note", .mark .colon, .string "it's"]
  let value : List Token := [.word "default", .mark .colon, .word "now", .mark .leftParen,
    .mark .minus, .number "1", .mark .comma, .number "2.", .mark .dot, .word "x",
    .mark .rightParen]
  let type : TypeName :=
    ⟨⟨.bare "app", [.bare "kind"]⟩, some [.number "2", .mark .comma, .string ""], true⟩
  let line : ColumnLine := ⟨.bare "a", type, some ⟨[.plain note, .plain value], false⟩⟩
  let block : TableBlock := ⟨⟨"Table", 0, ⟨.bare "t", []⟩, none⟩, none, [.column line]⟩
  have hdocument : IsDocument ("Table t \x7b a app . kind ( 2,'') [ ] [note:'it\\'s', " ++
      "default : now ( - 1 , 2. . x)] \x7d") [.table block] :=
    isDocument_of_tokenize (by decide +kernel) (by decide +kernel)
  have hparse := (hdocument.parse_eq_ok_iff_admissible _).2
    ⟨⟨by decide +kernel, .inl (by decide +kernel)⟩, rfl⟩
  obtain ⟨b, c, hb, hc, hsettings, htype⟩ :=
    (hasTokens_column hparse).2 _ hdocument 0 0 _ _ rfl rfl
  obtain rfl : block = b := Option.some.inj hb
  obtain rfl : line = c := Option.some.inj hc
  obtain ⟨_, hnote, hnote'⟩ := hsettings 0 note rfl (by simp [note, Token.IsVerbatim])
    (by simp [DotsApart, note, List.infix_cons_iff])
  obtain ⟨_, hvalue, hvalue'⟩ := hsettings 1 value rfl (by simp [value, Token.IsVerbatim])
    (by simp [DotsApart, value, List.infix_cons_iff])
  obtain rfl := Option.some.inj hnote
  obtain rfl := Option.some.inj hvalue
  have htype' := htype ⟨by simp [line, type], by simp [line, type, Token.IsVerbatim]⟩
  exact ⟨hnote', hvalue', htype'⟩

end SchemaDiagram.Document
