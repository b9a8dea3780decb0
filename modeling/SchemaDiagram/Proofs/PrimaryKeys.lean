/-
Which settings make a primary key (`isPrimaryKey_iff`).

A column is asked for the texts of its settings, not for their tokens. What is
shown begins with a letter only if the first token is a word, and behind a word
the text goes on with a blank or with a mark, neither of which is a letter. So
a text of letters is shown for one word alone (`eq_word_of_isLetters`), and one
blank in it stands between two words.
-/
import Mathlib
import SchemaDiagram.Proofs.ShownTexts

namespace SchemaDiagram

namespace Text

theorem toLower_of_not_isAlpha {c : Char} (h : c.isAlpha = false) : c.toLower = c :=
  Char.toLower_eq_of_not_isUpper fun hupper => by simp [Char.isAlpha, hupper] at h

/-- Only a letter has another lower case. -/
theorem eq_of_toLower {c d : Char} (h : c.toLower = d) (hd : d.isAlpha = false) : c = d := by
  rw [← h, Char.isAlpha_toLower_eq_isAlpha] at hd
  rw [← h, toLower_of_not_isAlpha hd]

/-- One or more of the letters A to Z, in any case. -/
def IsLetters (s : List Char) : Prop := s ≠ [] ∧ ∀ c ∈ s, c.isAlpha = true

theorem IsLetters.of_toLower {s k : List Char} (h : s.map Char.toLower = k.map Char.toLower)
    (hk : IsLetters k) : IsLetters s := by
  constructor
  · rintro rfl
    exact hk.1 (List.map_eq_nil_iff.1 h.symm)
  · intro c hc
    have hmem : c.toLower ∈ k.map Char.toLower := h ▸ List.mem_map_of_mem hc
    obtain ⟨d, hd, he⟩ := List.mem_map.1 hmem
    rw [← Char.isAlpha_toLower_eq_isAlpha, ← he, Char.isAlpha_toLower_eq_isAlpha]
    exact hk.2 d hd

theorem IsLetters.of_sameWord {s k : String} (h : sameWord s k = true)
    (hk : IsLetters k.toList) : IsLetters s.toList :=
  .of_toLower (by simpa [sameWord] using h) hk

theorem isAlpha_eq_false_of_isDigit {c : Char} (h : c.isDigit = true) : c.isAlpha = false := by
  have hdigit : 48 ≤ c.toNat ∧ c.toNat ≤ 57 := by
    simpa [Char.isDigit, UInt32.le_iff_toNat_le] using h
  simp only [Char.isAlpha, Char.isUpper, Char.isLower, Bool.or_eq_false_iff, Bool.and_eq_false_iff,
    decide_eq_false_iff_not, ge_iff_le, UInt32.le_iff_toNat_le]
  have hA : 'A'.val.toNat = 65 := rfl
  have ha : 'a'.val.toNat = 97 := rfl
  have hc : c.val.toNat = c.toNat := rfl
  omega

theorem isName_ne_blank {s : List Char} (h : isName s = true) : ' ' ∉ s := by
  intro hblank
  cases s with
  | nil => cases hblank
  | cons c s =>
    simp only [isName, Bool.and_eq_true, List.all_eq_true] at h
    obtain rfl | hmem := List.mem_cons.1 hblank
    · exact absurd h.1 (by decide +kernel)
    · exact absurd (h.2 _ hmem) (by decide +kernel)

end Text

/-- What a token is shown with begins with a letter only if it is a word. -/
theorem Token.exists_cons_text {t : Token} (h : t.isPrintable = true) :
    ∃ c s, t.text.toList = c :: s ∧ (c.isAlpha = true → ∃ w, t = .word w) := by
  cases t with
  | word w =>
    obtain ⟨c, s, hw⟩ := List.exists_cons_of_ne_nil (l := w.toList) fun hnil => by
      simp [isPrintable, hnil, Text.isName] at h
    exact ⟨c, s, hw, fun _ => ⟨w, rfl⟩⟩
  | number n =>
    obtain ⟨c, s, hn⟩ := List.exists_cons_of_ne_nil (l := n.toList) fun hnil => by
      simp [isPrintable, hnil, Text.isNumeral] at h
    refine ⟨c, s, hn, fun hc => ?_⟩
    simp only [isPrintable, hn, Text.isNumeral, Bool.and_eq_true] at h
    rw [Text.isAlpha_eq_false_of_isDigit h.1.1] at hc
    cases hc
  | color s =>
    simp only [isPrintable, Text.isColor] at h
    split at h
    · rename_i hs
      exact ⟨_, _, hs, fun hc => absurd hc (by decide)⟩
    · cases h
  | quoted | string | expression =>
    simp only [text, String.toList_append]
    exact ⟨_, _, rfl, fun hc => absurd hc (by decide)⟩
  | mark m =>
    cases m
    all_goals exact ⟨_, _, rfl, fun hc => absurd hc (by decide)⟩
  | endOfInput => cases h

namespace Document

/-! ## Texts of letters -/

theorem exists_mark_of_standsTight {w : String} {u : Token}
    (h : standsTight (.word w) u = true) : ∃ m, u = .mark m := by
  cases u with
  | mark m => exact ⟨m, rfl⟩
  | _ => cases h

/-- Behind a word the text goes on with no letter: with the mark that stands tight there, or with a
blank and the text of what follows. -/
theorem exists_textAfter_word (w : String) (u : Token) (rest : List Token) :
    ∃ c s, (textAfter (.word w) (u :: rest)).toList = c :: s ∧ c.isAlpha = false ∧
      (c = ' ' → s = (spacedText (u :: rest)).toList) := by
  rw [textAfter]
  split
  · rename_i htight
    obtain ⟨m, rfl⟩ := exists_mark_of_standsTight htight
    obtain ⟨c, s, hm, hc, hblank⟩ : ∃ c s, m.text.toList = c :: s ∧ c.isAlpha = false ∧ c ≠ ' ' := by
      cases m <;> exact ⟨_, _, rfl, by decide, by decide⟩
    exact ⟨c, s ++ (textAfter (.mark m) rest).toList, by simp [Token.text, hm], hc,
      fun he => absurd he hblank⟩
  · exact ⟨' ', (spacedText (u :: rest)).toList, by simp [spacedText], by decide, fun _ => rfl⟩

theorem exists_word_of_head {run : List Token} {c : Char} {s : List Char}
    (hwritable : Writable run) (htext : (spacedText run).toList = c :: s) (hc : c.isAlpha = true) :
    ∃ w rest, run = .word w :: rest ∧ Text.isName w.toList = true := by
  cases run with
  | nil => cases htext
  | cons t rest =>
    obtain ⟨⟨text, hlexeme⟩, -⟩ := writable_cons.1 hwritable
    obtain ⟨d, r, hshown, hword⟩ := Token.exists_cons_text hlexeme.isPrintable
    rw [spacedText, String.toList_append, hshown] at htext
    obtain ⟨w, rfl⟩ := hword ((List.cons.inj htext).1 ▸ hc)
    exact ⟨w, rest, rfl, hlexeme.isPrintable⟩

theorem spacedText_word (w : String) : spacedText [.word w] = w := by
  simp [spacedText, textAfter, Token.text]

/-- A text of letters is shown for one word alone. -/
theorem eq_word_of_isLetters {run : List Token} (hwritable : Writable run)
    (h : Text.IsLetters (spacedText run).toList) :
    ∃ w, run = [.word w] ∧ w = spacedText run := by
  obtain ⟨c, s, htext⟩ := List.exists_cons_of_ne_nil h.1
  obtain ⟨w, rest, rfl, -⟩ := exists_word_of_head hwritable htext (h.2 c (by simp [htext]))
  cases rest with
  | nil => exact ⟨w, rfl, (spacedText_word w).symm⟩
  | cons u rest =>
    obtain ⟨d, r, htail, hd, -⟩ := exists_textAfter_word w u rest
    have hletter := h.2 d (by simp [spacedText, htail])
    rw [hd] at hletter
    cases hletter

/-- Two splits of one list are the same if neither character stands in front of the other one. -/
theorem eq_of_append_cons {a b x y : List Char} {d e : Char} (hd : d ∉ b) (he : e ∉ a)
    (h : a ++ d :: x = b ++ e :: y) : a = b ∧ d = e ∧ x = y := by
  obtain ⟨mid, rfl, hmid⟩ | ⟨mid, rfl, hmid⟩ := List.append_eq_append_iff.1 h
  · cases mid with
    | nil => exact ⟨(List.append_nil a).symm, List.cons.inj hmid⟩
    | cons c mid => exact absurd (by simp [(List.cons.inj hmid).1]) hd
  · cases mid with
    | nil => exact ⟨List.append_nil b, (List.cons.inj hmid).1.symm, (List.cons.inj hmid).2.symm⟩
    | cons c mid => exact absurd (by simp [(List.cons.inj hmid).1]) he

/-- A text of letters with one blank between them is shown for two words alone. -/
theorem eq_words_of_isLetters {run : List Token} {a b : List Char} (hwritable : Writable run)
    (ha : Text.IsLetters a) (hb : Text.IsLetters b)
    (h : (spacedText run).toList = a ++ ' ' :: b) :
    ∃ v w, run = [.word v, .word w] ∧ v.toList = a ∧ w.toList = b := by
  obtain ⟨c, s, rfl⟩ := List.exists_cons_of_ne_nil ha.1
  obtain ⟨v, rest, rfl, hname⟩ := exists_word_of_head hwritable h (ha.2 c (by simp))
  have hblank : ' ' ∉ v.toList := Text.isName_ne_blank hname
  cases rest with
  | nil =>
    rw [spacedText_word] at h
    exact absurd (by simp [h]) hblank
  | cons u rest =>
    -- Behind the first word comes the first character that is no letter, so it is the blank.
    obtain ⟨d, r, htail, hd, hspace⟩ := exists_textAfter_word v u rest
    have hout : d ∉ c :: s := fun hmem => by simp [ha.2 d hmem] at hd
    rw [spacedText, String.toList_append, htail] at h
    obtain ⟨hv, rfl, rfl⟩ := eq_of_append_cons hout hblank h
    rw [hspace rfl] at hb
    obtain ⟨w, hw, hlast⟩ := eq_word_of_isLetters (writable_cons.1 hwritable).2 hb
    exact ⟨v, w, by rw [hw], hv, by rw [hlast, hspace rfl]⟩

/-! ## Keys -/

/-- The bare word `pk`, or the two bare words `primary` and `key`, in any case. -/
def IsKeyRun (toks : List Token) : Prop :=
  (∃ w, toks = [.word w] ∧ Text.sameWord w "pk" = true) ∨
    ∃ v w, toks = [.word v, .word w] ∧ Text.sameWord v "primary" = true ∧
      Text.sameWord w "key" = true

theorem exists_word_of_sameWord_pk {run : List Token} (hwritable : Writable run)
    (h : Text.sameWord (spacedText run) "pk" = true) :
    ∃ w, run = [.word w] ∧ Text.sameWord w "pk" = true := by
  have hletters := Text.IsLetters.of_sameWord h ⟨by decide, by simp⟩
  obtain ⟨w, hrun, hw⟩ := eq_word_of_isLetters hwritable hletters
  exact ⟨w, hrun, hw ▸ h⟩

theorem exists_words_of_sameWord_primaryKey {run : List Token} (hwritable : Writable run)
    (h : Text.sameWord (spacedText run) "primary key" = true) :
    ∃ v w, run = [.word v, .word w] ∧ Text.sameWord v "primary" = true ∧
      Text.sameWord w "key" = true := by
  have hlower : (spacedText run).toList.map Char.toLower =
      "primary".toList.map Char.toLower ++ ' ' :: "key".toList.map Char.toLower := by
    simpa [Text.sameWord] using h
  obtain ⟨a, more, hsplit, ha, hmore⟩ := List.map_eq_append_iff.1 hlower
  obtain ⟨c, b, rfl, hc, hb⟩ := List.map_eq_cons_iff.1 hmore
  obtain rfl := Text.eq_of_toLower hc (by decide)
  obtain ⟨v, w, hrun, rfl, rfl⟩ := eq_words_of_isLetters hwritable
    (.of_toLower ha ⟨by decide, by simp⟩)
    (.of_toLower hb ⟨by decide, by simp⟩) hsplit
  exact ⟨v, w, hrun, by rw [Text.sameWord, ha, beq_self_eq_true],
    by rw [Text.sameWord, hb, beq_self_eq_true]⟩

/-- A setting makes a primary key exactly by its tokens. -/
theorem Setting.isKey_iff_isKeyRun {s : Setting} (hwritable : Writable s.tokens) :
    s.isKey = true ↔ IsKeyRun s.tokens := by
  cases s with
  | reference keyword cardinality target =>
    rw [Setting.isKey_reference]
    simp [IsKeyRun, tokens]
  | plain run =>
    rw [isKey, Bool.or_eq_true, text, tokens]
    constructor
    · rintro (hpk | hprimary)
      · exact .inl (exists_word_of_sameWord_pk hwritable hpk)
      · exact .inr (exists_words_of_sameWord_primaryKey hwritable hprimary)
    · rintro (⟨w, rfl, hw⟩ | ⟨v, w, rfl, hv, hw⟩)
      · exact .inl (by rwa [spacedText_word])
      · refine .inr ?_
        have htight : standsTight (.word v) (.word w) = false := rfl
        have hlower : v.toList.map Char.toLower ++ ' ' :: w.toList.map Char.toLower =
            "primary key".toList.map Char.toLower := by
          simp only [Text.sameWord, beq_iff_eq] at hv hw
          rw [hv, hw]
          decide
        simpa [Text.sameWord, spacedText, textAfter, Token.text, htight] using hlower

/-- **A column is a primary key exactly if one of its own settings is the bare word `pk` or the two
bare words `primary key`, in any case.** Only the tokens of the settings count: not how they are laid
out, nor what else their text could have been made of. -/
theorem isPrimaryKey_iff {source : String} {schema : Schema} (hparse : parse source = .ok schema) :
    (∃ ds, IsDocument source ds) ∧ ∀ ds, IsDocument source ds →
      ∀ (i j : Nat) (t : Table) (col : Column), schema.tables[i]? = some t →
        t.columns[j]? = some col → ∃ (b : TableBlock) (c : ColumnLine),
          (tableBlocks ds)[i]? = some b ∧ b.columnLines[j]? = some c ∧
          (col.isPrimaryKey = true ↔ ∃ s ∈ c.items, IsKeyRun s.tokens) := by
  refine ⟨exists_isDocument_of_parse hparse, fun ds hdocument i j t col ht hcol => ?_⟩
  obtain ⟨b, c, hb, hc, rfl, -, hwritable⟩ := hdocument.exists_columnLine hparse ht hcol
  obtain ⟨-, -, hitems⟩ := c.writable_tokens.1 hwritable
  refine ⟨b, c, hb, hc, ?_⟩
  rw [c.isPrimaryKey_column, List.any_eq_true]
  constructor
  · rintro ⟨s, hs, hkey⟩
    exact ⟨s, hs, (Setting.isKey_iff_isKeyRun (hitems s hs)).1 hkey⟩
  · rintro ⟨s, hs, hkey⟩
    exact ⟨s, hs, (Setting.isKey_iff_isKeyRun (hitems s hs)).2 hkey⟩

/-- A comment between the two words makes no difference, but quotes and further tokens do. -/
theorem isPrimaryKey_iff_oddKeys : ∃ schema t col col',
    parse ("Table t \x7b a int [Primary /*,*/ KEY]\n" ++
        "b int ['pk', \"primary key\", pk 1, ref: > pk.key] \x7d") = .ok schema ∧
      schema.tables[0]? = some t ∧ t.columns[0]? = some col ∧ t.columns[1]? = some col' ∧
      col.isPrimaryKey = true ∧ col'.isPrimaryKey = false := by
  let line : ColumnLine := ⟨.bare "a", ⟨⟨.bare "int", []⟩, none, false⟩,
    some ⟨[.plain [.word "Primary", .word "KEY"]], false⟩⟩
  let line' : ColumnLine := ⟨.bare "b", ⟨⟨.bare "int", []⟩, none, false⟩,
    some ⟨[.plain [.string "pk"], .plain [.quoted "primary key"], .plain [.word "pk", .number "1"],
      .reference "ref" .manyToOne ⟨⟨.bare "pk", []⟩, .bare "key"⟩], false⟩⟩
  let block : TableBlock :=
    ⟨⟨"Table", 0, ⟨.bare "t", []⟩, none⟩, none, [.column line, .column line']⟩
  have hdocument : IsDocument ("Table t \x7b a int [Primary /*,*/ KEY]\n" ++
      "b int ['pk', \"primary key\", pk 1, ref: > pk.key] \x7d") [.table block] :=
    isDocument_of_tokenize (by decide +kernel) (by decide +kernel)
  have hparse := (hdocument.parse_eq_ok_iff_admissible _).2
    ⟨⟨by decide +kernel, .inl (by decide +kernel)⟩, rfl⟩
  obtain ⟨b, c, hb, hc, hkey⟩ := (isPrimaryKey_iff hparse).2 _ hdocument 0 0 _ _ rfl rfl
  obtain ⟨b', c', hb', hc', hkey'⟩ := (isPrimaryKey_iff hparse).2 _ hdocument 0 1 _ _ rfl rfl
  obtain rfl : block = b := Option.some.inj hb
  obtain rfl : block = b' := Option.some.inj hb'
  obtain rfl : line = c := Option.some.inj hc
  obtain rfl : line' = c' := Option.some.inj hc'
  refine ⟨_, _, _, _, hparse, rfl, rfl, rfl, hkey.2 ⟨_, List.mem_cons_self, ?_⟩, ?_⟩
  · exact .inr ⟨_, _, rfl, by decide, by decide⟩
  · rw [Bool.eq_false_iff]
    intro hprimary
    obtain ⟨s, hs, hrun⟩ := hkey'.1 hprimary
    have hnone : ∀ s ∈ line'.items, ¬ IsKeyRun s.tokens := by
      simp [line', ColumnLine.items, IsKeyRun, Setting.tokens]
    exact hnone s hs hrun

end Document

end SchemaDiagram
