/-
The readers of definitions against the grammar: columns and the other
members of tables, tables, references, and any definition at all.

Members and references are told apart by the word they begin with and the
mark behind it, so the lemmas on completeness first settle which branch is
taken. A table block keeps the line of its keyword, which no token spells:
what is read is the block given, on the line of the text (`atLine`).
-/
import SchemaDiagram.Proofs.Phrases

namespace SchemaDiagram.Document

/-! ## Items up to a closing brace -/

section Items

variable {α : Type} {write : α → List Token} {readAll : List Located → Step (List α)}
  {P : α → Prop}

theorem separate_of_spells_items (hname : ∀ a, ∃ (n : Name) (x : List Token), write a = n.token :: x)
    {toks rest : List Located} {as : List α} {x : List Token}
    (h : Spells toks (as.flatMap write ++ .mark .rightBrace :: x) rest) : Separate toks := by
  cases as with
  | nil => exact .of_rightBrace h
  | cons a as =>
    obtain ⟨n, y, hy⟩ := hname a
    rw [List.flatMap_cons, hy, List.cons_append, List.cons_append] at h
    exact .of_name h

/-- A loop that reads one item after the other, and stops behind a closing brace, reads the items
that are written in front of one. -/
theorem readAll_of_spells_items
    (hname : ∀ a, ∃ (n : Name) (x : List Token), write a = n.token :: x)
    (hclose : ∀ {toks rest}, Spells toks [.mark .rightBrace] rest → readAll toks = .ok [] rest)
    (hcons : ∀ {toks rest a}, P a → Spells toks (write a) rest → Separate rest →
      readAll toks = (readAll rest).map (a :: ·))
    {toks rest : List Located} {as : List α} (has : ∀ a ∈ as, P a)
    (h : Spells toks (as.flatMap write ++ [.mark .rightBrace]) rest) :
    readAll toks = .ok as rest := by
  induction as generalizing toks with
  | nil => exact hclose h
  | cons a as ih =>
    rw [List.forall_mem_cons] at has
    rw [List.flatMap_cons, List.append_assoc] at h
    obtain ⟨r, ha, h⟩ := spells_append_iff.1 h
    rw [hcons has.1 ha (separate_of_spells_items hname h), ih has.2 h]
    rfl

end Items

/-! ## Columns -/

namespace ColumnLine

theorem wellFormed_of_read {toks rest : List Located} {c : ColumnLine}
    (h : read toks = .ok c rest) : c.WellFormed := by
  obtain ⟨name, r, -, h⟩ := Step.bind_eq_ok_iff.1 h
  obtain ⟨type, r', ht, h⟩ := Step.bind_eq_ok_iff.1 h
  obtain ⟨ss, hs, rfl⟩ := Step.map_eq_ok_iff.1 h
  obtain ⟨htype, harray⟩ := TypeName.wellFormed_of_read ht
  refine ⟨htype, Settings.wellFormed_of_readOptional hs, ?_⟩
  rintro hfalse rfl
  obtain ⟨b, hl, hr⟩ := spells_append_iff (x := [.mark .leftBracket]) |>.1
    (Settings.spells_of_readOptional hs)
  refine harray hfalse ?_
  rw [TypeName.ArrayNext, afterMark?_eq_some_iff.2 hl, Option.bind_some,
    afterMark?_eq_some_iff.2 hr]
  rfl

/-- Settings behind a type are not taken for the brackets of an array. -/
theorem not_arrayNext {toks rest : List Located} {c : ColumnLine} (hc : c.WellFormed)
    (h : Spells toks (Settings.optionalTokens c.settings) rest)
    (hr : afterMark? .leftBracket rest = none) (harray : c.type.isArray = false) :
    ¬ TypeName.ArrayNext toks := by
  rw [TypeName.ArrayNext]
  cases hs : c.settings with
  | none =>
    rw [hs] at h
    rw [spells_nil_iff.1 h, hr]
    simp
  | some ss =>
    rw [hs] at h
    obtain ⟨t, toks, rfl, ht, h⟩ := spells_cons_iff.1 h
    rw [afterMark?_cons_self ht, Option.bind_some]
    have hss := hc.settings ss hs
    have hi : ss.items ≠ [] := by
      intro hi
      rw [hss.eq_of_items_eq_nil hi] at hs
      exact hc.array harray hs
    rw [Settings.not_rightBracket_of_spells hss hi h]
    simp

theorem read_of_spells {toks rest : List Located} {c : ColumnLine} (hc : c.WellFormed)
    (h : Spells toks c.tokens rest) (hr : Separate rest) : read toks = .ok c rest := by
  obtain ⟨r, hname, h⟩ := spells_append_iff (x := [c.name.token]) |>.1 h
  obtain ⟨r', htype, hsettings⟩ := spells_append_iff (x := c.type.tokens) |>.1 h
  have hr' : afterMark? .dot r' = none ∧ afterMark? .leftParen r' = none := by
    cases hs : c.settings with
    | none =>
      rw [hs] at hsettings
      rw [spells_nil_iff.1 hsettings]
      exact ⟨hr.dot, hr.paren⟩
    | some ss =>
      rw [hs] at hsettings
      obtain ⟨t, r', rfl, ht, -⟩ := spells_cons_iff.1 hsettings
      exact ⟨afterMark?_cons_of_ne (by simp [ht]), afterMark?_cons_of_ne (by simp [ht])⟩
  have htype' := TypeName.read_of_spells hc.type htype hr'.1 hr'.2
    (not_arrayNext hc hsettings hr.bracket)
  simp only [read, Name.read_of_spells hname, htype', Step.bind,
    Settings.readOptional_of_spells hc.settings hsettings fun _ => hr.bracket, Step.map]

end ColumnLine

/-! ## Members of a table -/

namespace Member

theorem wellFormed_of_read {toks rest : List Located} {m : Member} (h : read toks = .ok m rest) :
    m.WellFormed := by
  unfold read at h
  split at h
  · rename_i hk
    obtain ⟨body, hb, rfl⟩ := Step.map_eq_ok_iff.1 h
    exact ⟨.inl (afterKeywordMark?_eq_some_iff.1 hk).2, (Block.readBody_eq_ok_iff.1 hb).1⟩
  split at h
  · rename_i hk
    obtain ⟨s, -, rfl⟩ := Step.map_eq_ok_iff.1 h
    exact (afterKeywordMark?_eq_some_iff.1 hk).2
  split at h
  · rename_i hk
    obtain ⟨body, hb, rfl⟩ := Step.map_eq_ok_iff.1 h
    exact ⟨.inr (afterKeywordMark?_eq_some_iff.1 hk).2, (Block.readBody_eq_ok_iff.1 hb).1⟩
  · obtain ⟨c, hc, rfl⟩ := Step.map_eq_ok_iff.1 h
    exact ColumnLine.wellFormed_of_read hc

/-- Every member begins with a name, which may be a keyword. -/
theorem exists_tokens_eq_cons (m : Member) : ∃ (n : Name) (x : List Token), m.tokens = n.token :: x := by
  cases m with
  | column line => exact ⟨line.name, _, rfl⟩
  | note keyword text => exact ⟨.bare keyword, _, rfl⟩
  | block keyword body => exact ⟨.bare keyword, _, rfl⟩

theorem read_block {toks rest : List Located} {keyword : String} {body : List Token}
    (hm : (block keyword body).WellFormed) (h : Spells toks (block keyword body).tokens rest) :
    read toks = .ok (.block keyword body) rest := by
  obtain ⟨hk, hbody⟩ := hm
  obtain ⟨r, hhead, h⟩ := spells_append_iff (x := [.word keyword, .mark .leftBrace]) |>.1 h
  have hread := Block.readBody_eq_ok_iff.2 ⟨hbody, h⟩
  obtain ⟨t, a, rfl, ht, h₁⟩ := spells_cons_iff.1 hhead
  obtain ⟨u, a, rfl, hu, -⟩ := spells_cons_iff.1 h₁
  rw [read]
  cases hi : Text.sameWord keyword "indexes" with
  | true =>
    rw [afterKeywordMark?_eq_some_iff.2 ⟨hhead, hi⟩]
    simp only [hread, Step.map]
  | false =>
    have hnote : Text.sameWord keyword "note" = true := by simpa [hi] using hk
    have hindexes : afterKeywordMark? "indexes" .leftBrace (t :: u :: a) = none := by
      rw [afterKeywordMark?, afterKeyword?_eq_none ht hi]
    rw [hindexes, afterKeywordMark?_eq_none (m := .colon) (by simp [hu]),
      afterKeywordMark?_eq_some_iff.2 ⟨hhead, hnote⟩]
    simp only [hread, Step.map]

theorem read_note {toks rest : List Located} {keyword text : String}
    (hm : (note keyword text).WellFormed) (h : Spells toks (note keyword text).tokens rest) :
    read toks = .ok (.note keyword text) rest := by
  obtain ⟨r, hhead, htext⟩ := spells_append_iff (x := [.word keyword, .mark .colon]) |>.1 h
  obtain ⟨t, a, rfl, -, h₁⟩ := spells_cons_iff.1 hhead
  obtain ⟨u, a, rfl, hu, -⟩ := spells_cons_iff.1 h₁
  rw [read, afterKeywordMark?_eq_none (m := .leftBrace) (by simp [hu]),
    afterKeywordMark?_eq_some_iff.2 ⟨hhead, hm⟩]
  simp only [readNoteText_of_spells htext, Step.map]

/-- With a name behind its first name a member is a column. -/
theorem read_eq_column {toks rest : List Located} {k : Token} {n : Name} {x : List Token}
    (h : Spells toks (k :: n.token :: x) rest) : read toks = (ColumnLine.read toks).map .column := by
  obtain ⟨t, a, rfl, -, h⟩ := spells_cons_iff.1 h
  obtain ⟨u, a, rfl, hu, -⟩ := spells_cons_iff.1 h
  have hmark : ∀ m, u.token ≠ .mark m := by simp [hu]
  rw [read, afterKeywordMark?_eq_none (hmark _), afterKeywordMark?_eq_none (hmark _),
    afterKeywordMark?_eq_none (hmark _)]

theorem read_column {toks rest : List Located} {c : ColumnLine} (hm : c.WellFormed)
    (h : Spells toks c.tokens rest) (hr : Separate rest) : read toks = .ok (.column c) rest := by
  rw [read_eq_column (n := c.type.name.first) h, ColumnLine.read_of_spells hm h hr]
  rfl

theorem read_of_spells {toks rest : List Located} {m : Member} (hm : m.WellFormed)
    (h : Spells toks m.tokens rest) (hr : Separate rest) : read toks = .ok m rest := by
  cases m with
  | column line => exact read_column hm h hr
  | note keyword text => exact read_note hm h
  | block keyword body => exact read_block hm h

/-- One more member in front of what `readAll` reads. -/
theorem readAll_cons {toks rest : List Located} {m : Member} (hm : m.WellFormed)
    (h : Spells toks m.tokens rest) (hr : Separate rest) :
    readAll toks = (readAll rest).map (m :: ·) := by
  obtain ⟨n, x, hx⟩ := m.exists_tokens_eq_cons
  rw [readAll, afterMark?_eq_none_of_name (hx ▸ h)]
  simp only [atEnd_eq_false_of_name (hx ▸ h), Bool.false_eq_true, if_false]
  split
  · rename_i he
    rw [read_of_spells hm h hr] at he
    cases he
  · rename_i he
    rw [read_of_spells hm h hr] at he
    cases he
    rfl

theorem separate_of_spells {toks rest : List Located} {ms : List Member} {n : Name}
    {x : List Token} (h : Spells toks (ms.flatMap tokens ++ n.token :: x) rest) : Separate toks := by
  cases ms with
  | nil => exact .of_name h
  | cons m ms =>
    obtain ⟨n', y, hy⟩ := m.exists_tokens_eq_cons
    rw [List.flatMap_cons, hy, List.cons_append, List.cons_append] at h
    exact .of_name h

/-- Members in front of what `readAll` reads, if another one follows. -/
theorem readAll_append {toks mid rest : List Located} {ms : List Member} {n : Name}
    {x : List Token} (hms : ∀ m ∈ ms, m.WellFormed) (h : Spells toks (ms.flatMap tokens) mid)
    (hmid : Spells mid (n.token :: x) rest) : readAll toks = (readAll mid).map (ms ++ ·) := by
  induction ms generalizing toks with
  | nil =>
    rw [spells_nil_iff.1 h]
    cases readAll mid <;> rfl
  | cons m ms ih =>
    obtain ⟨r, hm, h⟩ := spells_append_iff.1 h
    rw [readAll_cons (hms m (by simp)) hm (separate_of_spells (h.append hmid)),
      ih (fun m hm => hms m (by simp [hm])) h]
    cases readAll mid <;> rfl

/-- Behind an opening brace exactly the well-formed members up to the closing one are read. -/
theorem readAll_eq_ok_iff {toks rest : List Located} {ms : List Member} :
    readAll toks = .ok ms rest ↔
      (∀ m ∈ ms, m.WellFormed) ∧ Spells toks (ms.flatMap tokens ++ [.mark .rightBrace]) rest := by
  constructor
  · intro h
    refine ⟨?_, spells_of_readAll h⟩
    fun_induction readAll toks generalizing ms with
    | case1 => cases h; simp
    | case2 => cases h
    | case3 => cases h
    | case4 toks _ _ m r hm ih =>
      obtain ⟨ms', h', rfl⟩ := Step.map_eq_ok_iff.1 h
      exact List.forall_mem_cons.2 ⟨wellFormed_of_read hm, ih h'⟩
  · rintro ⟨hms, h⟩
    exact readAll_of_spells_items exists_tokens_eq_cons
      (fun h => by rw [readAll, afterMark?_eq_some_iff.2 h]) readAll_cons hms h

end Member

/-! ## Tables -/

namespace TableHead

theorem wellFormed_of_read {keyword : String} {line : Nat} {toks rest : List Located}
    {head : TableHead} (hk : Text.sameWord keyword "table" = true)
    (h : read keyword line toks = .ok head rest) : head.WellFormed := by
  obtain ⟨name, r, -, h⟩ := Step.bind_eq_ok_iff.1 h
  obtain ⟨short, ha, rfl⟩ := Step.map_eq_ok_iff.1 h
  refine ⟨hk, ?_⟩
  rintro word n rfl
  unfold readShortName at ha
  split at ha
  · cases ha
  · rename_i hw
    obtain ⟨n', -, he⟩ := Step.map_eq_ok_iff.1 ha
    cases he
    exact (afterKeyword?_eq_some_iff.1 hw).2

/-- The head on another line. -/
def atLine (h : TableHead) (line : Nat) : TableHead := { h with line := line }

/-- What follows a head: settings or the opening brace. -/
theorem read_of_spells {line : Nat} {t : Located} {toks rest : List Located} {head : TableHead}
    {m : Mark} (hh : head.WellFormed) (h : Spells toks head.tokens (t :: rest))
    (ht : t.token = .mark m) (hm : m ≠ .dot) :
    read head.keyword line toks = .ok (head.atLine line) (t :: rest) := by
  obtain ⟨r, hname, hshort⟩ := spells_append_iff.1 h
  have hr : afterMark? .dot r = none ∧ readShortName r = .ok head.shortName (t :: rest) := by
    rw [readShortName]
    cases hs : head.shortName with
    | none =>
      rw [hs] at hshort
      rw [spells_nil_iff.1 hshort, afterKeyword?_eq_none_of_ne (by simp [ht])]
      exact ⟨afterMark?_cons_of_ne (by simp [ht, hm]), rfl⟩
    | some short =>
      obtain ⟨word, n⟩ := short
      rw [hs] at hshort
      obtain ⟨r', hword, hn⟩ := spells_append_iff (x := [.word word]) |>.1 hshort
      rw [afterKeyword?_eq_some_iff.2 ⟨hword, hh.short word n hs⟩]
      refine ⟨?_, by simp only [Name.read_of_spells hn, Step.map]⟩
      obtain ⟨u, r, rfl, hu, -⟩ := spells_cons_iff.1 hword
      exact afterMark?_cons_of_ne (by simp [hu])
  simp only [read, QualifiedName.read_of_spells hname hr.1, Step.bind, hr.2, Step.map, atLine]

end TableHead

namespace TableBlock

def atLine (b : TableBlock) (line : Nat) : TableBlock := { b with head := b.head.atLine line }

theorem wellFormed_of_read {keyword : String} {line : Nat} {toks rest : List Located}
    {b : TableBlock} (hk : Text.sameWord keyword "table" = true)
    (h : read keyword line toks = .ok b rest) : b.WellFormed := by
  obtain ⟨head, r, hh, h⟩ := Step.bind_eq_ok_iff.1 h
  obtain ⟨ss, r', hs, h⟩ := Step.bind_eq_ok_iff.1 h
  split at h
  · cases h
  · obtain ⟨ms, hm, rfl⟩ := Step.map_eq_ok_iff.1 h
    exact ⟨TableHead.wellFormed_of_read hk hh, Settings.wellFormed_of_readOptional hs,
      (Member.readAll_eq_ok_iff.1 hm).1⟩

/-- Settings in front of an opening brace, or the brace itself, come next. -/
theorem readBody_of_spells {head : TableHead} {toks mid : List Located} {ss : Option Settings}
    (hss : Settings.OptionalWellFormed ss)
    (h : Spells toks (Settings.optionalTokens ss ++ [.mark .leftBrace]) mid) :
    readBody head toks = (Member.readAll mid).map fun ms => ⟨head, ss, ms⟩ := by
  obtain ⟨r, hs, hb⟩ := spells_append_iff.1 h
  have hr : ss = none → afterMark? .leftBracket r = none := fun _ => by
    obtain ⟨t, r, rfl, ht, -⟩ := spells_cons_iff.1 hb
    exact afterMark?_cons_of_ne (by simp [ht])
  simp only [readBody, Settings.readOptional_of_spells hss hs hr, Step.bind,
    afterMark?_eq_some_iff.2 hb]

theorem read_of_spells {line : Nat} {toks rest : List Located} {b : TableBlock}
    (hb : b.WellFormed)
    (h : Spells toks (b.head.tokens ++ (Settings.optionalTokens b.settings ++
      .mark .leftBrace :: (b.members.flatMap Member.tokens ++ [.mark .rightBrace]))) rest) :
    read b.head.keyword line toks = .ok (b.atLine line) rest := by
  obtain ⟨r, hhead, h⟩ := spells_append_iff.1 h
  have hr : ∃ t r', r = t :: r' ∧ ∃ m, t.token = .mark m ∧ m ≠ .dot := by
    cases hs : b.settings with
    | none =>
      rw [hs] at h
      obtain ⟨t, r', rfl, ht, -⟩ := spells_cons_iff.1 h
      exact ⟨t, r', rfl, _, ht, by simp⟩
    | some ss =>
      rw [hs] at h
      obtain ⟨t, r', rfl, ht, -⟩ := spells_cons_iff.1 h
      exact ⟨t, r', rfl, _, ht, by simp⟩
  obtain ⟨t, r', rfl, m, ht, hm⟩ := hr
  have h : Spells (t :: r') ((Settings.optionalTokens b.settings ++ [.mark .leftBrace]) ++
      (b.members.flatMap Member.tokens ++ [.mark .rightBrace])) rest := by simpa using h
  obtain ⟨mid, hopen, hmembers⟩ := spells_append_iff.1 h
  simp only [read, TableHead.read_of_spells hb.head hhead ht hm, Step.bind,
    readBody_of_spells hb.settings hopen, Member.readAll_eq_ok_iff.2 ⟨hb.members, hmembers⟩,
    Step.map, atLine]

end TableBlock

/-! ## References -/

namespace Reference

theorem wellFormed_of_read {toks rest : List Located} {ref : Reference}
    (h : read toks = .ok ref rest) : ref.WellFormed := by
  obtain ⟨source, r, -, h⟩ := Step.bind_eq_ok_iff.1 h
  obtain ⟨c, r', -, h⟩ := Step.bind_eq_ok_iff.1 h
  obtain ⟨target, r'', -, h⟩ := Step.bind_eq_ok_iff.1 h
  obtain ⟨ss, hss, rfl⟩ := Step.map_eq_ok_iff.1 h
  exact Settings.wellFormed_of_readOptional hss

theorem read_of_spells {toks rest : List Located} {ref : Reference} (href : ref.WellFormed)
    (h : Spells toks ref.tokens rest) (hr : Separate rest) : read toks = .ok ref rest := by
  obtain ⟨r, hsource, h⟩ := spells_append_iff (x := ref.source.tokens) |>.1 h
  obtain ⟨r', hoperator, h⟩ := spells_append_iff (x := [.mark (operatorMark ref.cardinality)]) |>.1 h
  obtain ⟨r'', htarget, hsettings⟩ := spells_append_iff (x := ref.target.tokens) |>.1 h
  have hr₁ : afterMark? .dot r = none := by
    obtain ⟨t, r, rfl, ht, -⟩ := spells_cons_iff.1 hoperator
    refine afterMark?_cons_of_ne ?_
    rw [ht]
    cases ref.cardinality <;> simp [operatorMark]
  have hr₂ : afterMark? .dot r'' = none := by
    cases hs : ref.settings with
    | none =>
      rw [hs] at hsettings
      rw [spells_nil_iff.1 hsettings, hr.dot]
    | some ss =>
      rw [hs] at hsettings
      obtain ⟨t, r'', rfl, ht, -⟩ := spells_cons_iff.1 hsettings
      exact afterMark?_cons_of_ne (by simp [ht])
  simp only [read, Endpoint.read_of_spells hsource hr₁, readOperator_of_spells hoperator,
    Endpoint.read_of_spells htarget hr₂, Step.bind,
    Settings.readOptional_of_spells href hsettings fun _ => hr.bracket, Step.map]

/-- Every reference begins with a name. -/
theorem exists_tokens_eq_cons (r : Reference) :
    ∃ (n : Name) (x : List Token), r.tokens = n.token :: x := ⟨r.source.table.first, _, rfl⟩

/-- One more reference in front of what `readAll` reads. -/
theorem readAll_cons {toks rest : List Located} {r : Reference} (hr : r.WellFormed)
    (h : Spells toks r.tokens rest) (hrest : Separate rest) :
    readAll toks = (readAll rest).map (r :: ·) := by
  obtain ⟨n, x, hx⟩ := r.exists_tokens_eq_cons
  rw [readAll, afterMark?_eq_none_of_name (hx ▸ h)]
  simp only [atEnd_eq_false_of_name (hx ▸ h), Bool.false_eq_true, if_false]
  split
  · rename_i he
    rw [read_of_spells hr h hrest] at he
    cases he
  · rename_i he
    rw [read_of_spells hr h hrest] at he
    cases he
    rfl

/-- Behind an opening brace exactly the well-formed references up to the closing one are read. -/
theorem readAll_eq_ok_iff {toks rest : List Located} {rs : List Reference} :
    readAll toks = .ok rs rest ↔
      (∀ r ∈ rs, r.WellFormed) ∧ Spells toks (rs.flatMap tokens ++ [.mark .rightBrace]) rest := by
  constructor
  · intro h
    refine ⟨?_, spells_of_readAll h⟩
    fun_induction readAll toks generalizing rs with
    | case1 => cases h; simp
    | case2 => cases h
    | case3 => cases h
    | case4 toks _ _ ref r href ih =>
      obtain ⟨rs', h', rfl⟩ := Step.map_eq_ok_iff.1 h
      exact List.forall_mem_cons.2 ⟨wellFormed_of_read href, ih h'⟩
  · rintro ⟨hrs, h⟩
    exact readAll_of_spells_items exists_tokens_eq_cons
      (fun h => by rw [readAll, afterMark?_eq_some_iff.2 h]) readAll_cons hrs h

end Reference

namespace ReferenceGroup

theorem wellFormed_of_read {keyword : String} {toks rest : List Located} {g : ReferenceGroup}
    (hk : Text.sameWord keyword "ref" = true) (h : read keyword toks = .ok g rest) :
    g.WellFormed := by
  obtain ⟨name, r, -, h⟩ := Step.bind_eq_ok_iff.1 h
  obtain ⟨body, hb, rfl⟩ := Step.map_eq_ok_iff.1 h
  refine ⟨hk, ?_⟩
  unfold readBody at hb
  repeat' split at hb
  · obtain ⟨ref, href, rfl⟩ := Step.map_eq_ok_iff.1 hb
    simpa [references] using Reference.wellFormed_of_read href
  · obtain ⟨rs, hrs, rfl⟩ := Step.map_eq_ok_iff.1 hb
    exact (Reference.readAll_eq_ok_iff.1 hrs).1
  · cases hb

/-- A name is read if there is one, and the mark of the body ends it. -/
theorem readName_of_spells {toks rest : List Located} {t : Located} {name : Option Name} {m : Mark}
    (h : Spells toks (nameTokens name) (t :: rest)) (ht : t.token = .mark m) :
    readName toks = .ok name (t :: rest) := by
  cases name with
  | none =>
    rw [spells_nil_iff.1 h]
    simp only [readName, ht, Name.ofToken?]
  | some n =>
    obtain ⟨u, toks, rfl, hu, h⟩ := spells_cons_iff.1 h
    rw [spells_nil_iff.1 h]
    simp only [readName, hu, Name.ofToken?_token]

theorem readBody_block {toks mid : List Located} (h : Spells toks [.mark .leftBrace] mid) :
    readBody toks = (Reference.readAll mid).map .block := by
  obtain ⟨t, toks, rfl, ht, h⟩ := spells_cons_iff.1 h
  rw [readBody, afterMark?_cons_of_ne (by simp [ht]), afterMark?_cons_self ht, spells_nil_iff.1 h]

theorem read_of_spells {toks rest : List Located} {g : ReferenceGroup} (hg : g.WellFormed)
    (h : Spells toks (nameTokens g.name ++ bodyTokens g.body) rest) (hr : Separate rest) :
    read g.keyword toks = .ok g rest := by
  obtain ⟨keyword, name, body⟩ := g
  obtain ⟨r, hname, hbody⟩ := spells_append_iff.1 h
  have hreadBody : readBody r = .ok body rest := by
    cases body with
    | single ref =>
      obtain ⟨t, r, rfl, ht, hbody⟩ := spells_cons_iff.1 hbody
      have href := Reference.read_of_spells (hg.references ref (by simp [references])) hbody hr
      simp only [readBody, afterMark?_cons_self ht, href, Step.map]
    | block rs =>
      obtain ⟨mid, hopen, hbody⟩ := spells_append_iff (x := [.mark .leftBrace]) |>.1 hbody
      rw [readBody_block hopen, Reference.readAll_eq_ok_iff.2 ⟨hg.references, hbody⟩]
      rfl
  obtain ⟨t, r', rfl, m, ht⟩ : ∃ t r', r = t :: r' ∧ ∃ m, t.token = .mark m := by
    cases body with
    | single ref =>
      obtain ⟨t, r, rfl, ht, -⟩ := spells_cons_iff.1 hbody
      exact ⟨t, r, rfl, _, ht⟩
    | block rs =>
      obtain ⟨t, r, rfl, ht, -⟩ := spells_cons_iff.1 hbody
      exact ⟨t, r, rfl, _, ht⟩
  simp only [read, readName_of_spells hname ht, Step.bind, hreadBody, Step.map]

end ReferenceGroup

/-! ## Definitions -/

/-- A word is not two different keywords. -/
theorem sameWord_eq_false {s a b : String} (h : Text.sameWord s a = true)
    (hab : Text.sameWord a b = false) : Text.sameWord s b = false := by
  simp only [Text.sameWord, beq_iff_eq, beq_eq_false_iff_ne] at *
  rw [h]
  exact hab

namespace Definition

/-- The definition on another line. -/
def atLine (line : Nat) : Definition → Definition
  | .table b => .table (b.atLine line)
  | d => d

theorem wellFormed_of_read {toks rest : List Located} {d : Definition}
    (h : read toks = .ok d rest) : d.WellFormed := by
  unfold read at h
  split at h
  · rename_i hk
    obtain ⟨b, hb, rfl⟩ := Step.map_eq_ok_iff.1 h
    exact TableBlock.wellFormed_of_read (afterKeyword?_eq_some_iff.1 hk).2 hb
  split at h
  · rename_i hk
    obtain ⟨g, hg, rfl⟩ := Step.map_eq_ok_iff.1 h
    exact ReferenceGroup.wellFormed_of_read (afterKeyword?_eq_some_iff.1 hk).2 hg
  split at h
  · rename_i hk
    obtain ⟨s, hs, rfl⟩ := Step.map_eq_ok_iff.1 h
    obtain ⟨k, hmem, hk⟩ := List.exists_of_findSome?_eq_some hk
    exact Skipped.wellFormed_of_read hmem (afterKeyword?_eq_some_iff.1 hk).2 hs
  · cases h

/-- Every definition begins with a word. -/
theorem exists_tokens_eq_cons (d : Definition) : ∃ s x, d.tokens = .word s :: x := by
  cases d with
  | table b => exact ⟨b.head.keyword, _, rfl⟩
  | references g => exact ⟨g.keyword, _, rfl⟩
  | skipped s => exact ⟨s.keyword, _, rfl⟩

/-! ### What the keyword decides -/

theorem read_table {t : Located} {toks : List Located} {keyword : String}
    (ht : t.token = .word keyword) (hk : Text.sameWord keyword "table" = true) :
    read (t :: toks) = (TableBlock.read keyword t.line toks).map .table := by
  rw [read, afterKeyword?_eq_some_iff.2 ⟨Spells.nil.cons_of_eq ht, hk⟩]
  rfl

theorem read_references {t : Located} {toks : List Located} {keyword : String}
    (ht : t.token = .word keyword) (hk : Text.sameWord keyword "ref" = true) :
    read (t :: toks) = (ReferenceGroup.read keyword toks).map .references := by
  have htable : Text.sameWord keyword "table" = false := sameWord_eq_false hk (by decide)
  rw [read, afterKeyword?_eq_none ht htable,
    afterKeyword?_eq_some_iff.2 ⟨Spells.nil.cons_of_eq ht, hk⟩]

theorem read_skipped {t : Located} {toks : List Located} {keyword k : String}
    (ht : t.token = .word keyword) (hmem : k ∈ Skipped.keywords)
    (hk : Text.sameWord keyword k = true) :
    read (t :: toks) = (Skipped.read keyword toks).map .skipped := by
  have hkeywords : ∀ k ∈ Skipped.keywords,
      Text.sameWord k "table" = false ∧ Text.sameWord k "ref" = false := by decide
  have hother := hkeywords k hmem
  have hskipped : afterSkippedKeyword? (t :: toks) = some (keyword, toks) := by
    have hsome : (afterSkippedKeyword? (t :: toks)).isSome = true := by
      rw [afterSkippedKeyword?, List.findSome?_isSome_iff]
      exact ⟨k, hmem, by rw [afterKeyword?_eq_some_iff.2 ⟨Spells.nil.cons_of_eq ht, hk⟩]; rfl⟩
    obtain ⟨⟨s, r⟩, hs⟩ := Option.isSome_iff_exists.1 hsome
    obtain ⟨u, a, he, hu, ha⟩ := spells_cons_iff.1 (spells_of_afterSkippedKeyword? hs)
    cases he
    rw [ht] at hu
    cases hu
    rw [hs, spells_nil_iff.1 ha]
  rw [read, afterKeyword?_eq_none ht (sameWord_eq_false hk hother.1),
    afterKeyword?_eq_none ht (sameWord_eq_false hk hother.2), hskipped]

theorem read_of_spells {toks rest : List Located} {d : Definition} (hd : d.WellFormed)
    (h : Spells toks d.tokens rest) (hr : Separate rest) :
    read toks = .ok (d.atLine (lineOf toks)) rest := by
  cases d with
  | table b =>
    obtain ⟨t, toks, rfl, ht, h⟩ := spells_cons_iff.1 h
    rw [read_table ht hd.head.keyword, TableBlock.read_of_spells hd h]
    rfl
  | references g =>
    obtain ⟨t, toks, rfl, ht, h⟩ := spells_cons_iff.1 h
    rw [read_references ht hd.keyword, ReferenceGroup.read_of_spells hd h hr]
    rfl
  | skipped s =>
    obtain ⟨t, toks, rfl, ht, h⟩ := spells_cons_iff.1 h
    obtain ⟨k, hmem, hk⟩ := hd.keyword
    rw [read_skipped ht hmem hk, Skipped.read_of_spells hd h]
    rfl

end Definition

end SchemaDiagram.Document
