/-
Openings: the places of a definition where a mark opens a list of settings or
a block that a later mark must close.

What stands in front of an opening settles how reading goes on behind it, and
nothing further on can change that. So two definitions that are written with
the same tokens up to an opening both have it (`Opening.exists_encloses`), and
what an opening encloses is settled by the tokens behind it
(`Opening.contents_unique`).
-/
import SchemaDiagram.Proofs.Exactness

namespace SchemaDiagram.Document

/-- A mark that opens something, with what stands in front of it in its definition. -/
inductive Opening
  | tableSettings (head : TableHead)
  | tableBody (head : TableHead) (settings : Option Settings)
  | columnSettings (head : TableHead) (settings : Option Settings) (members : List Member)
      (name : Name) (type : TypeName)
  | referenceBody (keyword : String) (name : Option Name)

namespace Opening

/-- The tokens of a table up to and with the brace that opens its body. -/
def bodyFront (head : TableHead) (settings : Option Settings) : List Token :=
  .word head.keyword ::
    (head.tokens ++ (Settings.optionalTokens settings ++ [.mark .leftBrace]))

/-- The tokens up to and with the mark that opens. -/
def tokens : Opening → List Token
  | tableSettings head => .word head.keyword :: (head.tokens ++ [.mark .leftBracket])
  | tableBody head settings => bodyFront head settings
  | columnSettings head settings members name type =>
    bodyFront head settings ++ (members.flatMap Member.tokens ++
      (name.token :: (type.tokens ++ [.mark .leftBracket])))
  | referenceBody keyword name => .word keyword :: (ReferenceGroup.nameTokens name ++ [.mark .leftBrace])

/-- The mark that closes what is opened. -/
def closer : Opening → Mark
  | tableSettings _ | columnSettings .. => .rightBracket
  | tableBody .. | referenceBody .. => .rightBrace

/-- The definition has the opening, and encloses the tokens there. -/
def Encloses : Opening → List Token → Definition → Prop
  | tableSettings head, contents, d =>
    ∃ ss members, d = .table ⟨head, some ss, members⟩ ∧
      contents ++ [.mark .rightBracket] = ss.innerTokens
  | tableBody head settings, contents, d =>
    ∃ members, d = .table ⟨head, settings, members⟩ ∧ contents = members.flatMap Member.tokens
  | columnSettings head settings members name type, contents, d =>
    ∃ ss more, d = .table ⟨head, settings, members ++ .column ⟨name, type, some ss⟩ :: more⟩ ∧
      contents ++ [.mark .rightBracket] = ss.innerTokens
  | referenceBody keyword name, contents, d =>
    ∃ refs, d = .references ⟨keyword, name, .block refs⟩ ∧
      contents = refs.flatMap Reference.tokens

/-- The opening may enclose the tokens. -/
def IsContents : Opening → List Token → Prop
  | tableSettings _, contents | columnSettings .., contents =>
    ∃ ss : Settings, ss.WellFormed ∧ contents ++ [.mark .rightBracket] = ss.innerTokens
  | tableBody .., contents =>
    ∃ members : List Member, (∀ m ∈ members, m.WellFormed) ∧
      contents = members.flatMap Member.tokens
  | referenceBody .., contents =>
    ∃ refs : List Reference, (∀ r ∈ refs, r.WellFormed) ∧
      contents = refs.flatMap Reference.tokens

variable {o : Opening} {contents : List Token} {d : Definition}

theorem exists_tokens_eq (o : Opening) :
    ∃ (x : List Token) (m : Mark) (k : Char), o.tokens = x ++ [.mark m] ∧ Mark.ofChar? k = some m := by
  cases o with
  | tableSettings head => exact ⟨.word head.keyword :: head.tokens, .leftBracket, '[', rfl, rfl⟩
  | tableBody head settings =>
    exact ⟨.word head.keyword :: (head.tokens ++ Settings.optionalTokens settings), .leftBrace, '{',
      by simp [tokens, bodyFront], rfl⟩
  | columnSettings head settings members name type =>
    exact ⟨bodyFront head settings ++ (members.flatMap Member.tokens ++ name.token :: type.tokens),
      .leftBracket, '[', by simp [tokens], rfl⟩
  | referenceBody keyword name =>
    exact ⟨.word keyword :: ReferenceGroup.nameTokens name, .leftBrace, '{', rfl, rfl⟩

theorem exists_ofChar?_closer (o : Opening) : ∃ k, Mark.ofChar? k = some o.closer := by
  cases o with
  | tableSettings | columnSettings => exact ⟨']', rfl⟩
  | tableBody | referenceBody => exact ⟨'}', rfl⟩

theorem Encloses.exists_tokens (h : o.Encloses contents d) :
    ∃ more, d.tokens = o.tokens ++ (contents ++ .mark o.closer :: more) := by
  cases o with
  | tableSettings head =>
    obtain ⟨ss, members, rfl, hss⟩ := h
    refine ⟨.mark .leftBrace :: (members.flatMap Member.tokens ++ [.mark .rightBrace]), ?_⟩
    simp [Definition.tokens, TableBlock.tokens, Opening.tokens, Settings.optionalTokens,
      Settings.tokens, ← hss, closer]
  | tableBody head settings =>
    obtain ⟨members, rfl, rfl⟩ := h
    exact ⟨[], by simp [Definition.tokens, TableBlock.tokens, Opening.tokens, bodyFront, closer]⟩
  | columnSettings head settings members name type =>
    obtain ⟨ss, more, rfl, hss⟩ := h
    refine ⟨more.flatMap Member.tokens ++ [.mark .rightBrace], ?_⟩
    simp [Definition.tokens, TableBlock.tokens, Opening.tokens, bodyFront, Member.tokens,
      ColumnLine.tokens, Settings.optionalTokens, Settings.tokens, ← hss, closer]
  | referenceBody keyword name =>
    obtain ⟨refs, rfl, rfl⟩ := h
    exact ⟨[], by simp [Definition.tokens, ReferenceGroup.tokens, ReferenceGroup.bodyTokens,
      Opening.tokens, closer]⟩

theorem Encloses.isContents (h : o.Encloses contents d) (hd : d.WellFormed) :
    o.IsContents contents := by
  cases o with
  | tableSettings head =>
    obtain ⟨ss, members, rfl, hss⟩ := h
    exact ⟨ss, hd.settings ss rfl, hss⟩
  | tableBody head settings =>
    obtain ⟨members, rfl, hmembers⟩ := h
    exact ⟨members, hd.members, hmembers⟩
  | columnSettings head settings members name type =>
    obtain ⟨ss, more, rfl, hss⟩ := h
    have hcolumn : Member.WellFormed (.column ⟨name, type, some ss⟩) := hd.members _ (by simp)
    exact ⟨ss, hcolumn.settings ss rfl, hss⟩
  | referenceBody keyword name =>
    obtain ⟨refs, rfl, hrefs⟩ := h
    exact ⟨refs, hd.references, hrefs⟩

/-- What an opening encloses is settled by the tokens behind it. -/
theorem contents_unique {contents' : List Token} {toks rest rest' : List Located}
    (hc : o.IsContents contents) (hc' : o.IsContents contents')
    (h : Spells toks (contents ++ [.mark o.closer]) rest)
    (h' : Spells toks (contents' ++ [.mark o.closer]) rest') : rest = rest' := by
  cases o with
  | tableSettings | columnSettings =>
    obtain ⟨ss, hss, he⟩ := hc
    obtain ⟨ss', hss', he'⟩ := hc'
    have hread := Settings.readItems_eq_ok_iff.2 ⟨hss, he ▸ h⟩
    have hread' := Settings.readItems_eq_ok_iff.2 ⟨hss', he' ▸ h'⟩
    exact Step.rest_eq_of_ok hread hread'
  | tableBody =>
    obtain ⟨members, hms, rfl⟩ := hc
    obtain ⟨members', hms', rfl⟩ := hc'
    have hread := Member.readAll_eq_ok_iff.2 ⟨hms, h⟩
    have hread' := Member.readAll_eq_ok_iff.2 ⟨hms', h'⟩
    exact Step.rest_eq_of_ok hread hread'
  | referenceBody =>
    obtain ⟨refs, hrs, rfl⟩ := hc
    obtain ⟨refs', hrs', rfl⟩ := hc'
    have hread := Reference.readAll_eq_ok_iff.2 ⟨hrs, h⟩
    have hread' := Reference.readAll_eq_ok_iff.2 ⟨hrs', h'⟩
    exact Step.rest_eq_of_ok hread hread'

/-- No contents begin with a closing bracket. -/
theorem IsContents.ne_rightBracket {t : Token} (h : o.IsContents (t :: contents)) :
    t ≠ .mark .rightBracket := by
  cases o with
  | tableSettings | columnSettings =>
    obtain ⟨ss, hss, he⟩ := h
    have hi : ss.items ≠ [] := by
      intro hi
      rw [hss.eq_of_items_eq_nil hi] at he
      simp [Settings.innerTokens, Settings.listTokens] at he
    have hspells : Spells (ss.innerTokens.map (⟨·, 0⟩)) ss.innerTokens [] :=
      ⟨_, (List.append_nil _).symm, by simp [Function.comp_def]⟩
    have hnone := Settings.not_rightBracket_of_spells hss hi hspells
    rw [← he] at hnone
    intro ht
    rw [List.cons_append, List.map_cons, afterMark?_cons_self ht] at hnone
    cases hnone
  | tableBody =>
    obtain ⟨members, -, he⟩ := h
    cases members with
    | nil => cases he
    | cons m members =>
      obtain ⟨n, x, hx⟩ := m.exists_tokens_eq_cons
      rw [List.flatMap_cons, hx] at he
      rw [(List.cons.inj he).1]
      exact n.token_ne_mark _
  | referenceBody =>
    obtain ⟨refs, -, he⟩ := h
    cases refs with
    | nil => cases he
    | cons r refs =>
      obtain ⟨n, x, hx⟩ := r.exists_tokens_eq_cons
      rw [List.flatMap_cons, hx] at he
      rw [(List.cons.inj he).1]
      exact n.token_ne_mark _

/-! ## Reading up to an opening -/

/-- Settings and the opening brace begin with a mark that is no dot. -/
theorem exists_mark_cons (settings : Option Settings) :
    ∃ m x, Settings.optionalTokens settings ++ [.mark .leftBrace] = .mark m :: x ∧ m ≠ .dot := by
  cases settings with
  | none => exact ⟨.leftBrace, [], rfl, by decide⟩
  | some ss => exact ⟨.leftBracket, ss.innerTokens ++ [.mark .leftBrace], rfl, by decide⟩

/-- Behind the head of a table its body is read. -/
theorem exists_table_of_read {head : TableHead} {toks mid rest : List Located} {m : Mark}
    {x : List Token} (hh : head.WellFormed)
    (h : Spells toks (.word head.keyword :: (head.tokens ++ .mark m :: x)) mid) (hm : m ≠ .dot)
    (hread : Definition.read toks = .ok d rest) :
    ∃ b r line, d = .table b ∧ b.head = head.atLine line ∧ Spells r (.mark m :: x) mid ∧
      TableBlock.readBody (head.atLine line) r = .ok b rest := by
  obtain ⟨t, toks, rfl, ht, h⟩ := spells_cons_iff.1 h
  obtain ⟨r, hhead, hmark⟩ := spells_append_iff.1 h
  obtain ⟨u, r, rfl, hu, -⟩ := spells_cons_iff.1 hmark
  rw [Definition.read_table ht hh.keyword] at hread
  obtain ⟨b, hb, rfl⟩ := Step.map_eq_ok_iff.1 hread
  rw [TableBlock.read, TableHead.read_of_spells hh hhead hu hm] at hb
  exact ⟨b, u :: r, t.line, rfl, (TableBlock.spells_of_readBody hb).1, hmark, hb⟩

theorem exists_members_of_read {head : TableHead} {settings : Option Settings}
    {toks mid rest : List Located} (hh : head.WellFormed)
    (hsettings : Settings.OptionalWellFormed settings) (h : Spells toks (bodyFront head settings) mid)
    (hread : Definition.read toks = .ok d rest) :
    ∃ members line, d = .table ⟨head.atLine line, settings, members⟩ ∧
      Member.readAll mid = .ok members rest := by
  obtain ⟨m, x, hx, hm⟩ := exists_mark_cons settings
  rw [bodyFront, hx] at h
  obtain ⟨b, r, line, rfl, -, hr, hb⟩ := exists_table_of_read hh h hm hread
  rw [TableBlock.readBody_of_spells hsettings (hx ▸ hr)] at hb
  obtain ⟨members, hmembers, rfl⟩ := Step.map_eq_ok_iff.1 hb
  exact ⟨members, line, rfl, hmembers⟩

/-- Behind name, type and bracket the settings of a column are read. -/
theorem exists_column_of_read {name : Name} {type : TypeName} {toks mid rest : List Located}
    {m : Member} (htype : type.WellFormed)
    (h : Spells toks (name.token :: (type.tokens ++ [.mark .leftBracket])) mid)
    (harray : type.isArray = false → afterMark? .rightBracket mid = none)
    (hread : Member.read toks = .ok m rest) : ∃ ss, m = .column ⟨name, type, some ss⟩ := by
  rw [Member.read_eq_column (n := type.name.first) h] at hread
  obtain ⟨c, hc, rfl⟩ := Step.map_eq_ok_iff.1 hread
  obtain ⟨r, hname, h⟩ := spells_append_iff (x := [name.token]) |>.1 h
  obtain ⟨r', htokens, hbracket⟩ := spells_append_iff (x := type.tokens) |>.1 h
  obtain ⟨u, r', rfl, hu, hmid⟩ := spells_cons_iff.1 hbracket
  rw [spells_nil_iff.1 hmid] at htokens hbracket
  have hnext : type.isArray = false → ¬ TypeName.ArrayNext (u :: mid) := by
    intro hfalse
    rw [TypeName.ArrayNext, afterMark?_cons_self hu, Option.bind_some, harray hfalse]
    simp
  have hread' := TypeName.read_of_spells htype htokens (afterMark?_cons_of_ne (by simp [hu]))
    (afterMark?_cons_of_ne (by simp [hu])) hnext
  simp only [ColumnLine.read, Name.read_of_spells hname, hread', Step.bind, Settings.readOptional,
    afterMark?_cons_self hu] at hc
  obtain ⟨ss, hss, rfl⟩ := Step.map_eq_ok_iff.1 hc
  obtain ⟨ss, -, rfl⟩ := Step.map_eq_ok_iff.1 hss
  exact ⟨ss, rfl⟩

/-- A definition that is read where the tokens up to an opening stand has the opening too. -/
theorem exists_encloses {toks mid rest : List Located} {d' : Definition}
    (ho : o.Encloses contents d) (hd : d.WellFormed) (h : Spells toks o.tokens mid)
    (hfirst : contents ≠ [] → afterMark? .rightBracket mid = none)
    (hread : Definition.read toks = .ok d' rest) :
    ∃ contents' line, o.Encloses contents' (d'.atLine line) := by
  cases o with
  | tableSettings head =>
    obtain ⟨ss, members, rfl, -⟩ := ho
    obtain ⟨b, r, line, rfl, hhead, hr, hb⟩ := exists_table_of_read hd.head h (by decide) hread
    obtain ⟨-, hbody⟩ := TableBlock.spells_of_readBody hb
    obtain ⟨bhead, settings, members'⟩ := b
    obtain ⟨u, r, rfl, hu, -⟩ := spells_cons_iff.1 hr
    cases settings with
    | none =>
      obtain ⟨v, r', he, hv, -⟩ := spells_cons_iff.1 hbody
      cases he
      rw [hu] at hv
      cases hv
    | some ss' =>
      refine ⟨Settings.listTokens ss'.trailingComma ss'.items, head.line, ss', members', ?_, rfl⟩
      simp only at hhead
      rw [hhead]
      rfl
  | tableBody head settings =>
    obtain ⟨members, rfl, -⟩ := ho
    obtain ⟨members', line, rfl, -⟩ := exists_members_of_read hd.head hd.settings h hread
    exact ⟨members'.flatMap Member.tokens, head.line, members', rfl, rfl⟩
  | columnSettings head settings members name type =>
    obtain ⟨ss, more, rfl, hss⟩ := ho
    have hcolumn : ColumnLine.WellFormed ⟨name, type, some ss⟩ :=
      hd.members (.column ⟨name, type, some ss⟩) (by simp)
    obtain ⟨r, hfront, h⟩ := spells_append_iff.1 h
    obtain ⟨members', line, rfl, hall⟩ := exists_members_of_read hd.head hd.settings hfront hread
    obtain ⟨r', hmembers, hname⟩ := spells_append_iff.1 h
    rw [Member.readAll_append (fun m hm => hd.members m (by simp [hm])) hmembers hname] at hall
    obtain ⟨ms, hms, rfl⟩ := Step.map_eq_ok_iff.1 hall
    obtain ⟨hwf, hspells⟩ := Member.readAll_eq_ok_iff.1 hms
    have harray : type.isArray = false → afterMark? .rightBracket mid = none := by
      intro hfalse
      refine hfirst fun hnil => hcolumn.array hfalse ?_
      rw [hnil] at hss
      rw [(hcolumn.settings ss rfl).eq_of_innerTokens_eq hss.symm]
    cases ms with
    | nil =>
      obtain ⟨u, a, rfl, hu, -⟩ := spells_cons_iff.1 hspells
      obtain ⟨v, a', he, hv, -⟩ := spells_cons_iff.1 hname
      cases he
      rw [hu] at hv
      exact absurd hv.symm (name.token_ne_mark _)
    | cons m ms =>
      rw [List.flatMap_cons, List.append_assoc] at hspells
      obtain ⟨a, hm, hmore⟩ := spells_append_iff.1 hspells
      have hmember := Member.read_of_spells (hwf m (by simp)) hm
        (separate_of_spells_items Member.exists_tokens_eq_cons hmore)
      obtain ⟨ss', rfl⟩ := exists_column_of_read hcolumn.type hname harray hmember
      exact ⟨Settings.listTokens ss'.trailingComma ss'.items, head.line, ss', ms, rfl, rfl⟩
  | referenceBody keyword name =>
    obtain ⟨refs, rfl, -⟩ := ho
    obtain ⟨t, toks, rfl, ht, h⟩ := spells_cons_iff.1 h
    obtain ⟨r, hname, hbrace⟩ := spells_append_iff.1 h
    obtain ⟨u, r', rfl, hu, -⟩ := spells_cons_iff.1 hbrace
    rw [Definition.read_references ht hd.keyword] at hread
    obtain ⟨g, hg, rfl⟩ := Step.map_eq_ok_iff.1 hread
    simp only [ReferenceGroup.read, ReferenceGroup.readName_of_spells hname hu, Step.bind,
      ReferenceGroup.readBody_block hbrace] at hg
    obtain ⟨body, hbody, rfl⟩ := Step.map_eq_ok_iff.1 hg
    obtain ⟨refs', -, rfl⟩ := Step.map_eq_ok_iff.1 hbody
    exact ⟨refs'.flatMap Reference.tokens, 0, refs', rfl, rfl⟩

/-! ## Definitions in front of an opening -/

/-- If the same tokens are written with two rows of definitions and one of them stops at a place
where no phrase goes on, the other one goes on there with whole definitions. -/
theorem exists_spells_behind {before ds : List Definition} {toks mid rest : List Located}
    (hbefore : ∀ d ∈ before, d.WellFormed) (hds : ∀ d ∈ ds, d.WellFormed)
    (h : Spells toks (before.flatMap Definition.tokens) mid) (hmid : Separate mid)
    (hds' : Spells toks (ds.flatMap Definition.tokens) rest) (hend : atEnd rest = true) :
    ∃ ds' : List Definition,
      (∀ d ∈ ds', d.WellFormed) ∧ Spells mid (ds'.flatMap Definition.tokens) rest := by
  induction before generalizing toks ds with
  | nil =>
    rw [spells_nil_iff.1 h] at hds'
    exact ⟨ds, hds, hds'⟩
  | cons b before ih =>
    rw [List.flatMap_cons] at h
    obtain ⟨r, hb, h⟩ := spells_append_iff.1 h
    cases ds with
    | nil =>
      have hstart := Definition.atEnd_eq_false hb
      rw [spells_nil_iff.1 hds', hend] at hstart
      cases hstart
    | cons e ds =>
      rw [List.flatMap_cons] at hds'
      obtain ⟨r', he, hds'⟩ := spells_append_iff.1 hds'
      have hreadb := Definition.read_of_spells (hbefore b (by simp)) hb
        (separate_of_spells_definitions h hmid)
      have hreade := Definition.read_of_spells (hds e (by simp)) he
        (separate_of_spells_definitions hds' (.of_atEnd hend))
      rw [hreadb] at hreade
      obtain ⟨-, hr⟩ := Step.ok.inj hreade
      subst hr
      exact ih (fun d hd => hbefore d (by simp [hd])) (fun d hd => hds d (by simp [hd])) h hds'

/-- A row of definitions that is written with the tokens up to an opening has the opening. -/
theorem exists_encloses_behind {before ds : List Definition} {toks mid rest : List Located}
    (ho : o.Encloses contents d) (hd : d.WellFormed) (hbefore : ∀ d ∈ before, d.WellFormed)
    (hds : ∀ d ∈ ds, d.WellFormed)
    (h : Spells toks (before.flatMap Definition.tokens ++ o.tokens) mid)
    (hfirst : contents ≠ [] → afterMark? .rightBracket mid = none)
    (hds' : Spells toks (ds.flatMap Definition.tokens) rest) (hend : atEnd rest = true) :
    ∃ contents' d' after, o.Encloses contents' d' ∧ (∀ e ∈ before ++ d' :: after, e.WellFormed) ∧
      Spells toks ((before ++ d' :: after).flatMap Definition.tokens) rest := by
  obtain ⟨m, hm, h⟩ := spells_append_iff.1 h
  obtain ⟨s, x, hx⟩ : ∃ s x, o.tokens = .word s :: x := by
    cases o <;> exact ⟨_, _, rfl⟩
  have hseparate : Separate m := .of_name (n := .bare s) (hx ▸ h)
  have hstart : atEnd m = false := atEnd_eq_false_of_name (n := .bare s) (hx ▸ h)
  obtain ⟨ds', hwf, hspells⟩ := exists_spells_behind hbefore hds hm hseparate hds' hend
  cases ds' with
  | nil =>
    rw [spells_nil_iff.1 hspells, hend] at hstart
    cases hstart
  | cons e after =>
    rw [List.flatMap_cons] at hspells
    obtain ⟨r, he, hafter⟩ := spells_append_iff.1 hspells
    have hread := Definition.read_of_spells (hwf e (by simp)) he
      (separate_of_spells_definitions hafter (.of_atEnd hend))
    obtain ⟨contents', line, ho'⟩ := exists_encloses ho hd h hfirst hread
    rw [List.forall_mem_cons] at hwf
    have he' := Definition.wellFormed_atLine line (Definition.wellFormed_atLine (lineOf m) hwf.1)
    refine ⟨contents', _, after, ho', ?_, ?_⟩
    · rw [List.forall_mem_append, List.forall_mem_cons]
      exact ⟨hbefore, he', hwf.2⟩
    · rw [List.flatMap_append, List.flatMap_cons, Definition.tokens_atLine,
        Definition.tokens_atLine]
      exact hm.append (he.append hafter)

end Opening

end SchemaDiagram.Document
