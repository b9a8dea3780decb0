/-
Deleting a closing mark (`parse_unclosed_iff`).

A list of settings or a block that lost its closing mark goes on to the next
mark that closes it, however far behind that is and whatever stands between:
the runs of tokens in settings and the headers of skipped definitions take
nearly everything along. So a damaged text may well be accepted, and then with
less than it says. It is refused exactly if no later mark does that, and always
if there is no later mark of that kind at all (`parse_unclosed_of_not_mem`).

The tokens in front of the damage are those of the undamaged text up to the
opening (`Reads.exists_mark_of_map`), but not up to the damage: deleting a mark
can join the token in front of it with what follows. That the opening is closed
later, and not earlier, is therefore shown on the undamaged text, of which an
earlier end would be an end as well.
-/
import SchemaDiagram.Proofs.Openings

namespace SchemaDiagram.Document

open Cursor

/-- The mark stands between the two parts of the text, right behind the tokens. -/
structure MarkAt (source : String) (before : List Token) (m : Mark) (front back : String) : Prop where
  text : source = front ++ m.text ++ back
  reads : ∃ toks line, Reads (.start source) toks ⟨back.toList, line⟩ ∧
    toks.map Located.token = before ++ [.mark m]

theorem MarkAt.of_reads {source : String} {toks : List Located} {c : Cursor} {before : List Token}
    {m : Mark} {k : Char} (h : Reads (.start source) toks c)
    (htoks : toks.map Located.token = before ++ [.mark m]) (hk : Mark.ofChar? k = some m) :
    ∃ front back, MarkAt source before m front back := by
  obtain ⟨front, hfront, -⟩ := h.exists_mark_of_map htoks hk
  refine ⟨String.ofList front, String.ofList c.rest, ?_, toks, c.line, ?_, htoks⟩
  · rw [← String.toList_inj]
    simpa [Mark.text_of_ofChar? hk, Cursor.start] using hfront
  · simpa using h

/-- Every mark of a document can be deleted. -/
theorem IsDocument.exists_markAt {source : String} {ds : List Definition} {before more : List Token}
    {m : Mark} {k : Char} (h : IsDocument source ds)
    (hds : ds.flatMap Definition.tokens = (before ++ [.mark m]) ++ more)
    (hk : Mark.ofChar? k = some m) : ∃ front back, MarkAt source before m front back := by
  obtain ⟨toks, htoks, hspells, -⟩ := h
  obtain ⟨x, c, e, c', hreads, -, -, rfl⟩ := tokens_eq_ok_iff.1 htoks
  rw [List.map_append, hds] at hspells
  obtain ⟨hx, -⟩ := List.append_inj' hspells rfl
  obtain ⟨y, z, rfl, hy, -⟩ := List.map_eq_append_iff.1 hx
  obtain ⟨c₁, hy', -⟩ := hreads.split
  exact MarkAt.of_reads hy' hy hk

/-- The text around a mark, and around an earlier one that opens. -/
theorem MarkAt.exists_reads {source front back : String} {p q : List Token} {m n : Mark} {k j : Char}
    (h : MarkAt source ((p ++ [.mark m]) ++ q) n front back) (hk : Mark.ofChar? k = some m)
    (hj : Mark.ofChar? j = some n) :
    ∃ (x y : List Located) (line line' : Nat) (opened mid : List Char),
      front.toList = opened ++ k :: mid ∧
      (x.map Located.token = p ++ [.mark m] ∧ ∀ rest, Reads ⟨opened ++ k :: rest, 1⟩ x ⟨rest, line⟩) ∧
      (y.map Located.token = q ++ [.mark n] ∧
        Reads ⟨mid ++ j :: back.toList, line⟩ y ⟨back.toList, line'⟩) := by
  obtain ⟨htext, toks, line', hreads, htoks⟩ := h
  rw [List.append_assoc] at htoks
  obtain ⟨x, y, rfl, hx, hy⟩ := List.map_eq_append_iff.1 htoks
  obtain ⟨c, hreadsx, hreadsy⟩ := hreads.split
  obtain ⟨opened, hopened, hlocal⟩ := hreadsx.exists_mark_of_map hx hk
  obtain ⟨mid, hmid, -⟩ := hreadsy.exists_mark_of_map hy hj
  refine ⟨x, y, c.line, line', opened, mid, ?_, ⟨hx, hlocal⟩, hy, hmid ▸ hreadsy⟩
  have hsource : front.toList ++ j :: back.toList = (opened ++ k :: mid) ++ j :: back.toList := by
    rw [hmid] at hopened
    have htext' := congrArg String.toList htext
    rw [String.toList_append, String.toList_append, Mark.text_of_ofChar? hj] at htext'
    have hstart : source.toList = opened ++ k :: (mid ++ j :: back.toList) := hopened
    rw [hstart] at htext'
    simpa using htext'.symm
  exact List.append_cancel_right hsource

variable {source front back : String} {before after : List Definition} {d : Definition}
  {o : Opening} {contents : List Token}

/-- A document that is left when the closing mark is deleted still has the opening. -/
theorem exists_isDocument_of_unclosed {ds : List Definition}
    (hdocument : IsDocument source (before ++ d :: after)) (ho : o.Encloses contents d)
    (hmark : MarkAt source (before.flatMap Definition.tokens ++ (o.tokens ++ contents)) o.closer
      front back)
    (hds : IsDocument (front ++ back) ds) :
    ∃ contents' d' after', o.Encloses contents' d' ∧
      IsDocument (front ++ back) (before ++ d' :: after') := by
  obtain ⟨p, m, k, htokens, hk⟩ := o.exists_tokens_eq
  obtain ⟨j, hj⟩ := o.exists_ofChar?_closer
  obtain ⟨-, -, -, hwf⟩ := hdocument
  have hd : d.WellFormed := hwf d (by simp)
  have hmark' : MarkAt source (((before.flatMap Definition.tokens ++ p) ++ [.mark m]) ++ contents)
      o.closer front back := by
    simpa [htokens] using hmark
  obtain ⟨x, y, line, line', opened, mid, hfront, ⟨hx, hlocal⟩, hy, hreadsy⟩ :=
    hmark'.exists_reads hk hj
  obtain ⟨toks, htoks, hmap, hds⟩ := hds
  have hreads : Reads (.start (front ++ back)) x ⟨mid ++ back.toList, line⟩ := by
    have hstart : Cursor.start (front ++ back) = ⟨opened ++ k :: (mid ++ back.toList), 1⟩ := by
      simp [Cursor.start, hfront]
    rw [hstart]
    exact hlocal _
  obtain ⟨more, rfl, hmore⟩ := hreads.exists_tokens htoks
  have hspells : Spells (x ++ more) (before.flatMap Definition.tokens ++ o.tokens) more :=
    ⟨x, rfl, by rw [hx, htokens]; simp⟩
  -- The token behind the opening cannot have become a closing bracket.
  have hfirst : contents ≠ [] → afterMark? .rightBracket more = none := by
    intro hne
    obtain ⟨t, ts, rfl⟩ := List.exists_cons_of_ne_nil hne
    obtain ⟨u, y, rfl, hu, hy⟩ := List.map_eq_cons_iff.1 hy
    have ht := (ho.isContents hd).ne_rightBracket
    cases more with
    | nil => rfl
    | cons v more =>
      obtain ⟨c, hv⟩ := exists_next_of_tokens hmore
      exact afterMark?_cons_of_ne
        (hreadsy.ne_mark_of_cons hy hj (k := ']') rfl (hu ▸ ht) hv)
  obtain ⟨e, hspells', he⟩ := exists_spells_of_map hmap
  obtain ⟨contents', d', after', ho', hwf', hspells''⟩ :=
    Opening.exists_encloses_behind ho hd (fun b hb => hwf b (by simp [hb])) hds hspells hfirst
      hspells' (by simp [atEnd, he])
  exact ⟨contents', d', after', ho', x ++ more, htoks, by simp [hspells''.map_token, he], hwf'⟩

/-- An opening is closed at one place only. -/
theorem eq_nil_of_closed_twice {a z : List Located} {pre : List Token} {contents' : List Token}
    (hcontents : o.IsContents contents) (hcontents' : o.IsContents contents')
    (ha : a.map Located.token = pre ++ (contents' ++ [.mark o.closer]))
    (haz : (a ++ z).map Located.token = pre ++ (contents ++ [.mark o.closer])) : z = [] := by
  obtain ⟨a₁, a₂, rfl, hpre, ha₂⟩ := List.map_eq_append_iff.1 ha
  rw [List.append_assoc, List.map_append, hpre] at haz
  have hall := List.append_cancel_left haz
  exact (Opening.contents_unique hcontents hcontents' ⟨a₂ ++ z, (List.append_nil _).symm, hall⟩
    ⟨a₂, rfl, ha₂⟩).symm

/-- In a text that lost a closing mark, the mark that closes the opening stands further on. -/
theorem exists_swallowed {contents' : List Token} {front' rest : String}
    (hcontents : o.IsContents contents) (hcontents' : o.IsContents contents')
    (hmark : MarkAt source (before.flatMap Definition.tokens ++ (o.tokens ++ contents)) o.closer
      front back)
    (hmark' : MarkAt (front ++ back) (before.flatMap Definition.tokens ++ (o.tokens ++ contents'))
      o.closer front' rest) :
    ∃ swallowed, front' = front ++ swallowed ∧ back = swallowed ++ o.closer.text ++ rest := by
  obtain ⟨j, hj⟩ := o.exists_ofChar?_closer
  obtain ⟨htext, x, line, hreads, hx⟩ := hmark
  obtain ⟨htext', a, line', hreads', ha⟩ := hmark'
  have hsource : source.toList = front.toList ++ j :: back.toList := by
    rw [htext]
    simp [Mark.text_of_ofChar? hj]
  have hdamaged : front.toList ++ back.toList = front'.toList ++ j :: rest.toList := by
    have hlist := congrArg String.toList htext'
    simpa [Mark.text_of_ofChar? hj] using hlist
  have hswallowed (s : List Char) (hf : front'.toList = front.toList ++ s)
      (hb : back.toList = s ++ j :: rest.toList) :
      ∃ swallowed, front' = front ++ swallowed ∧ back = swallowed ++ o.closer.text ++ rest := by
    refine ⟨String.ofList s, ?_, ?_⟩ <;> rw [← String.toList_inj]
    · simpa using hf
    · simpa [Mark.text_of_ofChar? hj] using hb
  rcases List.append_eq_append_iff.1 hdamaged with ⟨s, hf, hb⟩ | ⟨s, hf, hb⟩
  · exact hswallowed s hf hb
  cases s with
  | nil => exact hswallowed [] (by simpa using hf.symm) hb.symm
  | cons c s =>
    -- Closed in front of the damage, the opening would be closed there in the whole text too.
    obtain ⟨rfl, hrest⟩ := List.cons.inj hb
    exfalso
    obtain ⟨opened, hopened, hlocal⟩ := hreads'.exists_mark_of_map ha hj
    have hopened' : opened = front'.toList := by
      have hstart : front.toList ++ back.toList = opened ++ j :: rest.toList := by
        simpa [Cursor.start] using hopened
      exact List.append_cancel_right (hstart.symm.trans hdamaged)
    have hwhole : Reads (.start source) a ⟨s ++ j :: back.toList, line'⟩ := by
      have hstart : Cursor.start source = ⟨opened ++ j :: (s ++ j :: back.toList), 1⟩ := by
        simp [Cursor.start, hsource, hf, hopened']
      rw [hstart]
      exact hlocal _
    have hle : x.length ≤ a.length := by
      rcases Nat.le_total x.length a.length with hle | hle
      · exact hle
      · obtain ⟨z, rfl, -⟩ := hwhole.prefix hreads hle
        rw [← List.append_assoc, List.append_assoc] at ha hx
        have hz := eq_nil_of_closed_twice hcontents hcontents' ha hx
        simp [hz]
    obtain ⟨z, -, hz⟩ := hreads.prefix hwhole hle
    have hlength := hz.length_rest
    simp only [List.length_append, List.length_cons] at hlength
    omega

/-- In the text made of the two parts an opening that nothing in the first part closes is closed by
a mark in the second one, with everything in between swallowed, and definitions that make up a
schema are read. -/
def ClosedLater (before : List Definition) (o : Opening) (front back : String) : Prop :=
  ∃ swallowed rest contents d after, back = swallowed ++ o.closer.text ++ rest ∧
    MarkAt (front ++ back) (before.flatMap Definition.tokens ++ (o.tokens ++ contents)) o.closer
      (front ++ swallowed) rest ∧
    o.Encloses contents d ∧ IsDocument (front ++ back) (before ++ d :: after) ∧
    Admissible (before ++ d :: after)

theorem closedLater_of_parse {schema : Schema}
    (hdocument : IsDocument source (before ++ d :: after)) (ho : o.Encloses contents d)
    (hmark : MarkAt source (before.flatMap Definition.tokens ++ (o.tokens ++ contents)) o.closer
      front back)
    (hparse : parse (front ++ back) = .ok schema) : ClosedLater before o front back := by
  obtain ⟨ds, hds⟩ := exists_isDocument_of_parse hparse
  obtain ⟨contents', d', after', ho', hdocument'⟩ :=
    exists_isDocument_of_unclosed hdocument ho hmark hds
  obtain ⟨k, hk⟩ := o.exists_ofChar?_closer
  obtain ⟨more, hmore⟩ := ho'.exists_tokens
  have htokens : (before ++ d' :: after').flatMap Definition.tokens =
      ((before.flatMap Definition.tokens ++ (o.tokens ++ contents')) ++ [.mark o.closer]) ++
        (more ++ after'.flatMap Definition.tokens) := by
    simp [hmore]
  obtain ⟨front', rest, hmark'⟩ := hdocument'.exists_markAt htokens hk
  have hcontents := ho.isContents (hdocument.wellFormed d (by simp))
  have hcontents' := ho'.isContents (hdocument'.wellFormed d' (by simp))
  obtain ⟨swallowed, rfl, hback⟩ := exists_swallowed hcontents hcontents' hmark hmark'
  exact ⟨swallowed, rest, contents', d', after', hback, hmark', ho', hdocument',
    ((hdocument'.parse_eq_ok_iff_admissible schema).1 hparse).1⟩

/-- **With no such mark behind it, deleting a closing mark makes a text unreadable.** -/
theorem parse_unclosed_of_not_mem {k : Char}
    (hdocument : IsDocument source (before ++ d :: after)) (ho : o.Encloses contents d)
    (hmark : MarkAt source (before.flatMap Definition.tokens ++ (o.tokens ++ contents)) o.closer
      front back)
    (hk : Mark.ofChar? k = some o.closer) (hback : k ∉ back.toList) :
    ∃ cause, parse (front ++ back) = .error cause := by
  cases hparse : parse (front ++ back) with
  | error cause => exact ⟨cause, rfl⟩
  | ok schema =>
    obtain ⟨swallowed, rest, -, -, -, rfl, -⟩ := closedLater_of_parse hdocument ho hmark hparse
    exact absurd (by simp [Mark.text_of_ofChar? hk]) hback

/-- **A text that lost the mark closing a list of settings or a block is accepted if and only if a
later mark closes that list or block instead.** -/
theorem parse_unclosed_iff (hdocument : IsDocument source (before ++ d :: after))
    (ho : o.Encloses contents d)
    (hmark : MarkAt source (before.flatMap Definition.tokens ++ (o.tokens ++ contents)) o.closer
      front back) :
    (∃ schema, parse (front ++ back) = .ok schema) ↔ ClosedLater before o front back := by
  constructor
  · intro h
    obtain ⟨schema, hparse⟩ := h
    exact closedLater_of_parse hdocument ho hmark hparse
  · intro h
    obtain ⟨-, -, -, d', after', -, -, -, hdocument', hadmissible⟩ := h
    exact ⟨_, (hdocument'.parse_eq_ok_iff_admissible _).2 ⟨hadmissible, rfl⟩⟩

/-- The column behind the damage ends up in the text of the setting in front of it. -/
theorem parse_swallows_column :
    (parse "Table users \x7b\n  id int [pk]\n  name text [unique]\n\x7d").toOption =
        some ⟨[⟨"users", [⟨"id", "int", ["pk"]⟩, ⟨"name", "text", ["unique"]⟩]⟩], []⟩ ∧
      (parse "Table users \x7b\n  id int [pk\n  name text [unique]\n\x7d").toOption =
        some ⟨[⟨"users", [⟨"id", "int", ["pk name text [ unique"]⟩]⟩], []⟩ := by
  decide +kernel

/-- A bare column with one setting. -/
def bareColumn (name type : String) (setting : List Token) : Member :=
  .column ⟨.bare name, ⟨⟨.bare type, []⟩, none, false⟩, some ⟨[.plain setting], false⟩⟩

theorem parse_unclosed_users :
    ∃ schema, parse ("Table users \x7b\n  id int [pk" ++ "\n  name text [unique]\n\x7d") =
      .ok schema := by
  let head : TableHead := ⟨"Table", 0, ⟨.bare "users", []⟩, none⟩
  let o : Opening := .columnSettings head none [] (.bare "id") ⟨⟨.bare "int", []⟩, none, false⟩
  let swallowing : List Token :=
    [.word "pk", .word "name", .word "text", .mark .leftBracket, .word "unique"]
  let closed : Definition :=
    .table ⟨head, none, [bareColumn "id" "int" [.word "pk"], bareColumn "name" "text" [.word "unique"]]⟩
  let unclosed : Definition := .table ⟨head, none, [bareColumn "id" "int" swallowing]⟩
  have hclosed : IsDocument "Table users \x7b\n  id int [pk]\n  name text [unique]\n\x7d"
      ([] ++ closed :: []) := isDocument_of_tokenize (by decide +kernel) (by decide +kernel)
  have hunclosed : IsDocument ("Table users \x7b\n  id int [pk" ++ "\n  name text [unique]\n\x7d")
      ([] ++ unclosed :: []) := isDocument_of_tokenize (by decide +kernel) (by decide +kernel)
  have ho : o.Encloses [.word "pk"] closed := ⟨_, _, rfl, rfl⟩
  have ho' : o.Encloses swallowing unclosed := ⟨_, _, rfl, rfl⟩
  have hmark : MarkAt "Table users \x7b\n  id int [pk]\n  name text [unique]\n\x7d"
      (([] : List Definition).flatMap Definition.tokens ++ (o.tokens ++ [.word "pk"])) o.closer
      "Table users \x7b\n  id int [pk" "\n  name text [unique]\n\x7d" :=
    ⟨by decide +kernel, exists_reads_of_first? (n := 8) (by decide +kernel)⟩
  have hmark' : MarkAt ("Table users \x7b\n  id int [pk" ++ "\n  name text [unique]\n\x7d")
      (([] : List Definition).flatMap Definition.tokens ++ (o.tokens ++ swallowing)) o.closer
      ("Table users \x7b\n  id int [pk" ++ "\n  name text [unique") "\n\x7d" :=
    ⟨by decide +kernel, exists_reads_of_first? (n := 12) (by decide +kernel)⟩
  exact (parse_unclosed_iff hclosed ho hmark).2
    ⟨_, _, swallowing, unclosed, [], by decide +kernel, hmark', ho', hunclosed,
      by decide +kernel, .inl (by decide +kernel)⟩

end SchemaDiagram.Document
