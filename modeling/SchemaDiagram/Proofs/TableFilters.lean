/-
What a filter written as a text lets through: the tables named by its pieces, and
no others (`ofText_decided_by_pieces`).

A filter is known by the names it lets through, since their order in it is fixed
(`eq_of_contains_eq`). So the same pieces in another order, or written again, give
the same filter (`sorted_eq_of_subset`), and so do the names of the filter itself
with commas between them. For the latter a name has to be read back as it is
(`IsWritable`): a trimmed text has nothing left to trim (`trimChars_eq_iff`), and no
comma that its piece did not have.
-/
import Mathlib.Data.List.DropRight
import Mathlib.Data.List.Sort
import SchemaDiagram.TableFilter

namespace SchemaDiagram

/-! ## Trimmed texts -/

namespace Text

/-- No blank stands at either end. -/
def IsTrimmed (s : List Char) : Prop :=
  (∀ c ∈ s.head?, isBlank c = false) ∧ ∀ c ∈ s.getLast?, isBlank c = false

theorem trimChars_eq_rdropWhile (s : List Char) :
    trimChars s = (s.dropWhile isBlank).rdropWhile isBlank := rfl

theorem isTrimmed_trimChars (s : List Char) : IsTrimmed (trimChars s) := by
  rw [trimChars_eq_rdropWhile]
  constructor
  · intro c hc
    obtain ⟨back, hback⟩ := List.rdropWhile_prefix isBlank (s.dropWhile isBlank)
    have hhead : (s.dropWhile isBlank).head? = some c := by
      rw [← hback, List.head?_append, Option.mem_def.1 hc, Option.some_or]
    simpa [hhead] using List.head?_dropWhile_not isBlank s
  · intro c hc
    obtain ⟨hne, rfl⟩ := List.mem_getLast?_eq_getLast hc
    exact Bool.eq_false_iff.2 (List.rdropWhile_last_not isBlank _ hne)

theorem exists_eq_append_trimChars (s : List Char) : ∃ front back,
    s = front ++ trimChars s ++ back ∧ (∀ c ∈ front, isBlank c = true) ∧
      ∀ c ∈ back, isBlank c = true := by
  refine ⟨s.takeWhile isBlank, (s.dropWhile isBlank).rtakeWhile isBlank, ?_,
    fun c => List.mem_takeWhile_imp, fun c => List.mem_rtakeWhile_imp⟩
  rw [trimChars_eq_rdropWhile, List.append_assoc, List.rdropWhile_append_rtakeWhile,
    List.takeWhile_append_dropWhile]

/-- Blanks in front of a text are dropped, and nothing of the text unless it begins with one. -/
theorem dropWhile_append_of_head {front s : List Char} (hfront : ∀ c ∈ front, isBlank c = true)
    (hhead : ∀ c ∈ s.head?, isBlank c = false) : (front ++ s).dropWhile isBlank = s := by
  rw [List.dropWhile_append_of_pos hfront]
  cases s with
  | nil => rfl
  | cons c s =>
    have hc : isBlank c = false := hhead c rfl
    rw [List.dropWhile_cons_of_neg (by simp [hc])]

/-- Trimming takes the blanks off both ends of a text, all of them and nothing else. -/
theorem trimChars_eq_iff {s t : List Char} : trimChars s = t ↔ IsTrimmed t ∧
    ∃ front back, s = front ++ t ++ back ∧ (∀ c ∈ front, isBlank c = true) ∧
      ∀ c ∈ back, isBlank c = true := by
  constructor
  · rintro rfl
    exact ⟨isTrimmed_trimChars s, exists_eq_append_trimChars s⟩
  · rintro ⟨⟨hhead, hlast⟩, front, back, rfl, hfront, hback⟩
    rw [List.append_assoc, trimChars]
    cases t with
    | nil =>
      have hall : ∀ c ∈ front ++ back, isBlank c = true := by
        simpa [or_imp, forall_and] using And.intro hfront hback
      rw [List.nil_append, List.dropWhile_eq_nil_iff.2 hall]
      rfl
    | cons c t =>
      have hfirst : (front ++ (c :: t ++ back)).dropWhile isBlank = c :: t ++ back :=
        dropWhile_append_of_head hfront hhead
      -- Seen from the other end, the blanks behind the text are those in front of it.
      rw [hfirst, List.reverse_append, dropWhile_append_of_head, List.reverse_reverse]
      · simpa using hback
      · rwa [List.head?_reverse]

theorem toList_trim (s : String) : (trim s).toList = trimChars s.toList := by
  rw [trim, String.toList_ofList]

@[simp] theorem trim_trim (s : String) : trim (trim s) = trim s := by
  have hchars : trimChars (trimChars s.toList) = trimChars s.toList :=
    trimChars_eq_iff.2 ⟨isTrimmed_trimChars _, [], [], by simp⟩
  rw [trim, toList_trim, hchars, trim]

@[simp] theorem isAllBlank_trim (s : String) : isAllBlank (trim s) = isAllBlank s := by
  obtain ⟨front, back, hs, hfront, hback⟩ := exists_eq_append_trimChars s.toList
  rw [isAllBlank, isAllBlank, toList_trim]
  conv_rhs => rw [hs]
  rw [List.all_append, List.all_append, List.all_eq_true.2 hfront, List.all_eq_true.2 hback,
    Bool.true_and, Bool.and_true]

theorem mem_of_mem_trim {s : String} {c : Char} (h : c ∈ (trim s).toList) : c ∈ s.toList := by
  obtain ⟨front, back, hs, -, -⟩ := exists_eq_append_trimChars s.toList
  rw [toList_trim] at h
  rw [hs]
  simp [h]

/-- Texts are compared by their code points, the first ones first. -/
theorem map_toNat_lt_iff (a b : List Char) : a.map Char.toNat < b.map Char.toNat ↔ a < b := by
  induction a generalizing b with
  | nil => cases b <;> simp
  | cons c a ih =>
    cases b with
    | nil => simp
    | cons d b =>
      have hchar : c.toNat < d.toNat ↔ c < d := Iff.rfl
      rw [List.map_cons, List.map_cons, List.cons_lt_cons_iff, List.cons_lt_cons_iff, ih, hchar,
        Char.toNat_inj]

end Text

namespace TableFilter

/-! ## Pieces of a text -/

theorem not_mem_of_mem_splitOn {separator : Char} {s piece : List Char}
    (h : piece ∈ s.splitOn separator) : separator ∉ piece := by
  induction s generalizing piece with
  | nil =>
    obtain rfl : piece = [] := by simpa using h
    exact List.not_mem_nil
  | cons c s ih =>
    rw [List.splitOn_cons_eq_if_modifyHead] at h
    split at h
    · obtain rfl | h := List.mem_cons.1 h
      · exact List.not_mem_nil
      · exact ih h
    · rename_i hc
      obtain ⟨first, more, hsplit⟩ :=
        List.exists_cons_of_ne_nil (List.splitOn_ne_nil separator s)
      rw [hsplit, List.modifyHead_cons] at h
      obtain rfl | h := List.mem_cons.1 h
      · have hfirst : separator ∉ first := ih (by simp [hsplit])
        have hne : separator ≠ c := fun he => hc (by simp [he])
        simp [hne, hfirst]
      · exact ih (by simp [hsplit, h])

/-- The pieces of a text are the only texts without a comma that give it with commas between
them. -/
theorem pieces_eq_iff {text : String} {ps : List String} : pieces text = ps ↔
    ps ≠ [] ∧ (∀ p ∈ ps, ',' ∉ p.toList) ∧ ",".intercalate ps = text := by
  have hseparator : ",".toList = [','] := rfl
  constructor
  · rintro rfl
    refine ⟨?_, ?_, ?_⟩
    · simp [pieces]
    · intro p hp
      obtain ⟨piece, hpiece, rfl⟩ := List.mem_map.1 hp
      rw [String.toList_ofList]
      exact not_mem_of_mem_splitOn hpiece
    · apply String.toList_inj.1
      rw [String.toList_intercalate, hseparator, pieces, List.map_map]
      simp [Function.comp_def, List.intercalate_splitOn]
  · rintro ⟨hne, hcomma, rfl⟩
    have hsplit : ([','].intercalate (ps.map String.toList)).splitOn ',' =
        ps.map String.toList := by
      apply List.splitOn_intercalate
      · simpa using hcomma
      · simpa using hne
    rw [pieces, String.toList_intercalate, hseparator, hsplit, List.map_map]
    simp [Function.comp_def]

theorem pieces_intercalate {ps : List String} (hne : ps ≠ []) (hcomma : ∀ p ∈ ps, ',' ∉ p.toList) :
    pieces (",".intercalate ps) = ps :=
  pieces_eq_iff.2 ⟨hne, hcomma, rfl⟩

theorem pieces_ne_nil (text : String) : pieces text ≠ [] := (pieces_eq_iff.1 rfl).1

theorem comma_not_mem_of_mem_pieces {text p : String} (hp : p ∈ pieces text) : ',' ∉ p.toList :=
  (pieces_eq_iff.1 rfl).2.1 p hp

/-- A text of blanks has no comma, so it is a piece as a whole. -/
theorem pieces_of_isAllBlank {text : String} (h : Text.isAllBlank text = true) :
    pieces text = [text] := by
  have hcomma : ',' ∉ text.toList := by
    intro hmem
    have hblank : Text.isBlank ',' = true := List.all_eq_true.1 h _ hmem
    exact absurd hblank (by decide)
  exact pieces_eq_iff.2 ⟨List.cons_ne_nil _ _, by simpa using hcomma, String.intercalate_singleton⟩

/-! ## Filters by their names -/

theorem contains_eq_true_iff {f : TableFilter} {t : String} :
    f.contains t = true ↔ t ∈ f.names := List.contains_iff_mem

/-- A filter is known by the names that it lets through. -/
theorem eq_of_contains_eq {f g : TableFilter}
    (h : ∀ t, f.contains t = true ↔ g.contains t = true) : f = g := by
  obtain ⟨names, hrising⟩ := f
  obtain ⟨others, hothers⟩ := g
  obtain rfl : names = others := by
    apply hrising.eq_of_mem_iff hothers
    intro t
    simpa only [contains_eq_true_iff] using h t
  rfl

theorem pairwise_codePoints (f : TableFilter) :
    (f.names.map fun name => name.toList.map Char.toNat).Pairwise (· < ·) := by
  rw [List.pairwise_map]
  apply f.rising.imp
  intro a b hab
  exact (Text.map_toNat_lt_iff _ _).2 (String.lt_iff.1 hab)

/-- The filter that lets through the names in a list. -/
def sorted (names : List String) : TableFilter := ⟨sortedNames names, sortedNames_rising names⟩

theorem mem_names_sorted_iff {names : List String} {t : String} :
    t ∈ (sorted names).names ↔ t ∈ names := mem_sortedNames

theorem contains_sorted_iff {names : List String} {t : String} :
    (sorted names).contains t = true ↔ t ∈ names :=
  contains_eq_true_iff.trans mem_names_sorted_iff

/-- Neither the order of the names counts nor how often one stands there. -/
theorem sorted_eq_of_subset {names others : List String} (h : others ⊆ names)
    (h' : names ⊆ others) : sorted others = sorted names := by
  apply eq_of_contains_eq
  intro t
  rw [contains_sorted_iff, contains_sorted_iff]
  exact ⟨fun ht => h ht, fun ht => h' ht⟩

theorem sorted_names (f : TableFilter) : sorted f.names = f := by
  apply eq_of_contains_eq
  intro t
  rw [contains_sorted_iff, contains_eq_true_iff]

theorem ofNames_eq_sorted {names : List String} (hne : names ≠ [])
    (hnone : ∀ name ∈ names, Text.isAllBlank name = false) :
    ofNames names = .ok (sorted (names.map Text.trim)) := by
  have hfind : names.find? Text.isAllBlank = none := by simpa using hnone
  rw [ofNames, hfind, sorted]
  exact if_neg (by simpa using hne)

theorem exists_ofNames_eq_blankName {names : List String}
    (h : ∃ name ∈ names, Text.isAllBlank name = true) :
    ∃ name, ofNames names = .error (.blankName name) := by
  obtain ⟨name, hname⟩ := Option.isSome_iff_exists.1 (List.find?_isSome.2 h)
  exact ⟨name, by rw [ofNames, hname]⟩

/-! ## Filters from a text -/

theorem ofText_eq_sorted {text : String} (h : ∀ p ∈ pieces text, Text.isAllBlank p = false) :
    ofText text = .ok (sorted ((pieces text).map Text.trim)) := by
  have htext : ¬ Text.isAllBlank text = true := by
    intro hblank
    have hpiece := h text (by simp [pieces_of_isAllBlank hblank])
    rw [hblank] at hpiece
    cases hpiece
  rw [ofText, if_neg htext, ofNames_eq_sorted (pieces_ne_nil text) h]

theorem ofText_intercalate {ps : List String} (hne : ps ≠ []) (hcomma : ∀ p ∈ ps, ',' ∉ p.toList)
    (hnone : ∀ p ∈ ps, Text.isAllBlank p = false) :
    ofText (",".intercalate ps) = .ok (sorted (ps.map Text.trim)) := by
  have hpieces := pieces_intercalate hne hcomma
  rw [ofText_eq_sorted (by rwa [hpieces]), hpieces]

/-- A name that is read as it is written. A name of a list may hold a comma, and then it is not. -/
structure IsWritable (name : String) : Prop where
  trimmed : Text.trim name = name
  notBlank : Text.isAllBlank name = false
  noComma : ',' ∉ name.toList

theorem isWritable_trim {p : String} (hblank : Text.isAllBlank p = false)
    (hcomma : ',' ∉ p.toList) : IsWritable (Text.trim p) where
  trimmed := Text.trim_trim p
  notBlank := by rw [Text.isAllBlank_trim, hblank]
  noComma := fun hmem => hcomma (Text.mem_of_mem_trim hmem)

/-- The names of a filter, with commas between them, are read as that filter. -/
theorem ofText_names {f : TableFilter} (hne : f.names ≠ [])
    (h : ∀ name ∈ f.names, IsWritable name) : ofText (",".intercalate f.names) = .ok f := by
  have htrim : f.names.map Text.trim = f.names := by
    have hid : ∀ name ∈ f.names, Text.trim name = id name := fun name hname => (h name hname).trimmed
    rw [List.map_congr_left hid, List.map_id]
  rw [ofText_intercalate hne (fun name hname => (h name hname).noComma)
    (fun name hname => (h name hname).notBlank), htrim, sorted_names]

/-- The three ways in which reading a text ends. -/
theorem ofText_cases (text : String) :
    (Text.isAllBlank text = true ∧ ofText text = .error .empty) ∨
      (Text.isAllBlank text = false ∧ (∃ p ∈ pieces text, Text.isAllBlank p = true) ∧
        ofText text = .error (.blankName text)) ∨
      (Text.isAllBlank text = false ∧ (∀ p ∈ pieces text, Text.isAllBlank p = false) ∧
        ofText text = .ok (sorted ((pieces text).map Text.trim))) := by
  by_cases htext : Text.isAllBlank text = true
  · exact .inl ⟨htext, by rw [ofText, if_pos htext]⟩
  have hfalse := Bool.eq_false_iff.2 htext
  by_cases hpiece : ∃ p ∈ pieces text, Text.isAllBlank p = true
  · obtain ⟨name, hnames⟩ := exists_ofNames_eq_blankName hpiece
    exact .inr (.inl ⟨hfalse, hpiece, by rw [ofText, if_neg htext, hnames]⟩)
  · have hnone : ∀ p ∈ pieces text, Text.isAllBlank p = false := by simpa using hpiece
    exact .inr (.inr ⟨hfalse, hnone, ofText_eq_sorted hnone⟩)

theorem ofText_eq_empty_iff (text : String) :
    ofText text = .error .empty ↔ Text.isAllBlank text = true := by
  obtain ⟨htext, h⟩ | ⟨htext, -, h⟩ | ⟨htext, -, h⟩ := ofText_cases text
  all_goals simp [h, htext]

theorem ofText_eq_blankName_iff (text t : String) : ofText text = .error (.blankName t) ↔
    t = text ∧ Text.isAllBlank text = false ∧ ∃ p ∈ pieces text, Text.isAllBlank p = true := by
  obtain ⟨htext, h⟩ | ⟨htext, hpiece, h⟩ | ⟨-, hnone, h⟩ := ofText_cases text
  · simp [h, htext]
  · simp only [h, Except.error.injEq, FilterError.blankName.injEq, htext, hpiece, and_true]
    exact eq_comm
  · have hpiece : ¬ ∃ p ∈ pieces text, Text.isAllBlank p = true := by simpa using hnone
    simp [h, hpiece]

/-- **A filter means the pieces it is written with.** A text of blanks is no filter, and neither is
one with a blank piece among others, which is reported as a whole. Any other text is a filter that
lets through exactly what its pieces are when trimmed, and lists these names rising by their code
points. It is the filter of the pieces as a list of names. Neither their order counts nor how often
one is written, and the names of the filter with commas between them are read as the same one. -/
theorem ofText_decided_by_pieces (text : String) :
    (ofText text = .error .empty ↔ Text.isAllBlank text = true) ∧
      (∀ t, ofText text = .error (.blankName t) ↔
        t = text ∧ Text.isAllBlank text = false ∧ ∃ p ∈ pieces text, Text.isAllBlank p = true) ∧
      ((∀ p ∈ pieces text, Text.isAllBlank p = false) → ∃ f, ofText text = .ok f ∧
        (∀ t, f.contains t = true ↔ ∃ p ∈ pieces text, t = Text.trim p) ∧
        (∀ t, t ∈ f.names ↔ f.contains t = true) ∧
        (f.names.map fun name => name.toList.map Char.toNat).Pairwise (· < ·) ∧
        ofNames (pieces text) = .ok f ∧
        (∀ ps, ps ⊆ pieces text → pieces text ⊆ ps →
          ofText (",".intercalate ps) = .ok f ∧ ofNames ps = .ok f) ∧
        ofText (",".intercalate f.names) = .ok f) := by
  refine ⟨ofText_eq_empty_iff text, ofText_eq_blankName_iff text, fun hnone => ?_⟩
  have hcomma : ∀ p ∈ pieces text, ',' ∉ p.toList := fun p => comma_not_mem_of_mem_pieces
  have hne := pieces_ne_nil text
  have hmem (t : String) : t ∈ (sorted ((pieces text).map Text.trim)).names ↔
      ∃ p ∈ pieces text, t = Text.trim p := by
    rw [mem_names_sorted_iff, List.mem_map]
    simp only [eq_comm]
  refine ⟨sorted ((pieces text).map Text.trim), ofText_eq_sorted hnone,
    fun t => contains_eq_true_iff.trans (hmem t), fun t => contains_eq_true_iff.symm,
    pairwise_codePoints _, ofNames_eq_sorted hne hnone, fun ps hps hall => ?_, ofText_names ?_ ?_⟩
  · have hps_ne : ps ≠ [] := by
      rintro rfl
      exact hne (List.subset_nil.1 hall)
    have hps_none : ∀ p ∈ ps, Text.isAllBlank p = false := fun p hp => hnone p (hps hp)
    have hsame : sorted (ps.map Text.trim) = sorted ((pieces text).map Text.trim) :=
      sorted_eq_of_subset (List.map_subset _ hps) (List.map_subset _ hall)
    rw [ofText_intercalate hps_ne (fun p hp => hcomma p (hps hp)) hps_none,
      ofNames_eq_sorted hps_ne hps_none, hsame]
    exact ⟨rfl, rfl⟩
  · obtain ⟨p, hp⟩ := List.exists_mem_of_ne_nil _ hne
    exact List.ne_nil_of_mem ((hmem (Text.trim p)).2 ⟨p, hp, rfl⟩)
  · intro name hname
    obtain ⟨p, hp, rfl⟩ := (hmem name).1 hname
    exact isWritable_trim (hnone p hp) (hcomma p hp)

/-- A name with a tab inside, which is not trimmed, and a wide blank at an end, which is. -/
theorem ofText_decided_by_pieces_spacedNames :
    (∀ p ∈ pieces "posts ,\u2003us\ters,posts", Text.isAllBlank p = false) ∧
      ∃ f, ofText "posts ,\u2003us\ters,posts" = .ok f ∧ f.names = ["posts", "us\ters"] ∧
        f.contains "us\ters" = true ∧ f.contains "\u2003us\ters" = false ∧
        ofText "\u2003us\ters,posts ,posts,\u2003us\ters" = .ok f ∧
        ofText "posts,us\ters" = .ok f ∧
        ofText "posts,\u2003,users" = .error (.blankName "posts,\u2003,users") ∧
        ofText "\u2003" = .error .empty := by
  have hnone : ∀ p ∈ pieces "posts ,\u2003us\ters,posts", Text.isAllBlank p = false := by
    decide +kernel
  obtain ⟨f, hf, hcontains, -, -, -, hany, hagain⟩ :=
    (ofText_decided_by_pieces "posts ,\u2003us\ters,posts").2.2 hnone
  have hlist : f.names = ["posts", "us\ters"] := by
    have hcomputed : (ofText "posts ,\u2003us\ters,posts").toOption.map names =
        some ["posts", "us\ters"] := by decide +kernel
    rw [hf] at hcomputed
    exact Option.some.inj hcomputed
  have hnot : f.contains "\u2003us\ters" = false := by
    rw [contains, hlist]
    decide +kernel
  rw [hlist] at hagain
  have hyes : f.contains "us\ters" = true :=
    (hcontains _).2 ⟨"\u2003us\ters", by decide +kernel, by decide +kernel⟩
  refine ⟨hnone, f, hf, hlist, hyes, hnot,
    (hany ["\u2003us\ters", "posts ", "posts", "\u2003us\ters"] ?_ ?_).1, hagain,
    ((ofText_decided_by_pieces _).2.1 _).2 ⟨rfl, by decide +kernel, by decide +kernel⟩,
    (ofText_decided_by_pieces _).1.2 (by decide +kernel)⟩
  · decide +kernel
  · decide +kernel

end TableFilter

end SchemaDiagram
