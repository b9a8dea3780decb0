/-
Pages hold their diagram: what is shown between the tags of a page is the
diagram it was made of, with a newline at its end (`shown?_render`).

A diagram may hold anything, entities and closing tags included. Escaping leaves
no `<` of it, so no tag begins in it; and an entity of its own has its `&`
escaped, so that decoding gives the entity back and not what it stands for. What
is left is the fixed text in front of the diagram: there a tag could begin and
be completed by what the diagram begins with. `isFree` rules that out for every
text behind.
-/
import SchemaDiagram.Page

namespace SchemaDiagram

/-! ## Marks in a text -/

namespace Text

/-- Cuts a text at the first place where a mark stands, into what is in front of the mark and what
is behind it. -/
def cutAt (mark : List Char) : List Char → Option (List Char × List Char)
  | [] => none
  | c :: s =>
    if mark <+: c :: s then some ([], (c :: s).drop mark.length)
    else (cutAt mark s).map fun (front, rest) => (c :: front, rest)

/-- At how many places of a text a mark stands. -/
def occurrences (mark : List Char) : List Char → Nat
  | [] => 0
  | c :: s => occurrences mark s + if mark <+: c :: s then 1 else 0

/-- In the text no mark begins, neither one that ends in it nor one that would end behind it. -/
def isFree (mark : List Char) : List Char → Bool
  | [] => true
  | c :: s => !decide (mark <+: c :: s) && !decide (c :: s <+: mark) && isFree mark s

theorem isFree_cons_iff {mark s : List Char} {c : Char} :
    isFree mark (c :: s) = true ↔
      ¬ mark <+: c :: s ∧ ¬ c :: s <+: mark ∧ isFree mark s = true := by
  simp [isFree, and_assoc]

/-- A text is free of marks if it lacks the character that they begin with. -/
theorem isFree_of_not_mem {c : Char} {s : List Char} (mark : List Char) (h : c ∉ s) :
    isFree (c :: mark) s = true := by
  induction s with
  | nil => rfl
  | cons d s ih =>
    simp only [List.mem_cons, not_or] at h
    have hne := h.1
    rw [isFree_cons_iff, List.cons_prefix_cons, List.cons_prefix_cons]
    exact ⟨fun hp => hne hp.1, fun hp => hne hp.1.symm, ih h.2⟩

theorem not_prefix_append {mark a : List Char} (hmark : ¬ mark <+: a) (ha : ¬ a <+: mark)
    (b : List Char) : ¬ mark <+: a ++ b := by
  intro h
  rcases List.prefix_or_prefix_of_prefix h (List.prefix_append a b) with hp | hp
  · exact hmark hp
  · exact ha hp

theorem isFree_append {mark a b : List Char} (ha : isFree mark a = true)
    (hb : isFree mark b = true) : isFree mark (a ++ b) = true := by
  induction a with
  | nil => exact hb
  | cons c a ih =>
    obtain ⟨hmark, hprefix, hfree⟩ := isFree_cons_iff.1 ha
    rw [List.cons_append, isFree_cons_iff]
    refine ⟨not_prefix_append hmark hprefix b, fun h => hprefix ?_, ih hfree⟩
    exact (List.prefix_append (c :: a) b).trans h

theorem cutAt_append {mark a : List Char} (h : isFree mark a = true) (b : List Char) :
    cutAt mark (a ++ b) = (cutAt mark b).map fun (front, rest) => (a ++ front, rest) := by
  induction a with
  | nil => simp
  | cons c a ih =>
    obtain ⟨hmark, ha, hfree⟩ := isFree_cons_iff.1 h
    have hno : ¬ mark <+: c :: (a ++ b) := not_prefix_append hmark ha b
    rw [List.cons_append, cutAt, if_neg hno, ih hfree, Option.map_map]
    rfl

theorem occurrences_append {mark a : List Char} (h : isFree mark a = true) (b : List Char) :
    occurrences mark (a ++ b) = occurrences mark b := by
  induction a with
  | nil => rfl
  | cons c a ih =>
    obtain ⟨hmark, ha, hfree⟩ := isFree_cons_iff.1 h
    have hno : ¬ mark <+: c :: (a ++ b) := not_prefix_append hmark ha b
    rw [List.cons_append, occurrences, if_neg hno, ih hfree, Nat.add_zero]

theorem cutAt_mark_append {mark : List Char} (h : mark ≠ []) (rest : List Char) :
    cutAt mark (mark ++ rest) = some ([], rest) := by
  obtain ⟨c, mark, rfl⟩ := List.exists_cons_of_ne_nil h
  rw [List.cons_append, cutAt, ← List.cons_append, if_pos (List.prefix_append _ _), List.drop_left]

/-- A mark that does not begin again inside of itself stands once where it is written. -/
theorem occurrences_mark_append {c : Char} {mark : List Char} (hc : c ∉ mark) (rest : List Char) :
    occurrences (c :: mark) (c :: mark ++ rest) = occurrences (c :: mark) rest + 1 := by
  have hrest := occurrences_append (isFree_of_not_mem mark hc) rest
  rw [List.cons_append, occurrences, ← List.cons_append, if_pos (List.prefix_append _ _), hrest]

theorem occurrences_of_isFree {mark s : List Char} (h : isFree mark s = true) :
    occurrences mark s = 0 := by
  have hnone := occurrences_append h []
  rwa [List.append_nil] at hnone

end Text

namespace Page

/-! ## Escaped texts -/

/-- Resolves the two entities that escaping writes. Any other text stands for itself. -/
def unescape : List Char → List Char
  | '&' :: 'l' :: 't' :: ';' :: s => '<' :: unescape s
  | '&' :: 'a' :: 'm' :: 'p' :: ';' :: s => '&' :: unescape s
  | c :: s => c :: unescape s
  | [] => []

theorem unescape_cons {c : Char} (h : c ≠ '&') (s : List Char) :
    unescape (c :: s) = c :: unescape s := by
  rw [unescape.eq_def]
  split <;> simp_all

theorem escapeChar_of_ne {c : Char} (hamp : c ≠ '&') (hless : c ≠ '<') : escapeChar c = [c] := by
  unfold escapeChar
  split <;> simp_all

theorem unescape_escapeChar_append (c : Char) (s : List Char) :
    unescape (escapeChar c ++ s) = c :: unescape s := by
  by_cases hamp : c = '&'
  · subst hamp
    rfl
  by_cases hless : c = '<'
  · subst hless
    rfl
  rw [escapeChar_of_ne hamp hless]
  exact unescape_cons hamp s

theorem unescape_escape (text : String) : unescape (escape text).toList = text.toList := by
  rw [escape, String.toList_ofList]
  induction text.toList with
  | nil => rfl
  | cons c s ih => rw [List.flatMap_cons, unescape_escapeChar_append, ih]

theorem less_not_mem_escape (text : String) : '<' ∉ (escape text).toList := by
  rw [escape, String.toList_ofList]
  intro h
  obtain ⟨c, -, hc⟩ := List.mem_flatMap.1 h
  by_cases hamp : c = '&'
  · subst hamp
    revert hc
    decide
  by_cases hless : c = '<'
  · subst hless
    revert hc
    decide
  rw [escapeChar_of_ne hamp hless, List.mem_singleton] at hc
  exact hless hc.symm

theorem escape_append (a b : String) : escape (a ++ b) = escape a ++ escape b := by
  simp [escape]

/-! ## The newline behind a diagram -/

theorem getLast?_eq_newline_iff (text : String) :
    text.toList.getLast? = some '\n' ↔ ∃ front, text = front ++ "\n" := by
  rw [List.getLast?_eq_some_iff]
  constructor
  · rintro ⟨front, hfront⟩
    exact ⟨String.ofList front, String.toList_inj.1 (by simp [hfront])⟩
  · rintro ⟨front, rfl⟩
    exact ⟨front.toList, by simp⟩

theorem lineEnd_eq_empty_iff (text : String) :
    lineEnd text = "" ↔ ∃ front, text = front ++ "\n" := by
  rw [← getLast?_eq_newline_iff, lineEnd]
  split
  · simp [*]
  · simp [*]

theorem lineEnd_eq_newline_iff (text : String) :
    lineEnd text = "\n" ↔ ¬ ∃ front, text = front ++ "\n" := by
  rw [← getLast?_eq_newline_iff, lineEnd]
  split
  · simp [*]
  · simp [*]

/-- A newline is not escaped, so it may as well be added in front of escaping. -/
theorem escape_append_lineEnd (text : String) :
    escape text ++ lineEnd text = escape (text ++ lineEnd text) := by
  have hnewline : escape (lineEnd text) = lineEnd text := by
    unfold lineEnd
    split
    · rfl
    · rfl
  rw [escape_append, hnewline]

/-! ## Pages -/

/-- The line in front of the diagram. -/
def openTag : String := "<pre class=\"mermaid\">\n"

def closeTag : List Char := ['<', '/', 'p', 'r', 'e', '>']

/-- What a page shows: the text behind the line of the opening tag and in front of the first closing
tag behind it, with the entities resolved. -/
def shown? (page : String) : Option String := do
  let (_, s) ← Text.cutAt openTag.toList page.toList
  let (content, _) ← Text.cutAt closeTag s
  some (String.ofList (unescape content))

/-- The head ends in the opening tag, and that is the only one in it. -/
theorem exists_head_eq : ∃ front, head = front ++ openTag ∧
    Text.isFree openTag.toList front.toList = true := by
  refine ⟨_, rfl, ?_⟩
  simp only [String.toList_append]
  repeat' with_reducible apply Text.isFree_append
  all_goals decide +kernel

theorem isFree_head : Text.isFree closeTag head.toList = true := by
  unfold head
  simp only [String.toList_append]
  repeat' with_reducible apply Text.isFree_append
  all_goals decide +kernel

theorem isFree_name (theme : Theme) : Text.isFree closeTag theme.name.toList = true := by
  cases theme <;> decide +kernel

/-- The tail begins with the closing tag, and that is the only one in it. -/
theorem exists_tail_eq (theme : Theme) : ∃ rest, (tail theme).toList = closeTag ++ rest ∧
    Text.isFree closeTag rest = true := by
  have hclose : "</pre>\n".toList = closeTag ++ ['\n'] := by decide +kernel
  unfold tail
  simp only [String.toList_append]
  rw [hclose]
  simp only [List.append_assoc]
  refine ⟨_, rfl, ?_⟩
  repeat' with_reducible apply Text.isFree_append
  all_goals first | with_reducible exact isFree_name theme | decide +kernel

/-- The diagram and what is put behind it begin no closing tag. -/
theorem isFree_content (diagram : String) :
    Text.isFree closeTag (escape diagram ++ lineEnd diagram).toList = true := by
  rw [escape_append_lineEnd]
  exact Text.isFree_of_not_mem _ (less_not_mem_escape _)

theorem toList_render (diagram : String) (theme : Theme) : (render diagram theme).toList =
    head.toList ++ ((escape diagram ++ lineEnd diagram).toList ++ (tail theme).toList) := by
  simp [render]

/-- The first closing tag of a page stands right behind the diagram. -/
theorem cutAt_closeTag_render (diagram : String) (theme : Theme) : ∃ rest,
    (tail theme).toList = closeTag ++ rest ∧
      Text.cutAt closeTag (render diagram theme).toList =
        some ((head ++ escape diagram ++ lineEnd diagram).toList, rest) := by
  obtain ⟨rest, htail, -⟩ := exists_tail_eq theme
  have hcut : Text.cutAt closeTag (closeTag ++ rest) = some ([], rest) :=
    Text.cutAt_mark_append (by decide) rest
  refine ⟨rest, htail, ?_⟩
  rw [toList_render, Text.cutAt_append isFree_head, Text.cutAt_append (isFree_content diagram),
    htail, hcut]
  simp

theorem occurrences_closeTag_render (diagram : String) (theme : Theme) :
    Text.occurrences closeTag (render diagram theme).toList = 1 := by
  obtain ⟨rest, htail, hrest⟩ := exists_tail_eq theme
  have hmark : Text.occurrences closeTag (closeTag ++ rest) =
      Text.occurrences closeTag rest + 1 :=
    Text.occurrences_mark_append (by decide) rest
  rw [toList_render, Text.occurrences_append isFree_head,
    Text.occurrences_append (isFree_content diagram), htail, hmark,
    Text.occurrences_of_isFree hrest]

theorem shown?_render_eq (diagram : String) (theme : Theme) :
    shown? (render diagram theme) = some (diagram ++ lineEnd diagram) := by
  obtain ⟨front, hhead, hfront⟩ := exists_head_eq
  obtain ⟨rest, htail, -⟩ := exists_tail_eq theme
  have hopen (s : List Char) : Text.cutAt openTag.toList (openTag.toList ++ s) = some ([], s) :=
    Text.cutAt_mark_append (by decide +kernel) s
  have hclose : Text.cutAt closeTag (closeTag ++ rest) = some ([], rest) :=
    Text.cutAt_mark_append (by decide) rest
  have hpage : (render diagram theme).toList = front.toList ++ (openTag.toList ++
      ((escape diagram ++ lineEnd diagram).toList ++ (closeTag ++ rest))) := by
    rw [toList_render, hhead, htail, String.toList_append, List.append_assoc]
  have hcontent : unescape (escape diagram ++ lineEnd diagram).toList =
      (diagram ++ lineEnd diagram).toList := by
    rw [escape_append_lineEnd, unescape_escape]
  rw [shown?, hpage, Text.cutAt_append hfront, hopen]
  simp only [Option.map_some, Option.bind_eq_bind, Option.bind_some]
  rw [Text.cutAt_append (isFree_content diagram), hclose]
  simp only [Option.map_some, Option.bind_some, List.append_nil, hcontent, String.ofList_toList]

/-- **A page shows its diagram and nothing else.** It is a fixed head, the diagram escaped, a
newline unless the diagram ends in one, and a tail that depends on the theme alone. No `<` is left
of the diagram, so the one closing tag of the page is its own; and what is shown in front of it is
the diagram with that newline. So two pages of one theme are equal exactly if their diagrams are, up
to a newline at the end. -/
theorem shown?_render (diagram : String) (theme : Theme) :
    render diagram theme = head ++ escape diagram ++ lineEnd diagram ++ tail theme ∧
      (lineEnd diagram = "" ↔ ∃ text, diagram = text ++ "\n") ∧
      (lineEnd diagram = "\n" ↔ ¬ ∃ text, diagram = text ++ "\n") ∧
      '<' ∉ (escape diagram).toList ∧
      Text.occurrences closeTag (render diagram theme).toList = 1 ∧
      (∃ rest, (tail theme).toList = closeTag ++ rest ∧
        Text.cutAt closeTag (render diagram theme).toList =
          some ((head ++ escape diagram ++ lineEnd diagram).toList, rest)) ∧
      shown? (render diagram theme) = some (diagram ++ lineEnd diagram) ∧
      ∀ other, render other theme = render diagram theme ↔
        other ++ lineEnd other = diagram ++ lineEnd diagram := by
  have hparts (text : String) :
      render text theme = head ++ escape text ++ lineEnd text ++ tail theme := by
    simp only [render, String.append_assoc]
  refine ⟨hparts diagram, lineEnd_eq_empty_iff diagram, lineEnd_eq_newline_iff diagram,
    less_not_mem_escape diagram, occurrences_closeTag_render diagram theme,
    cutAt_closeTag_render diagram theme, shown?_render_eq diagram theme,
    fun other => ⟨fun h => ?_, fun h => ?_⟩⟩
  · have hshown := congrArg shown? h
    rw [shown?_render_eq, shown?_render_eq] at hshown
    exact Option.some.inj hshown
  · have hcontent : escape other ++ lineEnd other = escape diagram ++ lineEnd diagram := by
      rw [escape_append_lineEnd, escape_append_lineEnd, h]
    apply String.toList_inj.1
    rw [toList_render, toList_render, hcontent]

end Page

end SchemaDiagram
