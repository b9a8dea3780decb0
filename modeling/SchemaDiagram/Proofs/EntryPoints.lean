/-
All ways to convert a document agree (`entryPoints_agree`).

The diagram in one call, the page in one call and a run of the command each
read the theme, parse and draw on their own. All of them come to the same
drawing or to the same failure (`drawn`), of which the diagram and the page are
two views; a run shows the one that it is asked for. The two calls agree on any
list of tables, a run has its filter as a text.
-/
import SchemaDiagram.Proofs.Runs

namespace SchemaDiagram

/-! ## Drawings -/

/-- A theme and the diagram of a document in it, of the listed tables if there is a list. -/
def drawn (theme : Option String) (source : String) (only : Option (List (Option String))) :
    Except Error (Theme × String) := do
  let theme ← (themeNamed theme).mapError .config
  let filter ← (filterListed only).mapError .config
  let schema ← (Document.parse source).mapError .parse
  return (theme, Diagram.render .builtin { theme, filter } schema)

/-- What is shown of a drawing: the page around it, or the diagram alone. -/
def shown (html : Bool) : Theme × String → String
  | (theme, diagram) => if html then Page.render diagram theme else diagram

theorem themeNamed_eq (theme : Option String) :
    themeNamed theme = Config.themeOf (theme.getD Theme.default.name) := by
  cases theme with
  | none =>
    have hname : Theme.ofName? Theme.default.name = some .default := by decide +kernel
    rw [themeNamed, Option.getD_none, Config.themeOf, hname]
  | some name => rfl

section Calls

variable (theme : Option String) (source : String) (only : Option (List (Option String)))

/-- A drawing fails for the theme, for the list of tables or for the document. -/
theorem drawn_ne_noPage : drawn theme source only ≠ .error .noPage := by
  rw [drawn]
  cases themeNamed theme with
  | error cause => exact fun h => nomatch h
  | ok theme =>
    cases filterListed only with
    | error cause => exact fun h => nomatch h
    | ok filter => cases Document.parse source <;> exact fun h => nomatch h

theorem diagramOf_eq :
    diagramOf theme source only = (drawn theme source only).map (shown false) := by
  rw [diagramOf, configFor, drawn]
  cases themeNamed theme with
  | error cause => rfl
  | ok theme =>
    cases filterListed only with
    | error cause => rfl
    | ok filter =>
      simp only [Converter.convert]
      cases Document.parse source <;> rfl

theorem pageOf_eq : pageOf theme source only = (drawn theme source only).map (shown true) := by
  rw [pageOf, configFor, drawn]
  cases themeNamed theme with
  | error cause => rfl
  | ok theme =>
    cases filterListed only with
    | error cause => rfl
    | ok filter =>
      simp only [Converter.convert]
      cases Document.parse source <;> rfl

end Calls

theorem themeOf_of_drawn {theme : Option String} {source diagram : String}
    {only : Option (List (Option String))} {t : Theme}
    (h : drawn theme source only = .ok (t, diagram)) :
    Config.themeOf (theme.getD Theme.default.name) = .ok t := by
  rw [← themeNamed_eq]
  rw [drawn] at h
  cases htheme : themeNamed theme with
  | error cause =>
    rw [htheme] at h
    cases h
  | ok theme =>
    rw [htheme] at h
    cases hfilter : filterListed only with
    | error cause =>
      rw [hfilter] at h
      cases h
    | ok filter =>
      rw [hfilter] at h
      cases hschema : Document.parse source with
      | error cause =>
        rw [hschema] at h
        cases h
      | ok schema =>
        rw [hschema] at h
        cases h
        rfl

/-! ## Runs -/

namespace CommandLine

theorem decode_toUTF8 (s : String) : decode s.toUTF8 = .ok s := by
  rw [decode, String.fromUTF8?, String.toUTF8_eq_toByteArray, dif_pos s.isValidUTF8]
  rfl

/-- The input of a run is a text in UTF-8. -/
def Provides (input : StandardInput) (tree : FileTree) (source : String) : Option String → Prop
  | none => input = .bytes source.toUTF8
  | some path => tree.read path = .ok source.toUTF8

theorem Provides.sourceIn_eq {input : StandardInput} {tree : FileTree} {source : String}
    {path? : Option String} (h : Provides input tree source path?) :
    sourceIn input tree path? = .ok source := by
  cases path? with
  | none =>
    rw [Provides] at h
    rw [sourceIn, h, StandardInput.read, Except.bind, decode_toUTF8]
    rfl
  | some path =>
    rw [Provides] at h
    rw [sourceIn, h]
    simp only [decode_toUTF8]
    rfl

variable {input : StandardInput} {env : Environment} {a : Arguments} {tree : FileTree}

/-- Without a filter a run comes to the same drawing, or to a failure with the same message. -/
theorem contentIn_eq_drawn {source : String} (hfilter : a.filter = none)
    (hsource : sourceIn input tree a.input = .ok source) :
    (contentIn input env a tree).mapError Failure.message =
      ((drawn (a.theme <|> env.theme) source none).map (shown a.html)).mapError Error.message := by
  rw [drawn, themeNamed_eq]
  cases htheme : Config.themeOf ((a.theme <|> env.theme).getD Theme.default.name) with
  | error cause =>
    have hconfig : configOf env a = .error cause := by rw [configOf, htheme]
    rw [contentIn_of_configOf hconfig]
    rfl
  | ok theme =>
    have hconfig : configOf env a = .ok { theme, html := a.html } := by
      rw [configOf, htheme, hfilter]
    rw [contentIn_eq hconfig hsource, contentOf_eq]
    cases Document.parse source <;> rfl

theorem execute_eq_run {args : List String} (h : Invocation.ofArguments args = .ok (.convert a)) :
    execute (Host.ofTree input) env args tree =
      (.finished (run (Host.ofTree input) env a tree).1, (run (Host.ofTree input) env a tree).2) := by
  simp only [execute, h, bind_apply, pure_apply]

/-- The report shows a text, or else the message of a failure, behind whatever is logged. -/
def Report.Shows (r : Report) : Except String String → Prop
  | .ok text => r.code = 0 ∧ r.output = text ∧ r.errors = r.log
  | .error message =>
    r.code = 1 ∧ r.output = "" ∧ r.errors.getLast? = some ("Error: " ++ message) ∧
      r.errorText = String.join (r.log.map (· ++ "\n")) ++ ("Error: " ++ message ++ "\n")

theorem shows_run {result : Except String String} (houtput : a.output = none)
    (h : (contentIn input env a tree).mapError Failure.message = result) :
    (run (Host.ofTree input) env a tree).1.Shows result := by
  rw [run_eq, resultIn, houtput, ← h]
  generalize logIn input env a tree = log
  cases contentIn input env a tree with
  | error failure =>
    exact ⟨rfl, rfl, Report.getLast?_errors_failure .., Report.errorText_failure ..⟩
  | ok content => exact ⟨rfl, rfl, Report.errors_success ..⟩

end CommandLine

open CommandLine

/-- **All ways to convert a document agree.** The page in one call is the page around the diagram in
one call, or both fail alike, and for want of a diagram it never does; this holds for any list of
tables. A run with the same theme, from the arguments or the environment, that is to print what it
makes of the same text prints that page or that diagram, or else it prints nothing and ends with the
same message. -/
theorem entryPoints_agree (theme : Option String) (source : String) :
    (∀ only,
      match diagramOf theme source only with
      | .ok diagram => ∃ t, Config.themeOf (theme.getD Theme.default.name) = .ok t ∧
          pageOf theme source only = .ok (Page.render diagram t)
      | .error e => pageOf theme source only = .error e) ∧
    (∀ only, pageOf theme source only ≠ .error .noPage) ∧
    ∀ input env args a tree, Invocation.ofArguments args = .ok (.convert a) →
      (a.theme <|> env.theme) = theme → a.filter = none → a.output = none →
      Provides input tree source a.input →
      ∃ report tree', execute (Host.ofTree input) env args tree = (.finished report, tree') ∧
        report.Shows
          ((if a.html then pageOf theme source else diagramOf theme source).mapError Error.message) := by
  refine ⟨fun only => ?_, fun only hpage => ?_,
    fun input env args a tree hargs htheme hfilter houtput hprovides => ?_⟩
  · rw [diagramOf_eq, pageOf_eq]
    cases hdrawn : drawn theme source only with
    | error e => rfl
    | ok drawing => exact ⟨drawing.1, themeOf_of_drawn hdrawn, rfl⟩
  · rw [pageOf_eq] at hpage
    cases hdrawn : drawn theme source only with
    | error e =>
      rw [hdrawn] at hpage
      cases hpage
      exact drawn_ne_noPage theme source only hdrawn
    | ok drawing =>
      rw [hdrawn] at hpage
      cases hpage
  · refine ⟨_, _, execute_eq_run hargs, shows_run houtput ?_⟩
    rw [contentIn_eq_drawn hfilter hprovides.sourceIn_eq, htheme]
    cases a.html with
    | true => rw [if_pos rfl, pageOf_eq]
    | false => rw [if_neg Bool.false_ne_true, diagramOf_eq]

/-- A page in the theme of the environment, of a text that is piped in. -/
theorem entryPoints_agree_pipedPage :
    let source := "Table a \x7b\x7d"
    let env : Environment := { theme := "dark" }
    let a : Arguments := { html := true }
    let tree := FileTree.ofFiles source.toUTF8 []
    Invocation.ofArguments ["--html"] = .ok (.convert a) ∧ (a.theme <|> env.theme) = some "dark" ∧
      a.filter = none ∧ a.output = none ∧ Provides (.bytes source.toUTF8) tree source a.input ∧
      ∃ diagram report tree', diagramOf (some "dark") source = .ok diagram ∧
        execute (Host.ofTree (.bytes source.toUTF8)) env ["--html"] tree = (.finished report, tree') ∧
        report.code = 0 ∧ report.output = Page.render diagram .dark := by
  intro source env a tree
  have hargs : Invocation.ofArguments ["--html"] = .ok (.convert a) := by rfl
  have hdark : Config.themeOf "dark" = .ok .dark := by
    have hname : Theme.ofName? "dark" = some .dark := by decide +kernel
    rw [Config.themeOf, hname]
  have hparse : (diagramOf (some "dark") source).toOption.isSome := by decide +kernel
  obtain ⟨hpage, -, hrun⟩ := entryPoints_agree (some "dark") source
  obtain ⟨report, tree', hexec, hshows⟩ := hrun (.bytes source.toUTF8) env ["--html"] a tree hargs rfl rfl rfl rfl
  refine ⟨hargs, rfl, rfl, rfl, rfl, ?_⟩
  cases hdiagram : diagramOf (some "dark") source with
  | error e =>
    rw [hdiagram] at hparse
    cases hparse
  | ok diagram =>
    have hpage := hpage none
    rw [hdiagram] at hpage
    obtain ⟨t, ht, hpage⟩ := hpage
    rw [Option.getD_some, hdark] at ht
    cases ht
    rw [if_pos rfl, hpage] at hshows
    exact ⟨diagram, report, tree', rfl, hexec, hshows.1, hshows.2.1⟩

end SchemaDiagram
