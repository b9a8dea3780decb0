/-
What a run of the command leaves behind (`run_all_or_nothing`).

A run over a file tree goes through five stages: theme, filter, reading,
parsing, writing. What they come to is worked out without looking at what is
logged (`resultIn`): the fault of the first stage that fails, or else what is
put out and the files behind it. All that is left for the run is to write the
log and to end with the result (`run_eq`), so the log is all that the way a run
is logged can change. Which events are shown and how is up to the logger, the
faults of reading and writing are up to the standard input and the tree.
-/
import SchemaDiagram.CommandLine.Run

namespace SchemaDiagram.CommandLine

/-! ## Writing one file -/

/-- The file that is written at a place, whether or not it is there already. -/
def Place.target : Place → Except FileFault Path
  | .file p => .ok p
  | .free p => .ok p
  | .directory => .error .isDirectory
  | .slashed _ => .error .isDirectory

namespace FileTree

/-- A file, unless writing it is refused. -/
def writableAt (t : FileTree) (p : Path) : Except FileFault Path :=
  (t.unwritable p).elim (.ok p) .error

/-- The file that is written at a path. -/
def target (t : FileTree) (path : String) : Except FileFault Path :=
  match (t.find path).bind Place.target with
  | .error fault => .error fault
  | .ok p => t.writableAt p

/-- The second tree is the first one but for a file and what it holds. -/
structure ChangedAt (t t' : FileTree) (p : Path) (content : ByteArray) : Prop where
  here : t'.here = t.here
  directories : t'.directories = t.directories
  unreadable : t'.unreadable = t.unreadable
  unwritable : t'.unwritable = t.unwritable
  changed : t'.content? p = some content
  others : ∀ q, q ≠ p → t'.content? q = t.content? q

theorem changedAt_put (t : FileTree) (p : Path) (content : ByteArray) :
    t.ChangedAt (t.put p content) p content where
  here := rfl
  directories := rfl
  unreadable := rfl
  unwritable := rfl
  changed := by rw [content?_put, if_pos rfl]
  others q hq := by rw [content?_put, if_neg hq]

theorem isDirectory_put (t : FileTree) (p : Path) (content : ByteArray) (directory : Path) :
    (t.put p content).isDirectory directory = t.isDirectory directory := rfl

/-- Whether a file can be written does not depend on what is written to it. -/
theorem write_eq (t : FileTree) (path : String) (content : ByteArray) :
    t.write path content = (t.target path).map fun p => t.put p content := by
  have hwrite (p : Path) : t.writeAt p content = (t.writableAt p).map fun p => t.put p content := by
    rw [writeAt, writableAt]
    cases t.unwritable p <;> rfl
  rw [write, target]
  cases t.find path with
  | error fault => rfl
  | ok place =>
    cases place with
    | directory => rfl
    | slashed fault => rfl
    | file p => exact hwrite p
    | free p => exact hwrite p

theorem eq_of_writableAt {t : FileTree} {p q : Path} (h : t.writableAt q = .ok p) : q = p := by
  rw [writableAt] at h
  cases hq : t.unwritable q with
  | some fault =>
    rw [hq] at h
    cases h
  | none =>
    rw [hq] at h
    exact Except.ok.inj h

theorem exists_of_target {t : FileTree} {path : String} {p : Path} (h : t.target path = .ok p) :
    ∃ place, t.find path = .ok place ∧ place.target = .ok p := by
  rw [target] at h
  cases hplace : (t.find path).bind Place.target with
  | error fault =>
    rw [hplace] at h
    cases h
  | ok q =>
    rw [hplace] at h
    obtain rfl := eq_of_writableAt h
    cases hfind : t.find path with
    | error fault =>
      rw [hfind] at hplace
      cases hplace
    | ok place =>
      rw [hfind] at hplace
      exact ⟨place, rfl, hplace⟩

theorem lookUp_put {t : FileTree} {path p : Path} {name : String} {place : Place}
    (content : ByteArray) (h : t.lookUp path name = .ok place) (hp : place.target = .ok p) :
    (t.put p content).lookUp path name = .ok (.file p) := by
  unfold lookUp at h ⊢
  split at h
  · cases h
  next hname =>
    rw [if_neg hname]
    obtain rfl : path = p := by
      split at h
      · cases h
        exact Except.ok.inj hp
      · cases h
        exact Except.ok.inj hp
    rw [content?_put, if_pos rfl]
    rfl

/-- Once a file is written its path leads to it. -/
theorem follow_put {t : FileTree} {directory p : Path} {names : List String} {place : Place}
    (content : ByteArray) (h : t.follow directory names = .ok place) (hp : place.target = .ok p) :
    (t.put p content).follow directory names = .ok (.file p) := by
  fun_induction follow t directory names with
  | case1 =>
    cases h
    cases hp
  | case2 directory name rest hskip ih =>
    rw [follow, if_pos hskip]
    exact ih h
  | case3 directory rest hskip ih =>
    rw [follow, if_neg hskip, if_pos rfl]
    exact ih h
  | case4 directory name rest hskip hup hdir ih =>
    rw [follow, if_neg hskip, if_neg hup, isDirectory_put, if_pos hdir]
    exact ih h
  | case5 directory name rest hskip hup hdir found hlast =>
    rw [follow, if_neg hskip, if_neg hup, isDirectory_put, if_neg hdir]
    simp only [if_pos hlast]
    exact lookUp_put content h hp
  | case6 =>
    cases h
    cases hp
  | case7 => cases h

theorem find_put {t : FileTree} {path : String} {p : Path} {place : Place} (content : ByteArray)
    (h : t.find path = .ok place) (hp : place.target = .ok p) :
    (t.put p content).find path = .ok (.file p) := by
  rw [find] at h ⊢
  split at h
  · cases h
  next hempty =>
  split at h
  · cases h
  next hlong =>
  rw [if_neg hempty, if_neg hlong]
  exact follow_put content h hp

/-- What is read where a file has been written: its content, unless reading there is refused. -/
theorem read_put_of_target {t : FileTree} {path : String} {p : Path} (content : ByteArray)
    (h : t.target path = .ok p) :
    (t.put p content).read path = (t.unreadable p).elim (.ok content) .error := by
  obtain ⟨place, hfind, hp⟩ := exists_of_target h
  have hunreadable : (t.put p content).unreadable = t.unreadable := rfl
  rw [read, find_put content hfind hp]
  simp only [readAt, hunreadable, content?_put, if_pos]
  cases t.unreadable p <;> rfl

end FileTree

/-! ## Stages -/

/-- The document of a run: what the input file or the standard input holds, read as text. -/
def sourceIn (input : StandardInput) (tree : FileTree) : Option String → Except Failure String
  | none => (input.read.bind decode).mapError .readInput
  | some path =>
    match tree.read path with
    | .error fault => .error (.readFile path fault.message)
    | .ok bytes => (decode bytes).mapError (.readFile path)

/-- The content of a run, or the first failure on the way to it. -/
def contentIn (input : StandardInput) (env : Environment) (a : Arguments) (tree : FileTree) :
    Except Failure String := do
  let config ← (configOf env a).mapError .config
  let source ← sourceIn input tree a.input
  (contentOf config source).1

/-- The events of a run. Before the document is read nothing happens that could be shown. -/
def eventsIn (input : StandardInput) (env : Environment) (a : Arguments) (tree : FileTree) :
    List Event :=
  let events : Except Failure (List Event) := do
    let config ← (configOf env a).mapError .config
    let source ← sourceIn input tree a.input
    return beginning a config ++ (contentOf config source).2
  events.toOption.getD []

section Contents

variable {input : StandardInput} {env : Environment} {a : Arguments} {tree : FileTree}

theorem contentIn_of_configOf {cause : ConfigError} (h : configOf env a = .error cause) :
    contentIn input env a tree = .error (.config cause) := by
  rw [contentIn, h]
  rfl

theorem eventsIn_of_configOf {cause : ConfigError} (h : configOf env a = .error cause) :
    eventsIn input env a tree = [] := by
  rw [eventsIn, h]
  rfl

section Configured

variable {config : Config} (hconfig : configOf env a = .ok config)

include hconfig

theorem contentIn_of_sourceIn {failure : Failure}
    (h : sourceIn input tree a.input = .error failure) :
    contentIn input env a tree = .error failure := by
  rw [contentIn, hconfig, h]
  rfl

theorem eventsIn_of_sourceIn {failure : Failure}
    (h : sourceIn input tree a.input = .error failure) : eventsIn input env a tree = [] := by
  rw [eventsIn, hconfig, h]
  rfl

theorem contentIn_eq {source : String} (hsource : sourceIn input tree a.input = .ok source) :
    contentIn input env a tree = (contentOf config source).1 := by
  rw [contentIn, hconfig, hsource]
  rfl

theorem eventsIn_eq {source : String} (hsource : sourceIn input tree a.input = .ok source) :
    eventsIn input env a tree = beginning a config ++ (contentOf config source).2 := by
  rw [eventsIn, hconfig, hsource]
  rfl

end Configured

end Contents

/-- What a run puts out and the files behind it, once it has a content. -/
def delivered (tree : FileTree) (output : Option String) (content : String) :
    Except Failure (String × FileTree) :=
  match output with
  | none => .ok (content, tree)
  | some path =>
    match tree.target path with
    | .error fault => .error (.writeFile path fault.message)
    | .ok p => .ok ("Output written to " ++ path ++ "\n", tree.put p content.toUTF8)

/-- What all stages of a run come to. -/
def resultIn (input : StandardInput) (env : Environment) (a : Arguments) (tree : FileTree) :
    Except Failure (String × FileTree) := do
  let content ← contentIn input env a tree
  delivered tree a.output content

def logIn (input : StandardInput) (env : Environment) (a : Arguments) (tree : FileTree) :
    List String :=
  env.logger.lines env.log a.verbose (eventsIn input env a tree)

/-- The end of a run that has logged some lines. A failure leaves the files as they were. -/
def finish (tree : FileTree) (log : List String) :
    Except Failure (String × FileTree) → Report × FileTree
  | .error failure => (.failure log failure, tree)
  | .ok (output, tree') => (.success log output, tree')

/-- What two steps over a tree do, one after the other. -/
theorem bind_apply {α β : Type} (x : StateM FileTree α) (f : α → StateM FileTree β)
    (tree : FileTree) : (x >>= f) tree = f (x tree).1 (x tree).2 := rfl

theorem pure_apply {α : Type} (x : α) (tree : FileTree) :
    (pure x : StateM FileTree α) tree = (x, tree) := rfl

theorem readSource_ofTree (input : StandardInput) (tree : FileTree) (path? : Option String) :
    readSource (Host.ofTree input) path? tree = ((sourceIn input tree path?).map some, tree) := by
  cases path? with
  | none =>
    simp only [readSource, Host.ofTree, sourceIn, bind_apply, pure_apply]
    cases input.read with
    | error fault => rfl
    | ok bytes =>
      simp only [Except.map, Except.bind]
      cases decode bytes <;> rfl
  | some path =>
    simp only [readSource, Host.ofTree, sourceIn, bind_apply]
    cases tree.read path with
    | error fault => rfl
    | ok bytes =>
      simp only [Except.bind]
      cases decode bytes <;> rfl

theorem deliver_ofTree (input : StandardInput) (tree : FileTree) (output : Option String)
    (log : List String) (content : String) :
    deliver (Host.ofTree input) output log content tree =
      finish tree log (delivered tree output content) := by
  cases output with
  | none => rfl
  | some path =>
    simp only [deliver, delivered, Host.ofTree, bind_apply, FileTree.write_eq]
    cases tree.target path <;> rfl

/-- A run over a tree works out its result, logs its events, and ends. -/
theorem run_eq (input : StandardInput) (env : Environment) (a : Arguments) (tree : FileTree) :
    run (Host.ofTree input) env a tree =
      finish tree (logIn input env a tree) (resultIn input env a tree) := by
  rw [resultIn, logIn]
  cases hconfig : configOf env a with
  | error cause =>
    rw [contentIn_of_configOf hconfig, eventsIn_of_configOf hconfig]
    simp only [run, hconfig]
    rfl
  | ok config =>
    cases hsource : sourceIn input tree a.input with
    | error failure =>
      rw [contentIn_of_sourceIn hconfig hsource, eventsIn_of_sourceIn hconfig hsource]
      simp only [run, hconfig, bind_apply, readSource_ofTree, hsource, Except.map]
      rfl
    | ok source =>
      rw [contentIn_eq hconfig hsource, eventsIn_eq hconfig hsource]
      simp only [run, hconfig, bind_apply, readSource_ofTree, hsource, Except.map]
      rcases contentOf config source with ⟨content, events⟩
      cases content with
      | error failure => rfl
      | ok text => exact deliver_ofTree ..

/-! ## Logging

Neither what a run comes to nor how it ends has to do with its log. -/

theorem resultIn_logging (input : StandardInput) (env : Environment) (a : Arguments)
    (tree : FileTree) (logger : Logger) (log : Option String) (verbose : Bool) :
    resultIn input { env with log, logger } { a with verbose } tree =
      resultIn input env a tree := by
  simp only [resultIn, contentIn, configOf]

namespace Report

variable (log : List String) (f : Failure)

theorem errors_failure : (failure log f).errors = log ++ ["Error: " ++ f.message] := rfl

theorem getLast?_errors_failure :
    (failure log f).errors.getLast? = some ("Error: " ++ f.message) := by
  rw [errors_failure, List.getLast?_concat]

theorem errorText_failure : (failure log f).errorText =
    String.join (log.map (· ++ "\n")) ++ ("Error: " ++ f.message ++ "\n") := by
  rw [errorText, errors_failure, List.map_append, String.join, List.foldl_append]
  rfl

theorem errors_success (output : String) : (success log output).errors = log := List.append_nil log

end Report

section Finishing

variable {tree tree₁ tree₂ : FileTree} {log log' : List String}
  {result : Except Failure (String × FileTree)} {report report' : Report}

theorem log_of_finish (h : finish tree log result = (report, tree₁)) : report.log = log := by
  cases result with
  | error failure =>
    cases h
    rfl
  | ok result =>
    cases h
    rfl

/-- Whatever is logged, a run ends alike, and a failure stands last. -/
theorem finish_alike (h : finish tree log result = (report, tree₁))
    (h' : finish tree log' result = (report', tree₂)) :
    report'.toEnding = report.toEnding ∧ tree₂ = tree₁ ∧
      (report.failure? = none ∨ report'.errors.getLast? = report.errors.getLast?) := by
  cases result with
  | error failure =>
    cases h
    cases h'
    refine ⟨rfl, rfl, .inr ?_⟩
    rw [Report.getLast?_errors_failure, Report.getLast?_errors_failure]
  | ok result =>
    cases h
    cases h'
    exact ⟨rfl, rfl, .inl rfl⟩

end Finishing

/-! ## Faults of the stages

Every stage by itself, whatever the other ones do. Only the parsing has nothing to fail on when there
is no document. -/

def failure? {α : Type} : Except Failure α → Option Failure
  | .error failure => some failure
  | .ok _ => none

section Faults

variable (input : StandardInput) (env : Environment) (a : Arguments) (tree : FileTree)

def themeFault? : Option Failure :=
  failure? ((Config.themeOf ((a.theme <|> env.theme).getD Theme.default.name)).mapError .config)

def filterFault? : Option Failure :=
  a.filter.bind fun text => failure? ((Config.filterOf text).mapError .config)

def readFault? : Option Failure := failure? (sourceIn input tree a.input)

def parseFault? : Option Failure :=
  match sourceIn input tree a.input with
  | .error _ => none
  | .ok source => failure? ((Document.parse source).mapError .parse)

def writeFault? : Option Failure :=
  a.output.bind fun path =>
    failure? ((tree.target path).mapError fun fault => .writeFile path fault.message)

/-- The fault of the first stage that fails. -/
def firstFault? : Option Failure :=
  themeFault? env a <|> filterFault? a <|> readFault? input a tree <|> parseFault? input a tree <|>
    writeFault? a tree

theorem failure?_configOf :
    failure? ((configOf env a).mapError .config) = (themeFault? env a <|> filterFault? a) := by
  rw [configOf, themeFault?, filterFault?]
  cases Config.themeOf ((a.theme <|> env.theme).getD Theme.default.name) with
  | error cause => rfl
  | ok theme =>
    cases a.filter with
    | none => rfl
    | some text =>
      simp only [Option.bind_some]
      cases Config.filterOf text <;> rfl

end Faults

/-- Whether a page is wanted is not up to the environment. -/
theorem html_configOf {env : Environment} {a : Arguments} {config : Config}
    (h : configOf env a = .ok config) : config.html = a.html := by
  rw [configOf] at h
  split at h
  · cases h
  split at h
  · cases h
    rfl
  split at h
  · cases h
  · cases h
    rfl

/-- The content of a run is the page or the diagram of its document. -/
theorem contentOf_eq (config : Config) (source : String) : (contentOf config source).1 =
    match Document.parse source with
    | .error cause => .error (.parse cause)
    | .ok schema =>
      let diagram := Diagram.render .builtin config schema
      .ok (if config.html then Page.render diagram config.theme else diagram) := by
  rw [contentOf, Converter.convert]
  cases Document.parse source with
  | error cause => rfl
  | ok schema =>
    cases hhtml : config.html <;>
      simp [Converter.convertSchema, Converter.page?, Converter.render, hhtml]

theorem failure?_delivered (a : Arguments) (tree : FileTree) (content : String) :
    failure? (delivered tree a.output content) = writeFault? a tree := by
  rw [writeFault?]
  cases a.output with
  | none => rfl
  | some path =>
    rw [delivered, Option.bind_some]
    cases tree.target path <;> rfl

/-- A run fails with the fault of the first stage that fails. -/
theorem failure?_resultIn (input : StandardInput) (env : Environment) (a : Arguments)
    (tree : FileTree) :
    failure? (resultIn input env a tree) = firstFault? input env a tree := by
  have hfault := failure?_configOf env a
  simp only [Option.orElse_eq_orElse, Option.orElse_eq_or] at hfault
  simp only [firstFault?, Option.orElse_eq_orElse, Option.orElse_eq_or]
  rw [← Option.or_assoc, ← hfault]
  cases hconfig : configOf env a with
  | error cause =>
    rw [resultIn, contentIn_of_configOf hconfig]
    rfl
  | ok config =>
    cases hsource : sourceIn input tree a.input with
    | error failure =>
      rw [resultIn, contentIn_of_sourceIn hconfig hsource, readFault?, hsource]
      rfl
    | ok source =>
      rw [resultIn, contentIn_eq hconfig hsource, contentOf_eq, readFault?, parseFault?, hsource]
      simp only
      cases Document.parse source with
      | error cause => rfl
      | ok schema => exact failure?_delivered ..

/-- What a run comes to that does not fail. -/
theorem exists_of_resultIn {input : StandardInput} {env : Environment} {a : Arguments}
    {tree tree' : FileTree} {output : String}
    (h : resultIn input env a tree = .ok (output, tree')) :
    ∃ config source schema, configOf env a = .ok config ∧
      sourceIn input tree a.input = .ok source ∧ Document.parse source = .ok schema ∧
      let diagram := Diagram.render .builtin config schema
      let content := if a.html then Page.render diagram config.theme else diagram
      delivered tree a.output content = .ok (output, tree') := by
  cases hconfig : configOf env a with
  | error cause =>
    rw [resultIn, contentIn_of_configOf hconfig] at h
    cases h
  | ok config =>
    cases hsource : sourceIn input tree a.input with
    | error failure =>
      rw [resultIn, contentIn_of_sourceIn hconfig hsource] at h
      cases h
    | ok source =>
      rw [resultIn, contentIn_eq hconfig hsource, contentOf_eq] at h
      cases hschema : Document.parse source with
      | error cause =>
        rw [hschema] at h
        cases h
      | ok schema =>
        rw [hschema] at h
        refine ⟨config, source, schema, rfl, rfl, hschema, ?_⟩
        rw [← html_configOf hconfig]
        exact h

/-- A content goes to one place and nowhere else. -/
theorem exists_of_delivered {tree tree' : FileTree} {output? : Option String}
    {content output : String} : delivered tree output? content = .ok (output, tree') →
    match output? with
    | none => output = content ∧ tree' = tree
    | some path =>
      output = "Output written to " ++ path ++ "\n" ∧
        ∃ p, tree.target path = .ok p ∧ tree.ChangedAt tree' p content.toUTF8 ∧
          tree'.read path = (tree.unreadable p).elim (.ok content.toUTF8) .error := by
  intro h
  cases output? with
  | none =>
    cases h
    exact ⟨rfl, rfl⟩
  | some path =>
    rw [delivered] at h
    cases htarget : tree.target path with
    | error fault =>
      rw [htarget] at h
      cases h
    | ok p =>
      rw [htarget] at h
      cases h
      exact ⟨rfl, p, htarget, FileTree.changedAt_put .., FileTree.read_put_of_target _ htarget⟩

/-! ## The result -/

/-- **A run does all or nothing.** If one of its stages fails, it ends with exit code 1 and the
failure of the first stage that does, no output and the files as they were, and the failure stands
last on the standard error. Otherwise it delivers its content, the page or the diagram, to the one
place asked for, which may well be the input file: as output, or to a file that is the only one to
change. Apart from that a run writes its log, and however it does so, it ends alike. -/
theorem run_all_or_nothing (input : StandardInput) (env : Environment) (a : Arguments)
    (tree : FileTree) :
    let (report, tree') := run (Host.ofTree input) env a tree
    (match firstFault? input env a tree with
      | some failure =>
        let line := "Error: " ++ failure.message
        report.toEnding = ⟨1, "", some failure⟩ ∧ report.errors = report.log ++ [line] ∧
          report.errors.getLast? = some line ∧
          report.errorText = String.join (report.log.map (· ++ "\n")) ++ (line ++ "\n") ∧
          tree' = tree
      | none =>
        ∃ config source schema, configOf env a = .ok config ∧
          sourceIn input tree a.input = .ok source ∧ Document.parse source = .ok schema ∧
          report.toEnding = ⟨0, report.output, none⟩ ∧ report.errors = report.log ∧
          let diagram := Diagram.render .builtin config schema
          let content := if a.html then Page.render diagram config.theme else diagram
          match a.output with
          | none => report.output = content ∧ tree' = tree
          | some path =>
            report.output = "Output written to " ++ path ++ "\n" ∧
              ∃ p, tree.target path = .ok p ∧ tree.ChangedAt tree' p content.toUTF8 ∧
                tree'.read path = (tree.unreadable p).elim (.ok content.toUTF8) .error) ∧
      report.log = env.logger.lines env.log a.verbose (eventsIn input env a tree) ∧
      ∀ logger log verbose,
        let (report', tree'') :=
          run (Host.ofTree input) { env with log, logger } { a with verbose } tree
        report'.toEnding = report.toEnding ∧ tree'' = tree' ∧
          (report.failure? = none ∨ report'.errors.getLast? = report.errors.getLast?) := by
  generalize hrun : run (Host.ofTree input) env a tree = left
  obtain ⟨report, tree'⟩ := left
  rw [run_eq] at hrun
  refine ⟨?_, ?_, fun logger log verbose => ?_⟩
  · rw [← failure?_resultIn]
    generalize logIn input env a tree = log at hrun
    cases hresult : resultIn input env a tree with
    | error failure =>
      rw [hresult] at hrun
      obtain ⟨rfl, rfl⟩ := Prod.mk.inj hrun
      exact ⟨rfl, Report.errors_failure .., Report.getLast?_errors_failure ..,
        Report.errorText_failure .., rfl⟩
    | ok result =>
      rw [hresult] at hrun
      obtain ⟨rfl, rfl⟩ := Prod.mk.inj hrun
      obtain ⟨config, source, schema, hconfig, hsource, hschema, hdelivered⟩ :=
        exists_of_resultIn hresult
      exact ⟨config, source, schema, hconfig, hsource, hschema, rfl, Report.errors_success ..,
        exists_of_delivered hdelivered⟩
  · exact log_of_finish hrun
  · generalize hrun' : run (Host.ofTree input) { env with log, logger } { a with verbose } tree =
      left
    obtain ⟨report', tree''⟩ := left
    rw [run_eq, resultIn_logging] at hrun'
    exact finish_alike hrun hrun'

/-- A run that writes over its own input. -/
example :
    let tree := FileTree.ofFiles .empty [("a.dbml", "Table a \x7b\x7d".toUTF8)]
    let left :=
      run (Host.ofTree (.bytes .empty)) {} { input := "a.dbml", output := "a.dbml" } tree
    left.1 = ⟨⟨0, "Output written to a.dbml\n", none⟩, []⟩ ∧
      (left.2.read "a.dbml").toOption = some "erDiagram\n    a \x7b\n    \x7d\n".toUTF8 := by
  decide +kernel

/-- A run that may not write its output. -/
example :
    let tree : FileTree :=
      { FileTree.ofFiles .empty [] with
        unwritable := fun p => if p = ["tmp", "", "a.mmd"] then some .denied else none }
    let input : StandardInput := .bytes "Table a \x7b\x7d".toUTF8
    (run (Host.ofTree input) {} { output := "a.mmd" } tree).1 =
      ⟨⟨1, "", some (.writeFile "a.mmd" "Permission denied (os error 13)")⟩, []⟩ := by
  decide +kernel

end SchemaDiagram.CommandLine
