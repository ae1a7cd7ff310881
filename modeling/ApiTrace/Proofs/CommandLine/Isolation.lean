import ApiTrace.CommandLine.Run
import ApiTrace.Proofs.Outcome

/-!
# Files of a run

A run traces its files one after the other and hands two things on from file to file: what has come
of the files so far, and the settings that have been asked for. Settings that have been asked for
say what the environment says (`Settings.Agrees`), so they do not change what the next file gives
(`TraceRequest.result_of_agrees`). What comes of a file is then the same in every run
(`fileResult`), and a run gives, file by file, what the runs on one file give
(`files_are_isolated`).

There is one exception. A file that can be read but not traced ends the run with all that was found.
-/

namespace ApiTrace

/-! ## Settings -/

/-- Whether the settings that have been asked for are what an environment says. -/
structure Settings.Agrees (environment : Environment) (s : Settings) : Prop where
  source : s.environment = environment
  mode : ∀ mode, s.mode = some mode → mode = environment.readMode.1
  names : ∀ names, s.names = some names → names = environment.readNames
  joins : ∀ joins, s.joins = some joins → joins = environment.readJoins.1

namespace Settings

variable {environment : Environment} {s : Settings}

theorem agrees_ofEnvironment (environment : Environment) :
    (ofEnvironment environment).Agrees environment :=
  ⟨rfl, nofun, nofun, nofun⟩

theorem Agrees.getMode (h : s.Agrees environment) :
    s.getMode.value = environment.readMode.1 ∧ s.getMode.settings.Agrees environment := by
  obtain rfl := h.source
  unfold Settings.getMode
  split
  · rename_i mode hmode
    exact ⟨h.mode mode hmode, h⟩
  · refine ⟨rfl, rfl, ?_, h.names, h.joins⟩
    intro mode hmode
    exact (Option.some.inj hmode).symm

theorem Agrees.getNames (h : s.Agrees environment) :
    s.getNames.value = environment.readNames ∧ s.getNames.settings.Agrees environment := by
  obtain rfl := h.source
  unfold Settings.getNames
  split
  · rename_i names hnames
    exact ⟨h.names names hnames, h⟩
  · refine ⟨rfl, rfl, h.mode, ?_, h.joins⟩
    intro names hnames
    exact (Option.some.inj hnames).symm

theorem Agrees.getJoins (h : s.Agrees environment) :
    s.getJoins.value = environment.readJoins.1 ∧ s.getJoins.settings.Agrees environment := by
  obtain rfl := h.source
  unfold Settings.getJoins
  split
  · rename_i joins hjoins
    exact ⟨h.joins joins hjoins, h⟩
  · refine ⟨rfl, rfl, h.mode, h.names, ?_⟩
    intro joins hjoins
    exact (Option.some.inj hjoins).symm

end Settings

/-! ## Requests -/

namespace TraceRequest

variable {ι : Type} {environment : Environment} {s : Settings} (r : TraceRequest)

/-- The mode of a request in an environment. -/
def modeIn (environment : Environment) : Except ChoiceFault Mode :=
  match r.mode with
  | .null => .ok environment.readMode.1
  | value => Mode.ofJson value

/-- The result of a request in an environment. -/
def resultIn (map : Except Outline.Fault (TraceMap ι)) (environment : Environment) :
    Except TraceFault TraceResult := do
  let selected ← r.strategies.mapM fun s => (Strategy.ofJson s).mapError TraceFault.choice
  let m ← map.mapError .outline
  let (session, graph, _) ← analyzeSource r.source r.filepath r.sourceType r.tree
  let mode ← (r.modeIn environment).mapError .choice
  let runs ← (Strategy.all.filter (· ∈ selected)).mapM (r.runStrategy
    ⟨graph, environment.readJoins.1⟩ mode (r.names.getD environment.readNames) m)
  return ⟨r.filepath, session.isParsed, runs.flatMap (·.1), session⟩

theorem chooseMode_of_agrees (h : s.Agrees environment) :
    (r.chooseMode s).value = r.modeIn environment ∧
      (r.chooseMode s).settings.Agrees environment := by
  unfold chooseMode modeIn
  cases r.mode with
  | null => exact ⟨congrArg Except.ok h.getMode.1, h.getMode.2⟩
  | _ => exact ⟨rfl, h⟩

theorem chooseNames_of_agrees (h : s.Agrees environment) :
    (r.chooseNames s).value = r.names.getD environment.readNames ∧
      (r.chooseNames s).settings.Agrees environment := by
  unfold chooseNames
  split
  · rename_i hnames
    rw [hnames]
    exact h.getNames
  · rename_i names hnames
    rw [hnames]
    exact ⟨rfl, h⟩

/-- With settings that say what the environment says a request has the result that it has in the
environment, and the settings stay like that. -/
theorem result_of_agrees (map : Except Outline.Fault (TraceMap ι)) (h : s.Agrees environment) :
    match r.resultIn map environment with
    | .error fault => r.trace map s = .error fault
    | .ok result =>
      ∃ o, r.trace map s = .ok o ∧ o.result = result ∧ o.settings.Agrees environment := by
  obtain ⟨hmode, h⟩ := r.chooseMode_of_agrees h
  obtain ⟨hnames, h⟩ := r.chooseNames_of_agrees h
  obtain ⟨hjoins, h⟩ := h.getJoins
  unfold resultIn trace
  cases r.strategies.mapM fun s => (Strategy.ofJson s).mapError TraceFault.choice with
  | error fault => rfl
  | ok selected =>
    cases map.mapError TraceFault.outline with
    | error fault => rfl
    | ok m =>
      cases analyzeSource r.source r.filepath r.sourceType r.tree with
      | error fault => rfl
      | ok analyzed =>
        obtain ⟨session, graph, log⟩ := analyzed
        dsimp only [bind, Except.bind]
        rw [hmode, hnames, hjoins]
        cases (r.modeIn environment).mapError TraceFault.choice with
        | error fault => rfl
        | ok mode =>
          dsimp only
          cases (Strategy.all.filter (· ∈ selected)).mapM (r.runStrategy
            ⟨graph, environment.readJoins.1⟩ mode (r.names.getD environment.readNames) m) with
          | error fault => rfl
          | ok runs => exact ⟨_, rfl, rfl, h⟩

end TraceRequest

/-! ## Faults of a source -/

/-- Whether a fault is one of the source that is traced: it cannot be parsed, its scopes cannot be
told, or a constant in it cannot be folded. -/
def TraceFault.isOfSource : TraceFault → Bool
  | .parsing _ | .scoping _ | .folding _ => true
  | .choice _ | .outline _ => false

theorem isOfSource_of_analyzeSource {source filepath : Text} {sourceType : Option Text}
    {tree : ConcreteTree} {fault : TraceFault}
    (h : analyzeSource source filepath sourceType tree = .error fault) :
    fault.isOfSource = true := by
  rcases bind_eq_error.1 h with h | ⟨isParsed, -, h⟩
  · obtain ⟨_, -, rfl⟩ := mapError_eq_error.1 h
    rfl
  · dsimp only at h
    split at h
    · cases h
      rfl
    · rcases bind_eq_error.1 h with h | ⟨graph, -, h⟩
      · obtain ⟨_, -, rfl⟩ := mapError_eq_error.1 h
        rfl
      · cases h

theorem TraceRequest.isOfSource_of_runStrategy {ι : Type} {r : TraceRequest} {t : Tracer}
    {mode : Mode} {names : List Text} {m : TraceMap ι} {s : Strategy} {fault : TraceFault}
    (h : r.runStrategy t mode names m s = .error fault) : fault.isOfSource = true := by
  rcases bind_eq_error.1 h with h | ⟨found, -, h⟩
  · obtain ⟨_, -, rfl⟩ := mapError_eq_error.1 h
    rfl
  · cases h

/-- A request that names strategies and a mode fails only for its source. -/
theorem TraceRequest.isOfSource_of_resultIn {ι : Type} {r : TraceRequest} {m : TraceMap ι}
    {environment : Environment} {selected : List Strategy} {mode : Mode} {fault : TraceFault}
    (hstrategies : (r.strategies.mapM fun s => (Strategy.ofJson s).mapError TraceFault.choice) =
      .ok selected)
    (hmode : r.modeIn environment = .ok mode) (h : r.resultIn (.ok m) environment = .error fault) :
    fault.isOfSource = true := by
  rcases bind_eq_error.1 h with h | ⟨_, -, h⟩
  · rw [hstrategies] at h
    cases h
  rcases bind_eq_error.1 h with h | ⟨_, -, h⟩
  · cases h
  rcases bind_eq_error.1 h with h | ⟨⟨session, graph, _⟩, -, h⟩
  · exact isOfSource_of_analyzeSource h
  rcases bind_eq_error.1 h with h | ⟨_, -, h⟩
  · rw [hmode] at h
    cases h
  rcases bind_eq_error.1 h with h | ⟨runs, -, h⟩
  · obtain ⟨s, -, hrun⟩ := exists_of_mapM_eq_error h
    exact isOfSource_of_runStrategy hrun
  · cases h

namespace CommandLine

variable {ι : Type}

/-! ## One file -/

/-- Whether the text of a file can be read. -/
def isReadable (view : FileView) (file : Text) : Bool := (readSource view file).isOk

/-- The request that the command makes for a file. -/
def fileRequest (a : Arguments) (file source : Text) (tree : ConcreteTree) : TraceRequest where
  source := source
  tree := tree
  strategies :=
    (if a.strategies.isEmpty then Strategy.all else a.strategies).map fun s => .string s.name
  mode := a.mode.elim .null fun mode => .string mode.name
  names := if a.globalObjects.isEmpty then none else some a.globalObjects
  filepath := file

/-- What comes of a file in any run: a result if it can be read. -/
def fileResult (a : Arguments) (view : FileView) (environment : Environment) (m : TraceMap ι)
    (file : Text) : Except TraceFault (Option TraceResult) :=
  match readSource view file with
  | .error _ => .ok none
  | .ok (source, tree) => ((fileRequest a file source tree).resultIn (.ok m) environment).map some

/-- What is said of a file that cannot be read. -/
def fileErrors (view : FileView) (file : Text) : List (Console × Item) :=
  match readSource view file with
  | .error item => [item]
  | .ok _ => []

theorem mapM_strategies (strategies : List Strategy) :
    ((strategies.map fun s => Json.string s.name).mapM fun s =>
      (Strategy.ofJson s).mapError TraceFault.choice) = .ok strategies := by
  have hname : ∀ s : Strategy, Strategy.ofJson (.string s.name) = .ok s := by
    intro s
    cases s <;> rfl
  induction strategies with
  | nil => rfl
  | cons s rest ih =>
    rw [List.map_cons, List.mapM_cons, hname, ih]
    rfl

variable {a : Arguments} {view : FileView} {environment : Environment} {m : TraceMap ι}
    {p : Progress}
  {file : Text}

theorem exists_mode_fileRequest (a : Arguments) (environment : Environment) (file source : Text)
    (tree : ConcreteTree) :
    ∃ mode, (fileRequest a file source tree).modeIn environment = .ok mode := by
  unfold TraceRequest.modeIn fileRequest
  cases a.mode with
  | none => exact ⟨_, rfl⟩
  | some mode => exact ⟨mode, by cases mode <;> rfl⟩

theorem isOfSource_of_fileResult {fault : TraceFault}
    (h : fileResult a view environment m file = .error fault) :
    isReadable view file = true ∧ fault.isOfSource = true := by
  unfold fileResult at h
  unfold isReadable
  split at h
  · cases h
  · rename_i source tree hread
    obtain ⟨mode, hmode⟩ := exists_mode_fileRequest a environment file source tree
    refine ⟨by rw [hread]; rfl, ?_⟩
    cases hresult : (fileRequest a file source tree).resultIn (.ok m) environment with
    | error fault' =>
      rw [hresult] at h
      cases h
      exact TraceRequest.isOfSource_of_resultIn (mapM_strategies _) hmode hresult
    | ok result =>
      rw [hresult] at h
      cases h

theorem isEmpty_fileErrors : (fileErrors view file).isEmpty = isReadable view file := by
  unfold fileErrors isReadable
  cases readSource view file <;> rfl

theorem isSome_of_fileResult {o : Option TraceResult}
    (h : fileResult a view environment m file = .ok o) : o.isSome = isReadable view file := by
  unfold fileResult at h
  unfold isReadable
  split at h
  · rename_i item hread
    cases h
    rw [hread]
    rfl
  · rename_i source tree hread
    rw [hread]
    cases hresult : (fileRequest a file source tree).resultIn (.ok m) environment with
    | error fault =>
      rw [hresult] at h
      cases h
    | ok result =>
      rw [hresult] at h
      cases h
      rfl

/-- Whatever came before, a file adds its own result or its own error, or it stops the run. -/
theorem traceFile_of_agrees (a : Arguments) (view : FileView) (m : TraceMap ι)
    (hp : p.settings.Agrees environment) (file : Text) :
    match fileResult a view environment m file with
    | .error fault => traceFile a view m p file = .error fault
    | .ok o => ∃ p', traceFile a view m p file = .ok p' ∧ p'.results = p.results ++ o.toList ∧
        p'.errors = p.errors ++ fileErrors view file ∧ p'.settings.Agrees environment := by
  unfold fileResult traceFile fileErrors
  cases readSource view file with
  | error item => exact ⟨_, rfl, (List.append_nil _).symm, rfl, hp⟩
  | ok read =>
    obtain ⟨source, tree⟩ := read
    have htrace := (fileRequest a file source tree).result_of_agrees (.ok m) hp
    dsimp only
    cases hresult : (fileRequest a file source tree).resultIn (.ok m) environment with
    | error fault =>
      rw [hresult] at htrace
      exact congrArg (· >>= _) htrace
    | ok result =>
      rw [hresult] at htrace
      obtain ⟨o, ho, rfl, hagrees⟩ := htrace
      exact ⟨_, congrArg (· >>= _) ho, rfl, (List.append_nil _).symm, hagrees⟩

/-! ## All files -/

/-- Files that can be traced add their results and errors in order. -/
theorem foldlM_traceFile {results : Text → Option TraceResult} {files : List Text}
    (h : ∀ file ∈ files, fileResult a view environment m file = .ok (results file))
    (hp : p.settings.Agrees environment) :
    ∃ p', files.foldlM (traceFile a view m) p = .ok p' ∧
      p'.results = p.results ++ files.filterMap results ∧
      p'.errors = p.errors ++ files.flatMap (fileErrors view) ∧ p'.settings.Agrees environment := by
  induction files generalizing p with
  | nil => exact ⟨p, rfl, (List.append_nil _).symm, (List.append_nil _).symm, hp⟩
  | cons file rest ih =>
    obtain ⟨hfile, hrest⟩ := List.forall_mem_cons.1 h
    have hfirst := traceFile_of_agrees a view m hp file
    rw [hfile] at hfirst
    obtain ⟨p₁, hp₁, hresults₁, herrors₁, hagrees₁⟩ := hfirst
    obtain ⟨p', hp', hresults, herrors, hagrees⟩ := ih hrest hagrees₁
    refine ⟨p', ?_, ?_, ?_, hagrees⟩
    · rw [List.foldlM_cons, hp₁]
      exact hp'
    · rw [hresults, hresults₁, List.append_assoc]
      cases hr : results file <;> simp [hr]
    · rw [herrors, herrors₁, List.append_assoc, List.flatMap_cons]

/-- The first file that cannot be traced stops the run. -/
theorem foldlM_traceFile_error {results : Text → Option TraceResult} {before after : List Text}
    {fault : TraceFault}
    (h : ∀ file ∈ before, fileResult a view environment m file = .ok (results file))
    (hfile : fileResult a view environment m file = .error fault)
    (hp : p.settings.Agrees environment) :
    (before ++ file :: after).foldlM (traceFile a view m) p = .error fault := by
  obtain ⟨p', hp', -, -, hagrees⟩ := foldlM_traceFile h hp
  have hstop := traceFile_of_agrees a view m hagrees file
  rw [hfile] at hstop
  rw [List.foldlM_append, hp']
  show (file :: after).foldlM (traceFile a view m) p' = .error fault
  rw [List.foldlM_cons, hstop]
  rfl

/-! ## Runs -/

/-- The text of some results as JSON. -/
def resultText (results : List Json) : String := (Json.array results).indented ++ "\n"

/-- A run with the same options on one file. -/
def alone [Validator] (a : Arguments) (view : FileView) (environment : Environment)
    (file : Text) : Ending :=
  runArguments { a with files := [file] } view environment

/-- Whether a run ended with a fault that the command does not report itself. -/
def Ending.hasCrashed : Ending → Bool
  | .crashed _ => true
  | _ => false

theorem traceFiles_of_results (results : Text → Option TraceResult) (hjson : a.json = true)
    (h : ∀ file ∈ a.files, fileResult a view environment m file = .ok (results file)) :
    ∃ report, traceFiles a view environment m = .finished report ∧
      report.output = resultText ((a.files.filterMap results).map TraceResult.toJson) ∧
      report.exit = if a.files.all (isReadable view) then 0 else 1 := by
  obtain ⟨p, hp, hresults, herrors, -⟩ := foldlM_traceFile h
    (p := { settings := .ofEnvironment environment }) (Settings.agrees_ofEnvironment environment)
  refine ⟨p.report a, ?_, ?_, ?_⟩
  · unfold traceFiles
    rw [hp]
  · rw [List.nil_append] at hresults
    simp only [Progress.report, hjson, hresults, resultText, if_true]
  · have hempty : p.errors.isEmpty = a.files.all (isReadable view) := by
      rw [herrors, List.nil_append, Bool.eq_iff_iff]
      simp only [List.isEmpty_iff, List.flatMap_eq_nil_iff, List.all_eq_true, ← isEmpty_fileErrors]
    simp only [Progress.report, hempty]

theorem traceFiles_of_error (results : Text → Option TraceResult) {before after : List Text}
    {fault : TraceFault} (hfiles : a.files = before ++ file :: after)
    (h : ∀ file ∈ before, fileResult a view environment m file = .ok (results file))
    (hfile : fileResult a view environment m file = .error fault) :
    traceFiles a view environment m = .crashed (.tracing fault) := by
  unfold traceFiles
  rw [hfiles, foldlM_traceFile_error h hfile (Settings.agrees_ofEnvironment environment)]

/-- A run on one file sees that file and the file of the trace map. -/
theorem alone_congr [Validator] {view' : FileView} {path : Text} (hmap : a.map = some path)
    (hpath : view'.read path = view.read path) (hfile : view'.read file = view.read file) :
    alone a view' environment file = alone a view environment file := by
  obtain ⟨files, map, mode, strategies, globalObjects, json, verbose, version⟩ := a
  cases hmap
  have hsource : readSource view' file = readSource view file := by
    unfold readSource
    rw [hfile]
  simp only [alone, runArguments, traceFiles, List.foldlM_cons, List.foldlM_nil, traceFile, hpath,
    hsource]

section Run

variable [Validator] {path : Text} {m : TraceMap (List Text)} (hversion : a.version = false)
  (hmap : a.map = some path) (hload : loadMap ((view.read path).map (·.bytes)) = .ok m)
include hversion hmap hload

theorem runArguments_of_files (hfiles : a.files ≠ []) :
    runArguments a view environment = traceFiles a view environment m := by
  simp [runArguments, hversion, hmap, hload, hfiles]

theorem alone_eq (hjson : a.json = true) (environment : Environment) (file : Text) :
    match fileResult a view environment m file with
    | .error fault => alone a view environment file = .crashed (.tracing fault)
    | .ok o => ∃ r, alone a view environment file = .finished r ∧
        r.output = resultText (o.toList.map TraceResult.toJson) ∧
        r.exit = if isReadable view file then 0 else 1 := by
  let one : Arguments := { a with files := [file] }
  have hrun : alone a view environment file = traceFiles one view environment m :=
    runArguments_of_files (a := one) hversion hmap hload (by simp [one])
  rw [hrun]
  cases hfile : fileResult a view environment m file with
  | error fault =>
    have hfiles : one.files = [] ++ file :: [] := rfl
    exact traceFiles_of_error (fun _ => none) hfiles nofun hfile
  | ok o =>
    obtain ⟨report, hreport, houtput, hexit⟩ :=
      traceFiles_of_results (a := one) (fun _ => o) hjson
        (List.forall_mem_singleton.2 hfile)
    refine ⟨report, hreport, ?_, ?_⟩
    · rw [houtput]
      cases o <;> rfl
    · simpa [one] using hexit

/-- A file on which a run does not crash has its result. -/
theorem fileResult_of_not_crashed (hjson : a.json = true)
    (h : (alone a view environment file).hasCrashed = false) :
    ∃ o, fileResult a view environment m file = .ok o := by
  have halone := alone_eq hversion hmap hload hjson environment file
  cases hfile : fileResult a view environment m file with
  | error fault =>
    rw [hfile] at halone
    rw [halone] at h
    cases h
  | ok o => exact ⟨o, rfl⟩

/-- A run on one file crashes only for what is in the file. -/
theorem fileResult_of_crashed (hjson : a.json = true) {crash : Crash}
    (h : alone a view environment file = .crashed crash) :
    ∃ fault, crash = .tracing fault ∧ fileResult a view environment m file = .error fault := by
  have halone := alone_eq hversion hmap hload hjson environment file
  cases hfile : fileResult a view environment m file with
  | error fault =>
    rw [hfile] at halone
    rw [halone] at h
    cases h
    exact ⟨fault, rfl, rfl⟩
  | ok o =>
    rw [hfile] at halone
    obtain ⟨r, hr, -⟩ := halone
    rw [hr] at h
    cases h

end Run

/-- The results of the files that can be read are the results that there are. -/
theorem map_toJson_filterMap {results : Text → Option TraceResult} {files : List Text}
    (h : ∀ file ∈ files, (results file).isSome = isReadable view file) :
    (files.filterMap results).map TraceResult.toJson =
      (files.filter (isReadable view)).map fun file => (results file).elim .null
        TraceResult.toJson := by
  induction files with
  | nil => rfl
  | cons file rest ih =>
    obtain ⟨hfile, hrest⟩ := List.forall_mem_cons.1 h
    rw [List.filterMap_cons, List.filter_cons, ← hfile]
    cases hr : results file with
    | none => exact ih hrest
    | some result => simp [ih hrest, hr]

/-- **The files of a run are isolated, unless one of them ends it.** What a run on one file gives
depends on nothing but that file and the trace map. If no file makes a run on it alone crash, the
output of a run holds for each file that can be read, in order, what the run on that file prints,
and the run fails just if some file cannot be read. A run on one file crashes only for a file that
can be read and whose source has a fault; and the first such file makes every run crash, so that
nothing is printed of the others. -/
theorem files_are_isolated [Validator] (a : Arguments) (view : FileView) (environment : Environment)
    {path : Text} {m : TraceMap (List Text)} (hversion : a.version = false) (hjson : a.json = true)
    (hmap : a.map = some path) (hload : loadMap ((view.read path).map (·.bytes)) = .ok m) :
    (∀ file view', view'.read path = view.read path → view'.read file = view.read file →
      alone a view' environment file = alone a view environment file) ∧
    (a.files = [] → runArguments a view environment = .finished (failure "no input files given")) ∧
    (a.files ≠ [] → (∀ file ∈ a.files, (alone a view environment file).hasCrashed = false) →
      ∃ report, runArguments a view environment = .finished report ∧
        report.exit = (if a.files.all (isReadable view) then 0 else 1) ∧
        ∃ result : Text → Json,
          report.output = resultText ((a.files.filter (isReadable view)).map result) ∧
          ∀ file ∈ a.files, isReadable view file = true →
            ∃ r, alone a view environment file = .finished r ∧ r.exit = 0 ∧
              r.output = resultText [result file]) ∧
    ∀ before file after crash, a.files = before ++ file :: after →
      (∀ other ∈ before, (alone a view environment other).hasCrashed = false) →
      alone a view environment file = .crashed crash →
      runArguments a view environment = .crashed crash ∧ isReadable view file = true ∧
        ∃ fault, crash = .tracing fault ∧ fault.isOfSource = true := by
  let results : Text → Option TraceResult := fun file =>
    match fileResult a view environment m file with
    | .ok o => o
    | .error _ => none
  have hresults : ∀ file, (alone a view environment file).hasCrashed = false →
      fileResult a view environment m file = .ok (results file) := by
    intro file hfile
    obtain ⟨o, ho⟩ := fileResult_of_not_crashed hversion hmap hload hjson hfile
    simp only [results, ho]
  refine ⟨?_, ?_, ?_, ?_⟩
  · intro file view' hpath hfile
    exact alone_congr hmap hpath hfile
  · intro hfiles
    simp [runArguments, hversion, hmap, hfiles]
  · intro hfiles hcrash
    have hall : ∀ file ∈ a.files, fileResult a view environment m file = .ok (results file) :=
      fun file hfile => hresults file (hcrash file hfile)
    have hsome : ∀ file ∈ a.files, (results file).isSome = isReadable view file :=
      fun file hfile => isSome_of_fileResult (hall file hfile)
    obtain ⟨report, hreport, houtput, hexit⟩ := traceFiles_of_results results hjson hall
    rw [runArguments_of_files hversion hmap hload hfiles]
    refine ⟨report, hreport, hexit, fun file => (results file).elim .null TraceResult.toJson,
      ?_, ?_⟩
    · rw [houtput, map_toJson_filterMap hsome]
    · intro file hfile hread
      have hone := alone_eq hversion hmap hload hjson environment file
      rw [hall file hfile] at hone
      obtain ⟨r, hr, houtput, hexit⟩ := hone
      obtain ⟨result, hresult⟩ := Option.isSome_iff_exists.1 ((hsome file hfile).trans hread)
      refine ⟨r, hr, ?_, ?_⟩
      · rw [hexit, hread]
        rfl
      · simp [houtput, hresult]
  · intro before file after crash hfiles hbefore hcrash
    obtain ⟨fault, rfl, hfile⟩ := fileResult_of_crashed hversion hmap hload hjson hcrash
    obtain ⟨hread, hsource⟩ := isOfSource_of_fileResult hfile
    refine ⟨?_, hread, fault, rfl, hsource⟩
    rw [runArguments_of_files hversion hmap hload (by simp [hfiles])]
    exact traceFiles_of_error results hfiles
      (fun other hother => hresults other (hbefore other hother))
      hfile

/-- A program without statements, and one with a node that only looks like a `catch` clause. -/
def sampleTree (children : List Concrete) : ConcreteTree :=
  ⟨.mk ⟨"program", true, ⟨0, 0, 1, 0⟩, none⟩ children, false⟩

/-- The files `m.json`, which holds an empty trace map, `a.js` and `b.js`. The second source has a
fault. -/
def sampleView : FileView where
  isDirectory _ := false
  read file :=
    if file = "m.json" then .ok ⟨"\x7b\x7d".toUTF8.toList, sampleTree []⟩
    else if file = "a.js" then .ok ⟨[], sampleTree []⟩
    else if file = "b.js" then .ok
      ⟨[], sampleTree [.mk ⟨"catch_clause", true, ⟨0, 0, 1, 0⟩, none⟩ []]⟩
    else .error .missing

/-- The arguments `--json --map m.json` and some files. -/
def sampleArguments (files : List Text) : Arguments where
  files := files
  map := some "m.json"
  mode := none
  strategies := []
  globalObjects := []
  json := true
  verbose := false
  version := false

theorem files_are_isolated_sample :
    (∃ report result, runArguments (sampleArguments ["a.js", "c.js"]) sampleView {} =
      .finished report ∧
      report.exit = 1 ∧ report.output = resultText [result] ∧
      ∃ r, alone (sampleArguments ["a.js", "c.js"]) sampleView {} "a.js" = .finished r ∧
        r.output = resultText [result]) ∧
    (runArguments (sampleArguments ["a.js", "b.js"]) sampleView {}).hasCrashed = true := by
  have hmap : (loadMap ((sampleView.read "m.json").map (·.bytes))).isOk = true := by decide +kernel
  obtain ⟨m, hload⟩ : ∃ m, loadMap ((sampleView.read "m.json").map (·.bytes)) = .ok m := by
    cases hm : loadMap ((sampleView.read "m.json").map (·.bytes)) with
    | error fault =>
      rw [hm] at hmap
      cases hmap
    | ok m => exact ⟨m, rfl⟩
  constructor
  · obtain ⟨-, -, hruns, -⟩ :=
      files_are_isolated (sampleArguments ["a.js", "c.js"]) sampleView {} rfl rfl rfl hload
    obtain ⟨report, hreport, hexit, result, houtput, halone⟩ := hruns (by simp [sampleArguments])
      (by decide +kernel)
    obtain ⟨r, hr, -, hprinted⟩ := halone "a.js" (by simp [sampleArguments]) (by decide +kernel)
    refine ⟨report, result "a.js", hreport, ?_, ?_, r, hr, hprinted⟩
    · rw [hexit]
      decide +kernel
    · rw [houtput]
      rfl
  · obtain ⟨-, -, -, hcrash⟩ :=
      files_are_isolated (sampleArguments ["a.js", "b.js"]) sampleView {} rfl rfl rfl hload
    have hfile : (alone (sampleArguments ["a.js", "b.js"]) sampleView {}
        "b.js").hasCrashed = true := by
      decide +kernel
    cases hb : alone (sampleArguments ["a.js", "b.js"]) sampleView {} "b.js" with
    | crashed crash =>
      obtain ⟨hrun, -⟩ := hcrash ["a.js"] "b.js" [] crash rfl (by decide +kernel) hb
      rw [hrun]
      rfl
    | badUsage | help | finished =>
      rw [hb] at hfile
      cases hfile

end CommandLine

end ApiTrace
