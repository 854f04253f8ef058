import Mathlib.Data.List.Basic
import SetupScript.Proofs.CommandTools

/-!
# Runs at different verbosities

Two runs that were asked for the same but for their verbosity are followed side by side. They meet
the same disk at every step and end alike; what they log may differ, since some entries are made only
from a verbosity on, but never among the entries that the quieter run shows. A stage with this
property is discreet; the stages are, and so is any run through discreet stages. The louder run may
call the highlighter where the quieter one does not, so highlighting has to succeed without traces.
-/

namespace SetupScript

/-- The entries that show at a verbosity. -/
def Journal.upTo (journal : Journal) (verbosity : Int) : Journal :=
  journal.filter (·.level ≤ verbosity)

/-- Entries show part by part. -/
@[simp] theorem Journal.upTo_append (a b : Journal) (verbosity : Int) :
    Journal.upTo (a ++ b) verbosity = Journal.upTo a verbosity ++ Journal.upTo b verbosity :=
  List.filter_append ..

/-- What shows at a verbosity can be read off what shows at a higher one. -/
theorem Journal.upTo_upTo (journal : Journal) {quiet loud : Int} (h : quiet ≤ loud) :
    Journal.upTo (journal.upTo loud) quiet = journal.upTo quiet := by
  rw [upTo, upTo, upTo, List.filter_filter]
  refine List.filter_congr fun entry _ => ?_
  simp only [Bool.and_eq_decide, decide_eq_true_eq, decide_eq_decide]
  omega

namespace Command

/-- The entries of a command line that show at its own verbosity. -/
def Report.logged (report : Report) : Journal := report.record.journal.upTo report.verbosity

/-- How a run ends for its caller. -/
def Ending.outcome {α : Type} : Ending α → Ending Unit
  | value _ => value ()
  | exit status => exit status
  | broken fault => broken fault

/-! ## Two runs side by side -/

/-- The state with another verbosity. -/
def RunState.speaking (state : RunState) (verbosity : Int) : RunState :=
  { state with verbosity := verbosity }

/-- The ending with another verbosity in its state. -/
def Ending.speaking (verbosity : Int) : Ending RunState → Ending RunState
  | value state => value (state.speaking verbosity)
  | exit status => exit status
  | broken fault => broken fault

/-- The verbosity does not show in how a run ends. -/
theorem Ending.outcome_speaking (ending : Ending RunState) (verbosity : Int) :
    (ending.speaking verbosity).outcome = ending.outcome := by
  cases ending <;> rfl

/-- Two records of runs at two verbosities that agree in all but the verbosity and the entries that
the first does not show. -/
structure Echoes (quiet loud : Int) (first second : Record RunState) : Prop where
  ending : ∃ shared : Ending RunState,
    first.ending = shared.speaking quiet ∧ second.ending = shared.speaking loud
  journal : first.journal.upTo quiet = second.journal.upTo quiet
  stdout : first.stdout = second.stdout
  stderr : first.stderr = second.stderr

/-- Two computations that find the same disk leave the same disk, and records that agree. -/
def Echoed (quiet loud : Int) (first second : StateM Disk (Record RunState)) : Prop :=
  ∀ disk, (first disk).2 = (second disk).2 ∧ Echoes quiet loud (first disk).1 (second disk).1

/-- A stage that does the same at every verbosity, and logs the same for whoever listens. -/
def Discreet (stage : Stage (StateM Disk)) : Prop :=
  ∀ ⦃quiet loud : Int⦄, quiet ≤ loud → ∀ state : RunState,
    Echoed quiet loud (stage (state.speaking quiet)) (stage (state.speaking loud))

section

variable {quiet loud : Int}

/-- Records that agree may be given. -/
theorem Echoed.pure {first second : Record RunState} (h : Echoes quiet loud first second) :
    Echoed quiet loud (Pure.pure first) (Pure.pure second) :=
  fun _ => ⟨rfl, h⟩

/-- After the same action, computations may go on that agree on whatever it gives. -/
theorem Echoed.bind {α : Type} {action : StateM Disk α} {f g : α → StateM Disk (Record RunState)}
    (h : ∀ a, Echoed quiet loud (f a) (g a)) : Echoed quiet loud (action >>= f) (action >>= g) := by
  intro disk
  exact h (action disk).1 (action disk).2

/-- After two computations that agree, others may follow that agree on whatever the two give. -/
theorem Echoed.bind_echoed {first second : StateM Disk (Record RunState)}
    {f g : Record RunState → StateM Disk (Record RunState)} (h : Echoed quiet loud first second)
    (hnext : ∀ a b, Echoes quiet loud a b → Echoed quiet loud (f a) (g b)) :
    Echoed quiet loud (first >>= f) (second >>= g) := by
  intro disk
  obtain ⟨hdisk, hrecord⟩ := h disk
  have hlater := hnext _ _ hrecord (second disk).2
  rw [← hdisk] at hlater
  have hsecond : (second >>= g) disk = g (second disk).1 (first disk).2 := by rw [hdisk]; rfl
  rw [hsecond]
  exact hlater

/-- A failure is the same for both, whether or not the error is printed in full. -/
theorem Echoes.failure {first second : Journal} (h : first.upTo quiet = second.upTo quiet)
    (message : Text) (full full' : Bool) :
    Echoes quiet loud (failure first message full) (failure second message full') :=
  ⟨⟨.exit 1, rfl, rfl⟩, h, rfl, rfl⟩

/-- Breaking off is the same for both. -/
theorem Echoes.breakOff {first second : Journal} (h : first.upTo quiet = second.upTo quiet)
    (fault : RunFault) : Echoes quiet loud (breakOff first fault) (breakOff second fault) :=
  ⟨⟨.broken fault, rfl, rfl⟩, h, rfl, rfl⟩

/-- A refusal of the file system is the same for both. -/
theorem Echoes.refusal (journal : Journal) (lead : Text) (error : FileError) :
    Echoes quiet loud (refusal journal lead error) (refusal journal lead error) := by
  unfold Command.refusal
  split
  · exact .breakOff rfl _
  · exact .failure rfl _ _ _

/-- Going on is the same for both. -/
theorem Echoes.value {first second : Journal} (h : first.upTo quiet = second.upTo quiet)
    (state : RunState) :
    Echoes quiet loud { ending := .value (state.speaking quiet), journal := first }
      { ending := .value (state.speaking loud), journal := second } :=
  ⟨⟨.value state, rfl, rfl⟩, h, rfl, rfl⟩

/-- Entries made only from a verbosity on make no difference to a reader of less, if they need that
verbosity to show. -/
theorem RunState.upTo_whenAtLeast (h : quiet ≤ loud) (state : RunState) {level : Int}
    {entries : Journal} (hlevel : ∀ entry ∈ entries, level ≤ entry.level) :
    ((state.speaking quiet).whenAtLeast level entries).upTo quiet =
      ((state.speaking loud).whenAtLeast level entries).upTo quiet := by
  unfold whenAtLeast speaking
  by_cases hquiet : level ≤ quiet
  · rw [if_pos hquiet, if_pos (Int.le_trans hquiet h)]
  · have hunheard : entries.upTo quiet = [] := by
      refine List.filter_eq_nil_iff.mpr fun entry hentry => ?_
      have hentry := hlevel entry hentry
      simp only [decide_eq_true_eq]
      omega
    rw [if_neg hquiet]
    split
    · exact hunheard.symm
    · rfl

end

/-! ## The stages -/

/-- Making the output directory is discreet, whatever was logged before. -/
theorem echoed_prepareModuleDir {quiet loud : Int} {first second : Journal}
    (h : first.upTo quiet = second.upTo quiet) (inputFile : Path) (state : RunState) :
    Echoed quiet loud (prepareModuleDir first inputFile (state.speaking quiet))
      (prepareModuleDir second inputFile (state.speaking loud)) := by
  unfold prepareModuleDir
  have hdir (verbosity : Int) : (state.speaking verbosity).outputSubdir.below
      (state.speaking verbosity).outputDir = state.outputSubdir.below state.outputDir := rfl
  rw [hdir, hdir]
  cases state.outputSubdir.below state.outputDir with
  | error fault => exact .pure (.breakOff h fault)
  | ok outputDir =>
    refine .bind fun made => ?_
    cases made with
    | some error => exact .pure (.breakOff h _)
    | none =>
      refine .pure (.value ?_
        { state with inputSourceFile := inputFile, moduleOutputDir := outputDir, envOk := true })
      rw [Journal.upTo_append, Journal.upTo_append, h]

/-- What a run says first is the same for whoever listens: the banner is made only where it shows. -/
theorem RunState.upTo_opening {quiet loud : Int} (h : quiet ≤ loud) (state : RunState) :
    (state.speaking quiet).opening.upTo quiet = (state.speaking loud).opening.upTo quiet := by
  rw [opening, opening, Journal.upTo_append, Journal.upTo_append, state.upTo_whenAtLeast h (by simp)]

/-- Checking the paths is discreet. -/
theorem discreet_checkEnvironment : Discreet checkEnvironment := by
  intro quiet loud hle state
  have hopening := state.upTo_opening hle
  have hinput (verbosity : Int) : (state.speaking verbosity).inputFile.below
      (state.speaking verbosity).inputDir = state.inputFile.below state.inputDir := rfl
  unfold checkEnvironment
  rw [hinput, hinput]
  cases state.inputFile.below state.inputDir with
  | error fault => exact .pure (.breakOff hopening fault)
  | ok inputFile =>
    refine .bind fun found => ?_
    cases found with
    | error error => exact .pure (.breakOff hopening _)
    | ok kind =>
      cases kind with
      | none => exact .pure (.failure hopening _ _ _)
      | some kind =>
        cases kind with
        | directory | other => exact .pure (.failure hopening _ _ _)
        | file =>
          refine echoed_prepareModuleDir ?_ inputFile state
          rw [Journal.upTo_append, Journal.upTo_append, hopening]

/-- Splitting the source is the same at both verbosities. -/
theorem echoes_splitSource {quiet loud : Int} (settings : Settings) (journal : Journal) (text : Text)
    (state : RunState) :
    Echoes quiet loud (splitSource settings journal text (state.speaking quiet))
      (splitSource settings journal text (state.speaking loud)) := by
  have hfile (verbosity : Int) :
      (state.speaking verbosity).inputSourceFile = state.inputSourceFile := rfl
  unfold splitSource
  simp only [hfile]
  by_cases hcomponent : state.inputSourceFile.suffix = settings.componentExtension
  · rw [if_pos hcomponent, if_pos hcomponent]
    split
    · exact .failure rfl _ _ _
    · exact .value rfl { state with sourceText := text, descriptor := some (Sections.ofSource text) }
  · rw [if_neg hcomponent, if_neg hcomponent]
    exact .value rfl { state with sourceText := text, descriptor := none }

/-- Reading the source is discreet. -/
theorem discreet_readSource (settings : Settings) : Discreet (readSource settings) := by
  intro quiet loud _ state
  unfold readSource
  refine .bind fun content => ?_
  cases content with
  | error fault => exact .pure (.refusal _ _ _)
  | ok bytes =>
    dsimp only
    cases Text.decode bytes with
    | error fault => exact .pure (.failure rfl _ _ _)
    | ok decoded => exact .pure (echoes_splitSource settings _ _ state)

section

variable {highlighter : Highlighter (StateM Disk)}

/-- The entry that shows a module is made where it shows, and making it leaves no trace. -/
theorem showModule_eq (htotal : highlighter.Total) (hwrites : highlighter.WritesNothing) (code : Text)
    (disk : Disk) : ∃ entry : Entry, entry.level = 3 ∧
      ∀ state, showModule highlighter code state disk = (.ok (state.whenAtLeast 3 [entry]), disk) := by
  obtain ⟨text, htext⟩ := htotal .terminal code disk
  refine ⟨⟨3, "\n" ++ text⟩, rfl, fun state => ?_⟩
  have hshown : highlighter .terminal code disk = (.ok text, disk) :=
    Prod.ext htext (hwrites .terminal code disk)
  unfold showModule RunState.whenAtLeast
  split
  · change (((highlighter .terminal code disk).1).map _, (highlighter .terminal code disk).2) = _
    rw [hshown]
    rfl
  · rfl

/-- Going on with a compiled module is discreet: it is shown only where that is heard. -/
theorem discreet_keepModule (htotal : highlighter.Total) (hwrites : highlighter.WritesNothing)
    (journal : Journal) (code : Text) : Discreet (keepModule highlighter journal code) := by
  intro quiet loud hle state disk
  obtain ⟨entry, hlevel, hshown⟩ := showModule_eq htotal hwrites code disk
  have hkept (state : RunState) : keepModule highlighter journal code state disk =
      ({ ending := .value { state with compiledModule := some code }
         journal := journal ++ [⟨2, "Generated " ++ Text.ofNat code.length ++ " characters"⟩] ++
          state.whenAtLeast 3 [entry] }, disk) := by
    unfold keepModule
    rw [Disk.bind_apply, hshown]
    rfl
  rw [hkept, hkept]
  refine ⟨rfl, .value ?_ { state with compiledModule := some code }⟩
  rw [Journal.upTo_append, Journal.upTo_append _ (RunState.whenAtLeast _ _ _),
    state.upTo_whenAtLeast hle (by simp [hlevel])]

/-- Compiling is discreet: an error printed in full is the same error. -/
theorem discreet_compileSource (settings : Settings) (htotal : highlighter.Total)
    (hwrites : highlighter.WritesNothing) : Discreet (compileSource settings highlighter) := by
  intro quiet loud hle state
  unfold compileSource
  have hscript (verbosity : Int) : (state.speaking verbosity).script = state.script := rfl
  have hname (verbosity : Int) : (state.speaking verbosity).nameOrStem = state.nameOrStem := rfl
  simp only [hscript, hname]
  generalize Id.run (state.script.compile settings (some { componentName := some state.nameOrStem })
    (none : Option (FullCompiler Id Unit Empty))) = result
  obtain ⟨value, journal⟩ := result
  cases value with
  | ok code => exact discreet_keepModule htotal hwrites _ code hle state
  | error error =>
    cases error with
    | compile error =>
      cases error with
      | unsupported kind => exact .pure (.failure rfl _ _ _)
      | duplicate kind position => exact .pure (.failure rfl _ _ _)
      | overlap range => exact .pure (.breakOff rfl _)
    | fallback error => cases error

end

/-- Going on with the summary is the same for both. -/
theorem RunState.echoes_finished {quiet loud : Int} (state : RunState) (previewFile : Option Path)
    (journal : Journal) :
    Echoes quiet loud ((state.speaking quiet).finished previewFile journal)
      ((state.speaking loud).finished previewFile journal) :=
  .value rfl { state with summary := _ }

/-- Writing the preview is discreet. -/
theorem discreet_writePreview (highlighter : Highlighter (StateM Disk)) (code : Text) :
    Discreet (writePreview highlighter code) := by
  intro quiet loud _ state
  unfold writePreview
  refine .bind fun highlighted => ?_
  cases highlighted with
  | error fault =>
    cases fault with
    | system message => exact .pure (.failure rfl _ _ _)
    | other message => exact .pure (.breakOff rfl _)
  | ok page =>
    refine .bind fun refused => ?_
    cases refused with
    | some fault => exact .pure (.refusal _ _ _)
    | none => exact .pure (state.echoes_finished _ _)

/-- Writing the module is discreet. -/
theorem discreet_writeOutput (highlighter : Highlighter (StateM Disk)) :
    Discreet (writeOutput highlighter) := by
  intro quiet loud hle state
  have hmodule (verbosity : Int) :
      (state.speaking verbosity).compiledModule = state.compiledModule := rfl
  have hasked (verbosity : Int) : (state.speaking verbosity).preview = state.preview := rfl
  unfold writeOutput
  rw [hmodule, hmodule]
  cases state.compiledModule with
  | none => exact .pure (.failure rfl _ _ _)
  | some code =>
    refine .bind fun refused => ?_
    cases refused with
    | some fault => exact .pure (.refusal _ _ _)
    | none =>
      dsimp only
      rw [hasked, hasked]
      split
      · exact discreet_writePreview highlighter code hle state
      · exact .pure (state.echoes_finished _ _)

/-- What a run says last needs the normal verbosity. -/
theorem Summary.level_of_mem_entries {summary : Summary} {entry : Entry}
    (h : entry ∈ summary.entries) : entry.level = 1 := by
  unfold entries at h
  dsimp only at h
  split at h
  · simp only [List.cons_append, List.nil_append, List.mem_cons, List.not_mem_nil, or_false] at h
    rcases h with rfl | rfl | rfl | rfl <;> rfl
  · simp only [List.cons_append, List.nil_append, List.append_nil, List.mem_cons, List.not_mem_nil,
      or_false] at h
    rcases h with rfl | rfl | rfl <;> rfl

/-- Reporting is discreet: the report is made only where it shows. -/
theorem discreet_reportResults : Discreet reportResults := by
  intro quiet loud hle state
  have hsummary (verbosity : Int) : (state.speaking verbosity).summary = state.summary := rfl
  unfold reportResults
  rw [hsummary, hsummary]
  cases state.summary with
  | none => exact .pure (.failure rfl _ _ _)
  | some form =>
    cases form with
    | none => exact .pure (.failure rfl _ _ _)
    | some summary =>
      refine .pure (.value (state.upTo_whenAtLeast hle ?_) state)
      intro entry hentry
      exact Int.le_of_eq (Summary.level_of_mem_entries hentry).symm

/-- All stages are discreet. -/
theorem discreet_of_mem_stages {settings : Settings} {highlighter : Highlighter (StateM Disk)}
    (htotal : highlighter.Total) (hwrites : highlighter.WritesNothing) {stage : Stage (StateM Disk)}
    (h : stage ∈ stages settings highlighter) : Discreet stage := by
  simp only [stages, List.mem_cons, List.not_mem_nil, or_false] at h
  rcases h with rfl | rfl | rfl | rfl | rfl
  · exact discreet_checkEnvironment
  · exact discreet_readSource settings
  · exact discreet_compileSource settings htotal hwrites
  · exact discreet_writeOutput highlighter
  · exact discreet_reportResults

/-! ## Whole runs -/

/-- A run through discreet stages is discreet. -/
theorem discreet_runStages {stages : List (Stage (StateM Disk))}
    (h : ∀ stage ∈ stages, Discreet stage) : Discreet fun state => runStages state stages := by
  induction stages with
  | nil =>
    intro quiet loud _ state
    exact .pure (.value rfl state)
  | cons stage rest ih =>
    obtain ⟨hstage, hrest⟩ := List.forall_mem_cons.mp h
    intro quiet loud hle state
    refine (hstage hle state).bind_echoed ?_
    rintro ⟨ending, journal, stdout, stderr⟩ ⟨ending', journal', stdout', stderr'⟩
      ⟨⟨shared, rfl, rfl⟩, hjournal, rfl, rfl⟩
    cases shared with
    | exit status => exact .pure ⟨⟨.exit status, rfl, rfl⟩, hjournal, rfl, rfl⟩
    | broken fault => exact .pure ⟨⟨.broken fault, rfl, rfl⟩, hjournal, rfl, rfl⟩
    | value next =>
      refine (ih hrest hle next).bind_echoed fun later later' hlater => .pure ?_
      refine ⟨hlater.ending, ?_, ?_, ?_⟩
      · simp only [Journal.upTo_append]
        rw [hjournal, hlater.journal]
      · rw [hlater.stdout]
      · rw [hlater.stderr]

/-- The request with more verbosity. -/
def Request.louder (request : Request) (more : Nat) : Request :=
  { request with verbosity := request.verbosity + more }

/-- A run that the wrapper has ended is the same at both verbosities. -/
theorem Echoes.ended {quiet loud : Int} (record : Record Empty) :
    Echoes quiet loud record.ended record.ended := by
  obtain ⟨ending, journal, stdout, stderr, traceback⟩ := record
  cases ending with
  | value result => cases result
  | exit status => exact ⟨⟨.exit status, rfl, rfl⟩, rfl, rfl, rfl⟩
  | broken fault => exact ⟨⟨.broken fault, rfl, rfl⟩, rfl, rfl, rfl⟩

/-- Two requests that differ in their verbosity alone are run in agreement. -/
theorem echoed_run {tools : Tools (StateM Disk)} (settings : Settings)
    (htotal : tools.highlighter.Total) (hwrites : tools.highlighter.WritesNothing)
    (hwrapper : tools.wrapper.IgnoresVerbosity) (request : Request) (more : Nat) :
    Echoed request.verbosity (request.louder more).verbosity (request.run tools settings)
      ((request.louder more).run tools settings) := by
  have hle : (request.verbosity : Int) ≤ (request.louder more).verbosity :=
    Int.ofNat_le.mpr (Nat.le_add_right ..)
  have henter : tools.wrapper.enter (request.louder more) = tools.wrapper.enter request :=
    hwrapper.enter request _
  have hleave : tools.wrapper.leave (request.louder more) = tools.wrapper.leave request :=
    hwrapper.leave request _
  have hstages : ∀ stage ∈ stages settings tools.highlighter, Discreet stage :=
    fun stage => discreet_of_mem_stages htotal hwrites
  have hthrough : Echoed request.verbosity (request.louder more).verbosity
      (request.runThrough tools.wrapper (stages settings tools.highlighter))
      ((request.louder more).runThrough tools.wrapper (stages settings tools.highlighter)) := by
    unfold Request.runThrough
    rw [henter]
    refine .bind fun entered => ?_
    cases entered with
    | error record => exact .pure (.ended record)
    | ok paths => exact discreet_runStages hstages hle (request.state paths.1 paths.2)
  -- both have ended alike, so that the wrapper acts after both or after neither
  refine hthrough.bind_echoed ?_
  rintro ⟨ending, journal, stdout, stderr, traceback⟩ ⟨ending', journal', stdout', stderr', traceback'⟩
    ⟨⟨shared, rfl, rfl⟩, hjournal, rfl, rfl⟩
  rw [hleave]
  cases shared with
  | value next => exact .bind fun _ => .pure ⟨⟨.value next, rfl, rfl⟩, hjournal, rfl, rfl⟩
  | exit status => exact .pure ⟨⟨.exit status, rfl, rfl⟩, hjournal, rfl, rfl⟩
  | broken fault => exact .pure ⟨⟨.broken fault, rfl, rfl⟩, hjournal, rfl, rfl⟩

/-! ## Asking for more -/

/-- The reading with more verbosity. -/
def Reading.louder (reading : Reading) (more : Nat) : Reading :=
  { reading with verbosity := reading.verbosity + more }

section

variable (flags : List Text) (reading : Reading) (more : Nat)

/-- Options are applied alike at every verbosity. -/
theorem Reading.apply_louder (action : Action) (value : Text) :
    (reading.louder more).apply action value = (reading.apply action value).map (·.louder more) := by
  cases action with
  | verbosity => simp [apply, louder, Except.map, Nat.add_right_comm]
  | _ => rfl

/-- So are options written together. -/
theorem Reading.applyAll_louder (actions : List Action) :
    (reading.louder more).applyAll actions = (reading.applyAll actions).map (·.louder more) := by
  induction actions generalizing reading with
  | nil => rfl
  | cons action rest ih =>
    rw [applyAll, applyAll, apply_louder]
    cases reading.apply action [] with
    | error stop => rfl
    | ok next => exact ih next

/-- So is an option that has text written with it. -/
theorem Reading.applyWritten_louder (written : WrittenOption) (action : Action) (value : Text) :
    (reading.louder more).applyWritten flags written action value =
      (reading.applyWritten flags written action value).map (·.louder more) := by
  unfold applyWritten
  split
  · exact reading.apply_louder more action value
  · split
    · cases shortOptions flags action value with
      | error error => rfl
      | ok actions => exact reading.applyAll_louder more actions
    · rfl

/-- Plain arguments are taken alike at every verbosity. -/
theorem Reading.take_louder (argument : Text) :
    (reading.louder more).take argument = (reading.take argument).louder more := by
  unfold take louder
  dsimp only
  split <;> rfl

/-- Options are read alike at every verbosity. -/
theorem readOptions_louder (items : List Item) :
    readOptions flags (reading.louder more) items =
      (readOptions flags reading items).map (Prod.map (·.louder more) id) := by
  fun_induction readOptions flags reading items with
  | case1 => rfl
  | case2 reading item rest hplain =>
    rw [readOptions.eq_def]
    simp only [hplain, if_true]
    rfl
  | case3 reading rest written haction hoption ih =>
    rw [← ih, readOptions, if_neg hoption]
    simp only [haction]
    rfl
  | case4 reading rest written action value hvalue haction stop hstop hoption =>
    rw [readOptions, if_neg hoption]
    simp only [haction, hvalue, Reading.applyWritten_louder, hstop, Except.map]
  | case5 reading rest written action value hvalue haction next hnext hoption ih =>
    rw [← ih, readOptions, if_neg hoption]
    simp only [haction, hvalue, Reading.applyWritten_louder, hnext, Except.map]
  | case6 reading written action hvalue haction htakes value after stop hstop hoption =>
    rw [readOptions, if_neg hoption]
    simp only [haction, hvalue, htakes, if_true, Reading.apply_louder, hstop, Except.map]
  | case7 reading written action hvalue haction htakes value after next hnext hoption ih =>
    rw [← ih, readOptions, if_neg hoption]
    simp only [haction, hvalue, htakes, if_true, Reading.apply_louder, hnext, Except.map]
  | case8 reading rest written action hvalue haction htakes hrest hoption =>
    rw [readOptions, if_neg hoption]
    simp only [haction, hvalue, htakes, if_true]
    rfl
  | case9 reading rest written action hvalue haction htakes stop hstop hoption =>
    rw [readOptions, if_neg hoption]
    simp only [haction, hvalue, if_neg htakes, Reading.apply_louder, hstop, Except.map]
  | case10 reading rest written action hvalue haction htakes next hnext hoption ih =>
    rw [← ih, readOptions, if_neg hoption]
    simp only [haction, hvalue, if_neg htakes, Reading.apply_louder, hnext, Except.map]
  | case11 reading item rest hoption hother ih =>
    rw [← ih, readOptions, if_neg hoption, Reading.take_louder]
    exact hother

/-- The directories after the last option are read alike at every verbosity. -/
theorem readDirectories_louder (items : List Item) (count : Nat) :
    readDirectories (reading.louder more) items count =
      Prod.map (·.louder more) id (readDirectories reading items count) := by
  induction count generalizing reading items with
  | zero => rfl
  | succ count ih =>
    rw [readDirectories, readDirectories]
    split
    · exact ih { reading with directories := reading.directories ++ [_] } _
    · rfl

/-- A reading with more verbosity is a request with more verbosity. -/
theorem Reading.request_louder :
    (reading.louder more).request = reading.request.map (·.louder more) := by
  unfold request louder
  dsimp only
  split <;> rfl

/-- What is left after the last option is read alike at every verbosity. -/
theorem Reading.finish_louder (left : List Item) :
    (reading.louder more).finish left = (reading.finish left).map (·.louder more) := by
  have hcount : (reading.louder more).directories.length = reading.directories.length := rfl
  unfold finish
  rw [hcount, readDirectories_louder, ← request_louder]
  rfl

end

/-- A `-v` in front of a command line asks for one more level of verbosity and for nothing else. -/
theorem readArguments_verbose {flags line : List Text} {request : Request}
    (h : readArguments flags line = .ok request) :
    readArguments flags (("-v" : Text) :: line) = .ok (request.louder 1) := by
  have hoption : optionOf? flags "-v" = some .verbosity := by
    rw [optionOf?, spelledOptions, List.flatMap_append, List.find?_append]
    rfl
  have hitem : classify flags "-v" = .ok (.option ⟨"-v", some .verbosity, true, none⟩) := by
    rw [classify, if_neg (by decide), hoption]
    rfl
  have hdashes : ("-v" : Text) ≠ ("--" : Text) := by decide
  cases hitems : classifyAll flags line with
  | error error => simp [readArguments, hitems] at h
  | ok items =>
    have hmore : classifyAll flags (("-v" : Text) :: line) =
        .ok (.option ⟨"-v", some .verbosity, true, none⟩ :: items) := by
      rw [classifyAll, if_neg hdashes, hitem, hitems]
      rfl
    have hfirst : readOptions flags {} (.option ⟨"-v", some .verbosity, true, none⟩ :: items) =
        readOptions flags (Reading.louder {} 1) items := by
      simp [readOptions, hasOption, Action.takesValue, Reading.apply, Reading.louder]
    simp only [readArguments, hitems, hmore] at h ⊢
    rw [hfirst, readOptions_louder]
    cases hread : readOptions flags {} items with
    | error stop =>
      rw [hread] at h
      cases h
    | ok read =>
      obtain ⟨reading, left⟩ := read
      rw [hread] at h
      calc (reading.louder 1).finish left
          = (reading.finish left).map (·.louder 1) := reading.finish_louder 1 left
        _ = .ok (request.louder 1) := by rw [show reading.finish left = _ from h]; rfl

/-- So do several, each for one more. -/
theorem readArguments_replicate_verbose {flags line : List Text} {request : Request}
    (h : readArguments flags line = .ok request) (more : Nat) :
    readArguments flags (List.replicate more ("-v" : Text) ++ line) = .ok (request.louder more) := by
  induction more with
  | zero => exact h
  | succ more ih => exact readArguments_verbose ih

/-- Verbosity never changes what a run does, with any highlighter that always gives a text and leaves
the disk alone, and any wrapper that takes no notice of the verbosity. Two command lines that ask for the
same but for the verbosity leave the same disk, end alike and print the same; and the entries that the
quieter one logs are, in order, those entries of the louder one that need no more than its verbosity. -/
theorem verbosity_only_selects_entries (settings : Settings) {tools : Tools (StateM Disk)}
    (htotal : tools.highlighter.Total) (hwrites : tools.highlighter.WritesNothing)
    (hwrapper : tools.wrapper.IgnoresVerbosity) {quietLine loudLine : List Text} {request : Request}
    {more : Nat} (hquiet : readArguments tools.wrapper.flags quietLine = .ok request)
    (hloud : readArguments tools.wrapper.flags loudLine = .ok (request.louder more)) (disk : Disk) :
    let quiet := (run tools settings quietLine : StateM Disk Report) disk
    let loud := (run tools settings loudLine : StateM Disk Report) disk
    quiet.2 = loud.2 ∧ quiet.1.record.ending.outcome = loud.1.record.ending.outcome ∧
      quiet.1.record.stdout = loud.1.record.stdout ∧ quiet.1.record.stderr = loud.1.record.stderr ∧
      quiet.1.verbosity = request.verbosity ∧ loud.1.verbosity = request.verbosity + more ∧
      quiet.1.logged = loud.1.logged.filter (·.level ≤ quiet.1.verbosity) := by
  have hrun (line : List Text) (asked : Request)
      (h : readArguments tools.wrapper.flags line = .ok asked) :
      (run tools settings line : StateM Disk Report) disk =
        (⟨((asked.run tools settings : StateM Disk (Record RunState)) disk).1, asked.verbosity⟩,
          ((asked.run tools settings : StateM Disk (Record RunState)) disk).2) := by
    simp only [run, h]
    rfl
  have hle : (request.verbosity : Int) ≤ (request.louder more).verbosity :=
    Int.ofNat_le.mpr (Nat.le_add_right ..)
  obtain ⟨hdisk, ⟨shared, hfirst, hsecond⟩, hjournal, hstdout, hstderr⟩ :=
    echoed_run settings htotal hwrites hwrapper request more disk
  rw [hrun _ _ hquiet, hrun _ _ hloud]
  refine ⟨hdisk, ?_, hstdout, hstderr, rfl, rfl, ?_⟩
  · dsimp only
    rw [hfirst, hsecond, Ending.outcome_speaking, Ending.outcome_speaking]
  · exact hjournal.trans (Journal.upTo_upTo _ hle).symm

/-- A command line that asks for a preview. -/
def previewLine : List Text := [".", "out", "--inputFile=a.js", "--preview"]

/-- What it asks for. -/
def previewRequest : Request := ⟨.text ".", .text "out", .text "a.js", none, .text ".", true, 1, []⟩

/-- The command line is run as it is and with two levels of verbosity more, with the tools of the
program. -/
theorem verbosity_only_selects_entries_preview :
    let disk : Disk := ⟨[(["a.js"], .file 0)], [(0, Text.encode "const a = 1\n")]⟩
    let quiet := (run standardTools {} previewLine : StateM Disk Report) disk
    let loud :=
      (run standardTools {} (List.replicate 2 ("-v" : Text) ++ previewLine) : StateM Disk Report) disk
    readArguments (standardWrapper (m := StateM Disk)).flags previewLine = .ok previewRequest ∧
      quiet.2 = loud.2 ∧ quiet.1.logged = loud.1.logged.filter (·.level ≤ quiet.1.verbosity) := by
  have hquiet : readArguments (standardWrapper (m := StateM Disk)).flags previewLine =
      .ok previewRequest := by decide +kernel
  have hloud := readArguments_replicate_verbose hquiet 2
  intro disk
  have hagree := @verbosity_only_selects_entries {} standardTools standardHighlighter_total
    standardHighlighter_writesNothing standardWrapper_ignoresVerbosity _ _ previewRequest 2 hquiet hloud disk
  exact ⟨hquiet, hagree.1, hagree.2.2.2.2.2.2⟩

end Command

end SetupScript
