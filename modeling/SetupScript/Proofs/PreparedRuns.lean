import SetupScript.Proofs.CommandTools

/-!
# Runs before they write

A run comes to its writing stage through three others. They add nothing to the disk but directories,
as long as the tools do not, and what they hand on has the paths that the request decides. A run through
all stages goes on from there, or stays as it is when the wrapper or one of the three has ended it.
-/

namespace SetupScript.Command

open Disk (Houses)

/-! ## Up to the writing stage -/

/-- Making the module directory adds nothing but directories. -/
theorem houses_prepareModuleDir (journal : Journal) (inputFile : Path) (state : RunState) :
    Houses (prepareModuleDir journal inputFile state) := by
  unfold prepareModuleDir
  split
  · exact .pure _
  · refine .bind (.makeDirectories true _) fun refused => ?_
    cases refused with
    | some error => exact .pure _
    | none => exact .pure _

/-- Checking the paths adds nothing but directories. -/
theorem houses_checkEnvironment (state : RunState) : Houses (checkEnvironment state) := by
  unfold checkEnvironment
  split
  · exact .pure _
  · refine .bind (.findKind _) fun found => ?_
    cases found with
    | error error => exact .pure _
    | ok kind =>
      cases kind with
      | none => exact .pure _
      | some kind =>
        cases kind with
        | file => exact houses_prepareModuleDir _ _ state
        | directory | other => exact .pure _

/-- Reading the source changes nothing. -/
theorem houses_readSource (settings : Settings) (state : RunState) :
    Houses (readSource settings state) := by
  unfold readSource
  refine .bind (fun disk => .refl disk) fun content => ?_
  cases content with
  | error fault => exact .pure _
  | ok bytes =>
    dsimp only
    split
    · exact .pure _
    · exact .pure _

section

variable {highlighter : Highlighter (StateM Disk)}

/-- Highlighting that leaves the disk alone adds nothing. -/
theorem Highlighter.WritesNothing.houses (h : highlighter.WritesNothing) (format : Format)
    (code : Text) : Houses (highlighter format code) := by
  intro disk
  rw [h format code disk]
  exact .refl disk

/-- Compiling changes nothing. -/
theorem houses_compileSource (settings : Settings) (hwrites : highlighter.WritesNothing)
    (state : RunState) : Houses (compileSource settings highlighter state) := by
  have hshow (code : Text) : Houses (showModule highlighter code state) := by
    unfold showModule
    split
    · exact .bind (hwrites.houses .terminal code) fun _ => .pure _
    · exact .pure _
  unfold compileSource
  dsimp only
  split
  · refine .bind (hshow _) fun shown => ?_
    cases shown with
    | error fault => exact .pure _
    | ok entries => exact .pure _
  all_goals exact .pure _

end

/-- A run through stages that add nothing but directories adds nothing else. -/
theorem houses_runStages {stages : List (Stage (StateM Disk))}
    (h : ∀ stage ∈ stages, ∀ state, Houses (stage state)) (state : RunState) :
    Houses (runStages state stages) := by
  induction stages generalizing state with
  | nil => exact .pure _
  | cons stage rest ih =>
    obtain ⟨hstage, hrest⟩ := List.forall_mem_cons.mp h
    refine .bind (hstage state) fun first => ?_
    split
    · exact .bind (ih hrest _) fun later => .pure _
    · exact .pure _

/-- So does a whole run through such stages. -/
theorem Request.houses_runThrough {wrapper : Wrapper (StateM Disk)} (hwrapper : wrapper.WritesNoFiles)
    (request : Request) {stages : List (Stage (StateM Disk))}
    (h : ∀ stage ∈ stages, ∀ state, Houses (stage state)) :
    Houses (request.runThrough wrapper stages) := by
  refine .bind (hwrapper.enter request) fun entered => ?_
  cases entered with
  | error record => exact .pure _
  | ok paths => exact houses_runStages h (request.state paths.1 paths.2)

/-- The first three stages add nothing but directories. -/
theorem houses_of_mem_take {settings : Settings} {highlighter : Highlighter (StateM Disk)}
    (hwrites : highlighter.WritesNothing) {stage : Stage (StateM Disk)}
    (h : stage ∈ (stages settings highlighter).take 3) (state : RunState) : Houses (stage state) := by
  simp only [stages, List.take_succ_cons, List.take_zero, List.mem_cons, List.not_mem_nil,
    or_false] at h
  rcases h with rfl | rfl | rfl
  · exact houses_checkEnvironment state
  · exact houses_readSource settings state
  · exact houses_compileSource settings hwrites state

/-! ## What the writing stage finds -/

/-- The path of the input file that a request names. -/
def Request.input (request : Request) : Except RunFault Path := do
  request.inputFile.below (← request.inputDir.path)

/-- The path that a request gives to what its run writes with an ending. -/
def Request.output (request : Request) (ending : Text) : Except RunFault Path := do
  let outputDir ← request.outputDir.path
  let moduleDir ← request.outputSubdir.below outputDir
  let input ← request.input
  return moduleDir.join (Path.ofText (input.stem ++ ending))

/-- The state of a run that has found its paths. -/
structure Request.Located (request : Request) (state : RunState) : Prop where
  input : request.input = .ok state.inputSourceFile
  output : ∀ ending, request.output ending = .ok (state.output ending)
  preview : state.preview = request.preview

/-- A stage that goes on is followed by the others. -/
theorem runStages_of_value {stage : Stage (StateM Disk)} {state next : RunState} {disk : Disk}
    (h : (stage state disk).1.ending = .value next) (rest : List (Stage (StateM Disk))) :
    (runStages state (stage :: rest) disk).1.ending =
        (runStages next rest (stage state disk).2).1.ending ∧
      (runStages state (stage :: rest) disk).2 = (runStages next rest (stage state disk).2).2 := by
  rw [runStages, Disk.bind_apply]
  simp only [h]
  exact ⟨rfl, rfl⟩

/-- A stage that does not go on is the last of its run. -/
theorem runStages_of_ended {stage : Stage (StateM Disk)} {state : RunState} {disk : Disk}
    (h : ∀ next, (stage state disk).1.ending ≠ .value next) (rest : List (Stage (StateM Disk))) :
    runStages state (stage :: rest) disk = stage state disk := by
  rw [runStages, Disk.bind_apply]
  cases hending : (stage state disk).1.ending with
  | value next => exact absurd hending (h next)
  | exit status => rfl
  | broken fault => rfl

/-- A run ends with a state or without one. -/
theorem Ending.value_or_not (ending : Ending RunState) :
    (∃ next, ending = .value next) ∨ ∀ next, ending ≠ .value next := by
  cases ending with
  | value next => exact .inl ⟨next, rfl⟩
  | exit status => exact .inr fun next h => by cases h
  | broken fault => exact .inr fun next h => by cases h

/-- Every state that the computation goes on with has the property. -/
def Gives (property : RunState → Prop) (action : StateM Disk (Record RunState)) : Prop :=
  ∀ disk state, (action disk).1.ending = .value state → property state

section

variable {property : RunState → Prop}

/-- A failure goes on with no state. -/
theorem Gives.failure (journal : Journal) (message : Text) (full : Bool) :
    Gives property (pure (failure journal message full)) :=
  fun _ _ h => by cases h

/-- Nor does what breaks off. -/
theorem Gives.breakOff (journal : Journal) (fault : RunFault) :
    Gives property (pure (breakOff journal fault)) :=
  fun _ _ h => by cases h

/-- Nor does a refusal. -/
theorem Gives.refusal (journal : Journal) (lead : Text) (error : FileError) :
    Gives property (pure (refusal journal lead error)) := by
  unfold Command.refusal
  split
  · exact .breakOff _ _
  · exact .failure _ _ _

/-- Going on with a state that has the property. -/
theorem Gives.value {state : RunState} (h : property state) (journal : Journal) :
    Gives property (pure { ending := .value state, journal := journal }) :=
  fun _ _ hstate => Ending.value.inj hstate ▸ h

/-- What comes after an action decides. -/
theorem Gives.bind {α : Type} {action : StateM Disk α} {next : α → StateM Disk (Record RunState)}
    (h : ∀ a, Gives property (next a)) : Gives property (action >>= next) :=
  fun disk => h (action disk).1 (action disk).2

/-- A run through stages gives what the later ones make of what the first gives. -/
theorem Gives.cons {first : RunState → Prop} {stage : Stage (StateM Disk)} {state : RunState}
    {rest : List (Stage (StateM Disk))} (h : Gives first (stage state))
    (hrest : ∀ next, first next → Gives property (runStages next rest)) :
    Gives property (runStages state (stage :: rest)) := by
  intro disk last hlast
  rcases (stage state disk).1.ending.value_or_not with ⟨next, hnext⟩ | hended
  · rw [(runStages_of_value hnext rest).1] at hlast
    exact hrest next (h disk next hnext) _ last hlast
  · rw [runStages_of_ended hended] at hlast
    exact absurd hlast (hended last)

end

/-- After the paths have been checked they are in the state. -/
theorem gives_checkEnvironment (state : RunState) :
    Gives (fun next => state.inputFile.below state.inputDir = .ok next.inputSourceFile ∧
      state.outputSubdir.below state.outputDir = .ok next.moduleOutputDir ∧
      next.preview = state.preview) (checkEnvironment state) := by
  unfold checkEnvironment
  split
  · exact .breakOff _ _
  · next input hinput =>
    refine .bind fun found => ?_
    cases found with
    | error error => exact .breakOff _ _
    | ok kind =>
      cases kind with
      | none => exact .failure _ _ _
      | some kind =>
        cases kind with
        | directory | other => exact .failure _ _ _
        | file =>
          dsimp only
          unfold prepareModuleDir
          split
          · exact .breakOff _ _
          · next directory hdirectory =>
            refine .bind fun refused => ?_
            cases refused with
            | some error => exact .breakOff _ _
            | none => exact .value ⟨hinput, hdirectory, rfl⟩ _

/-- The state has the paths of another and asks for the same files. -/
structure RunState.SamePaths (state next : RunState) : Prop where
  inputSourceFile : next.inputSourceFile = state.inputSourceFile
  moduleOutputDir : next.moduleOutputDir = state.moduleOutputDir
  preview : next.preview = state.preview

/-- Reading the source leaves the paths as they are. -/
theorem gives_readSource (settings : Settings) (state : RunState) :
    Gives state.SamePaths (readSource settings state) := by
  unfold readSource
  refine .bind fun content => ?_
  cases content with
  | error fault => exact .refusal _ _ _
  | ok bytes =>
    dsimp only
    split
    · exact .failure _ _ _
    · unfold splitSource
      split
      · dsimp only
        split
        · exact .failure _ _ _
        · exact .value ⟨rfl, rfl, rfl⟩ _
      · exact .value ⟨rfl, rfl, rfl⟩ _

/-- Compiling leaves the paths as they are. -/
theorem gives_compileSource (settings : Settings) (highlighter : Highlighter (StateM Disk))
    (state : RunState) : Gives state.SamePaths (compileSource settings highlighter state) := by
  unfold compileSource
  dsimp only
  split
  · refine .bind fun shown => ?_
    cases shown with
    | error fault => exact .breakOff _ _
    | ok entries => exact .value ⟨rfl, rfl, rfl⟩ _
  · exact .failure _ _ _
  · exact .failure _ _ _
  · exact .breakOff _ _

/-- Through the first three stages a run finds its paths under the directories that were given. -/
theorem Request.gives_located_of_path (settings : Settings) (highlighter : Highlighter (StateM Disk))
    {request : Request} {inputDir outputDir : Path} (hinputDir : request.inputDir.path = .ok inputDir)
    (houtputDir : request.outputDir.path = .ok outputDir) :
    Gives request.Located
      (runStages (request.state inputDir outputDir) ((stages settings highlighter).take 3)) := by
  refine .cons (gives_checkEnvironment _) fun checked ⟨hinput, houtput, hpreview⟩ => ?_
  refine .cons (gives_readSource settings checked) fun read hread => ?_
  refine .cons (gives_compileSource settings highlighter read) fun compiled hcompiled => ?_
  refine .value ?_ _
  have hfile : compiled.inputSourceFile = checked.inputSourceFile :=
    hcompiled.inputSourceFile.trans hread.inputSourceFile
  have hdir : compiled.moduleOutputDir = checked.moduleOutputDir :=
    hcompiled.moduleOutputDir.trans hread.moduleOutputDir
  have hasked : request.input = .ok compiled.inputSourceFile := by
    rw [Request.input, hinputDir, hfile]
    exact hinput
  refine ⟨hasked, fun ending => ?_, hcompiled.preview.trans (hread.preview.trans hpreview)⟩
  rw [Request.output, houtputDir, hasked, RunState.output, hdir]
  have hbelow : request.outputSubdir.below outputDir = .ok checked.moduleOutputDir := houtput
  simp only [bind, Except.bind, hbelow]
  rfl

/-! ## Through the wrapper -/

/-- A run that was ended goes on with no state. -/
theorem Record.ending_ended_ne (record : Record Empty) (state : RunState) :
    record.ended.ending ≠ .value state := by
  obtain ⟨ending, journal, stdout, stderr, traceback⟩ := record
  cases ending with
  | value result => cases result
  | exit status | broken fault => exact fun h => by cases h

/-- The wrapper ends a run, or hands on two directories under which it goes through the stages. -/
theorem Request.runThrough_cases (wrapper : Wrapper (StateM Disk)) (request : Request) (disk : Disk) :
    (∃ record : Record Empty, ∀ stages, request.runThrough wrapper stages disk =
      (record.ended, (wrapper.enter request disk).2)) ∨
    ∃ inputDir outputDir, (wrapper.enter request disk).1 = .ok (inputDir, outputDir) ∧
      ∀ stages, request.runThrough wrapper stages disk =
        runStages (request.state inputDir outputDir) stages (wrapper.enter request disk).2 := by
  unfold runThrough
  cases hentered : (wrapper.enter request disk).1 with
  | error record =>
    refine .inl ⟨record, fun stages => ?_⟩
    rw [Disk.bind_apply, hentered]
    rfl
  | ok paths =>
    refine .inr ⟨paths.1, paths.2, rfl, fun stages => ?_⟩
    rw [Disk.bind_apply, hentered]

/-- Through the first three stages a run finds its paths. -/
theorem Request.gives_located {tools : Tools (StateM Disk)} (hdirs : tools.wrapper.HandsOnGiven)
    (settings : Settings) (request : Request) :
    Gives request.Located
      (request.runThrough tools.wrapper ((stages settings tools.highlighter).take 3)) := by
  intro disk state hstate
  rcases request.runThrough_cases tools.wrapper disk with
    ⟨record, hended⟩ | ⟨inputDir, outputDir, hentered, hthrough⟩
  · rw [hended] at hstate
    exact absurd hstate (record.ending_ended_ne state)
  · obtain ⟨hinputDir, houtputDir⟩ := hdirs request disk inputDir outputDir hentered
    rw [hthrough] at hstate
    exact gives_located_of_path settings tools.highlighter hinputDir houtputDir _ state hstate

/-! ## Going on -/

/-- One run goes on through further stages where the other stops. -/
def GoesOn (later : List (Stage (StateM Disk))) (whole first : StateM Disk (Record RunState)) : Prop :=
  ∀ disk, (∀ next, (first disk).1.ending = .value next →
      (whole disk).2 = (runStages next later (first disk).2).2) ∧
    ((∀ next, (first disk).1.ending ≠ .value next) → (whole disk).2 = (first disk).2)

/-- A run through stages in two parts goes on with the second where the first ends. -/
theorem goesOn_runStages (state : RunState) (first later : List (Stage (StateM Disk))) :
    GoesOn later (runStages state (first ++ later)) (runStages state first) := by
  induction first generalizing state with
  | nil =>
    intro disk
    refine ⟨fun next hnext => ?_, fun hended => absurd rfl (hended state)⟩
    obtain rfl : state = next := Ending.value.inj hnext
    rfl
  | cons stage rest ih =>
    intro disk
    rcases (stage state disk).1.ending.value_or_not with ⟨next, hnext⟩ | hended
    · rw [List.cons_append, (runStages_of_value hnext _).2, (runStages_of_value hnext rest).1,
        (runStages_of_value hnext rest).2]
      exact ih next _
    · rw [List.cons_append, runStages_of_ended hended, runStages_of_ended hended]
      exact ⟨fun next hnext => absurd hnext (hended next), fun _ => rfl⟩

/-- A request that is run through stages in two parts goes on with the second where the first ends. -/
theorem Request.goesOn_runThrough (wrapper : Wrapper (StateM Disk)) (request : Request)
    (first later : List (Stage (StateM Disk))) :
    GoesOn later (request.runThrough wrapper (first ++ later)) (request.runThrough wrapper first) := by
  intro disk
  rcases request.runThrough_cases wrapper disk with
    ⟨record, hended⟩ | ⟨inputDir, outputDir, -, hthrough⟩
  · rw [hended, hended]
    exact ⟨fun next hnext => absurd hnext (record.ending_ended_ne next), fun _ => rfl⟩
  · rw [hthrough, hthrough]
    exact goesOn_runStages (request.state inputDir outputDir) first later _

/-- A request after the first three stages of its run: the paths are checked, the source is read and
compiled. -/
def Request.prepared (tools : Tools (StateM Disk)) (settings : Settings) (request : Request)
    (disk : Disk) : Record RunState × Disk :=
  request.runThrough tools.wrapper ((stages settings tools.highlighter).take 3) disk

/-- Up to the writing stage nothing is added but directories. -/
theorem Request.housed_prepared {tools : Tools (StateM Disk)}
    (hwrites : tools.highlighter.WritesNothing) (hwrapper : tools.wrapper.WritesNoFiles)
    (settings : Settings) (request : Request) (disk : Disk) :
    Disk.Housed disk (request.prepared tools settings disk).2 :=
  request.houses_runThrough hwrapper (fun _ => houses_of_mem_take hwrites) disk

end SetupScript.Command
