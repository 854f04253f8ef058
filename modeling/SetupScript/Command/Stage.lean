import SetupScript.Command.Arguments
import SetupScript.Command.FileSystem
import SetupScript.Component.Script
import SetupScript.Text.Utf8

/-!
# Stages of a run

A run goes through five stages: check the paths, read the source, compile it, write the module and
report. Each takes the state of the run and gives the state after it, or ends the run. What a stage
logs and prints is data; only files are reached through the file system. The highlighter that makes
previews is no part of the command but is given to it, and may do and answer anything.
-/

namespace SetupScript.Command

/-- What a finished run has written. -/
structure Summary where
  status : Bool
  outputFile : Text
  previewFile : Option Text
  setup : Bool

/-- The state of a run. -/
structure RunState where
  inputDir : Path
  outputDir : Path
  verbosity : Int := 1
  inputFile : Operand := .text []
  componentName : Option Text := none
  outputSubdir : Operand := .text "."
  preview : Bool := false
  envOk : Bool := false
  inputSourceFile : Path := ⟨"/", []⟩
  moduleOutputDir : Path := ⟨"/", []⟩
  sourceText : Text := []
  descriptor : Option Sections := none
  compiledModule : Option Text := none
  /-- The summary, which may still be a blank form. -/
  summary : Option (Option Summary) := none

/-- Entries that a stage makes only from a verbosity on. -/
def RunState.whenAtLeast (state : RunState) (verbosity : Int) (entries : Journal) : Journal :=
  if verbosity ≤ state.verbosity then entries else []

/-- What a module is highlighted for. -/
inductive Format where
  | terminal
  | page

/-- How highlighting fails: with an error of the operating system, or with another one. -/
inductive HighlightFault where
  | system (message : Text)
  | other (message : Text)

/-- A highlighter renders a text, with effects and faults of its own. -/
abbrev Highlighter (m : Type → Type) := Format → Text → m (Except HighlightFault Text)

/-- Why a run breaks off without an exit status of its own. -/
inductive RunFault where
  | overlap (range : Overlap)
  | file (error : FileError)
  | highlight (fault : HighlightFault)
  /-- The operand names no path. -/
  | notPath (operand : Operand)
  /-- The operand names no path below a directory. -/
  | notBelow (operand : Operand)

/-- What an operand is called in messages. -/
def Operand.typeName : Operand → Text
  | text _ => "str"
  | absent => "NoneType"
  | void => "list"

/-- The wording of a highlighter's fault, which is its own. -/
def HighlightFault.message : HighlightFault → Text
  | system message | other message => message

/-- The wording of a fault. -/
def RunFault.message : RunFault → Text
  | overlap range => range.message
  | file error => error.message
  | highlight fault => fault.message
  | notPath operand => "expected str, bytes or os.PathLike object, not " ++ operand.typeName
  | notBelow operand =>
    "unsupported operand type(s) for /: 'PosixPath' and '" ++ operand.typeName ++ "'"

/-- The path that an operand names. -/
def Operand.path : Operand → Except RunFault Path
  | text t => .ok (Path.ofText t)
  | operand => .error (.notPath operand)

/-- The path that an operand names below a directory. -/
def Operand.below (directory : Path) : Operand → Except RunFault Path
  | text t => .ok (directory.join (Path.ofText t))
  | operand => .error (.notBelow operand)

/-- How a stage, or a run, ends: it goes on with a value, exits, or breaks off. -/
inductive Ending (α : Type) where
  | value (result : α)
  | exit (status : Nat)
  | broken (fault : RunFault)

/-- What came of a stage or a run. `traceback` tells that the error was printed in full. -/
structure Record (α : Type) where
  ending : Ending α
  journal : Journal := []
  stdout : Text := []
  stderr : Text := []
  traceback : Bool := false

/-- A stage of a run. -/
abbrev Stage (m : Type → Type) := RunState → m (Record RunState)

/-- End with status 1 and a message. -/
def failure {α : Type} (journal : Journal) (message : Text) (traceback : Bool := false) : Record α :=
  { ending := .exit 1, journal := journal, stderr := message ++ "\n", traceback := traceback }

/-- Break off with a fault. -/
def breakOff {α : Type} (journal : Journal) (fault : RunFault) : Record α :=
  { ending := .broken fault, journal := journal }

/-- End on a refusal of the file system: it is reported, except that a path with a null character
breaks the run off. -/
def refusal {α : Type} (journal : Journal) (lead : Text) (error : FileError) : Record α :=
  if error.fault = .nullCharacter then breakOff journal (.file error)
  else failure journal (lead ++ error.message)

/-- The banner of the command. -/
def banner : Text :=
  "\n            _                          _       _\n" ++
  "   ___  ___| |_ _   _ _ __  _ __ ___ (_)_ __ (_)\n" ++
  "  / __|/ _ \\ __| | | | '_ \\| '_ \x60 _ \\| | '_ \\| |\n" ++
  "  \\__ \\  __/ |_| |_| | |_) | | | | | | | | | | |\n" ++
  "  |___/\\___|\\__|\\__,_| .__/|_| |_| |_|_|_| |_|_|\n" ++
  "                     |_|\n" ++
  "  Minimal <script setup> compiler\n"

/-- What a run says first. -/
def RunState.opening (state : RunState) : Journal :=
  state.whenAtLeast 2 [⟨2, banner⟩] ++ [⟨2, "Checking environment..."⟩]

variable {m : Type → Type} [Monad m] [FileSystem m]

/-- Make the output directory of a run whose input file is there. -/
def prepareModuleDir (journal : Journal) (inputFile : Path) : Stage m := fun state => do
  match state.outputSubdir.below state.outputDir with
  | .error fault => return breakOff journal fault
  | .ok outputDir =>
    match ← makeDirectories true outputDir with
    | some error => return breakOff journal (.file error)
    | none =>
      return {
        ending := .value { state with
          inputSourceFile := inputFile, moduleOutputDir := outputDir, envOk := true }
        journal := journal ++ [⟨2, "Output directory: " ++ outputDir.render⟩] }

/-- Resolve the paths: the input file must be there, and the output directory is made. -/
def checkEnvironment : Stage m := fun state => do
  match state.inputFile.below state.inputDir with
  | .error fault => return breakOff state.opening fault
  | .ok inputFile =>
    match ← findKind inputFile with
    | .error error => return breakOff state.opening (.file error)
    | .ok (some .file) =>
      prepareModuleDir (state.opening ++ [⟨2, "Input file: " ++ inputFile.render⟩]) inputFile state
    | .ok _ => return failure state.opening ("Error: Input file not found: " ++ inputFile.render)

/-- Split the text of a component file into its sections, of which the script must be there; any
other text is a setup script as a whole. -/
def splitSource (settings : Settings) (journal : Journal) (text : Text) (state : RunState) :
    Record RunState :=
  if state.inputSourceFile.suffix = settings.componentExtension then
    let sections := Sections.ofSource text
    let split := journal ++ [⟨1, "Splitting component sections..."⟩, sections.entry]
    if sections.script.isNone then
      failure split ("Error: No <script> block in " ++ state.inputSourceFile.name)
    else
      { ending := .value { state with sourceText := text, descriptor := some sections }
        journal := split }
  else
    { ending := .value { state with sourceText := text, descriptor := none }
      journal := journal ++
        [⟨2, "No component extension: treating input as a bare setup script"⟩] }

/-- Read the source and split it. -/
def readSource (settings : Settings) : Stage m := fun state => do
  let opening : Journal := [⟨1, "Reading source file..."⟩]
  let lead : Text := "Error reading input file: "
  match ← FileSystem.read state.inputSourceFile with
  | .error fault => return refusal opening lead ⟨fault, state.inputSourceFile⟩
  | .ok bytes =>
    match Text.decode bytes with
    | .error fault => return failure opening (lead ++ fault.message)
    | .ok decoded =>
      let text := Text.unifyBreaks decoded
      let counted := "Read " ++ Text.ofNat text.length ++ " characters from " ++
        state.inputSourceFile.name
      return splitSource settings (opening ++ [⟨2, counted⟩]) text state

/-- The script of a run: that of the component file, or else the whole source as a setup script. -/
def RunState.script (state : RunState) : ScriptBlock :=
  match state.descriptor.bind Sections.script with
  | some block => block
  | none => { content := state.sourceText, isSetup := true }

/-- The component name of a run: the one asked for, or else the name of the input file. -/
def RunState.nameOrStem (state : RunState) : Text :=
  match state.componentName with
  | some (c :: rest) => c :: rest
  | _ => state.inputSourceFile.stem

/-- The entry that shows a module, made only at a verbosity at which it shows. -/
def showModule (highlighter : Highlighter m) (code : Text) (state : RunState) :
    m (Except HighlightFault Journal) := do
  if 3 ≤ state.verbosity then
    return (← highlighter .terminal code).map fun shown => [⟨3, "\n" ++ shown⟩]
  else return .ok []

/-- Go on with a compiled module. -/
def keepModule (highlighter : Highlighter m) (journal : Journal) (code : Text) : Stage m :=
  fun state => do
    let generated := journal ++ [⟨2, "Generated " ++ Text.ofNat code.length ++ " characters"⟩]
    match ← showModule highlighter code state with
    | .error fault => return breakOff generated (.highlight fault)
    | .ok entries =>
      return {
        ending := .value { state with compiledModule := some code }
        journal := generated ++ entries }

/-- Compile the script. No full compiler stands behind it. -/
def compileSource (settings : Settings) (highlighter : Highlighter m) : Stage m := fun state => do
  let block := state.script
  let kind : Text := if block.isSetup then "setup" else "plain"
  let options : Options Unit := { componentName := some state.nameOrStem }
  let result : ScriptResult Empty := Id.run (block.compile settings (some options) none)
  let journal := ⟨1, "Compiling " ++ kind ++ " script..."⟩ :: result.journal
  match result.value with
  | .ok code => keepModule highlighter journal code state
  | .error (.compile (.unsupported kind)) =>
    return failure journal ("Error: " ++ (CompileError.unsupported kind).message)
  | .error (.compile (.duplicate kind position)) =>
    return failure journal
      ("Compilation error: " ++ (CompileError.duplicate kind position).message)
      (3 ≤ state.verbosity)
  | .error (.compile (.overlap range)) =>
    return breakOff journal (.overlap range)

/-- The path of the file that a run writes with an ending of its own. -/
def RunState.output (state : RunState) (ending : Text) : Path :=
  state.moduleOutputDir.join (Path.ofText (state.inputSourceFile.stem ++ ending))

/-- The entry for a written file. -/
def wrote (path : Path) : Entry := ⟨2, "Wrote " ++ path.render⟩

/-- Go on with the summary of what was written. -/
def RunState.finished (state : RunState) (previewFile : Option Path) (journal : Journal) :
    Record RunState where
  ending := .value { state with
    summary := some (some ⟨true, (state.output ".js").render, previewFile.map Path.render,
      state.script.isSetup⟩) }
  journal := journal

/-- How a run says that it could not write. -/
def unwrittenLead : Text := "Error writing output: "

/-- End on a file that could not be written. -/
def unwritten (journal : Journal) (fault : FileFault) (path : Path) : Record RunState :=
  refusal journal unwrittenLead ⟨fault, path⟩

/-- Write the preview of a module after the module itself. -/
def writePreview (highlighter : Highlighter m) (code : Text) : Stage m := fun state => do
  let written := [wrote (state.output ".js")]
  match ← highlighter .page code with
  | .error (.system message) => return failure written (unwrittenLead ++ message)
  | .error fault => return breakOff written (.highlight fault)
  | .ok page =>
    match ← FileSystem.write (state.output ".html") (Text.encode page) with
    | some fault => return unwritten written fault (state.output ".html")
    | none =>
      return state.finished (some (state.output ".html")) (written ++ [wrote (state.output ".html")])

/-- Write the module, and its preview when asked for. -/
def writeOutput (highlighter : Highlighter m) : Stage m := fun state => do
  match state.compiledModule with
  | none => return failure [] "Error: No compiled module available"
  | some code =>
    match ← FileSystem.write (state.output ".js") (Text.encode (code ++ "\n")) with
    | some fault => return unwritten [] fault (state.output ".js")
    | none =>
      if state.preview then writePreview highlighter code state
      else return state.finished none [wrote (state.output ".js")]

/-- What a run says last. -/
def Summary.entries (summary : Summary) : Journal :=
  let preview : Journal := match summary.previewFile with
    | some (c :: rest) => [⟨1, "  Preview: " ++ (c :: rest)⟩]
    | _ => []
  let mode : Text := if summary.setup then "setup script" else "plain script (ES-module rewrite)"
  [⟨1, "\n✓ Compilation successful!"⟩, ⟨1, "  Output:  " ++ summary.outputFile⟩] ++
    preview ++ [⟨1, "  Mode:    " ++ mode⟩]

/-- Report what was written. -/
def reportResults : Stage m := fun state => do
  match state.summary with
  | some (some summary) =>
    return { ending := .value state, journal := state.whenAtLeast 1 summary.entries }
  | _ => return failure [] "Error: Compilation failed"

/-- The stages in their order. -/
def stages (settings : Settings) (highlighter : Highlighter m) : List (Stage m) :=
  [checkEnvironment, readSource settings, compileSource settings highlighter, writeOutput highlighter,
    reportResults]

/-- Run stages one after the other, up to the first that ends the run. -/
def runStages (state : RunState) : List (Stage m) → m (Record RunState)
  | [] => return { ending := .value state }
  | stage :: rest => do
    let first ← stage state
    match first.ending with
    | .value next =>
      let later ← runStages next rest
      return { later with
        journal := first.journal ++ later.journal
        stdout := first.stdout ++ later.stdout
        stderr := first.stderr ++ later.stderr }
    | _ => return first

end SetupScript.Command
