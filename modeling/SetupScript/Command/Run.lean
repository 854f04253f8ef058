import SetupScript.Command.Stage

/-!
# Runs of the command

A run reads its arguments, is handed two directories and goes through the stages. The command is
started through a wrapper, which adds flags of its own to the command line, makes sure of the
directories before the stages and may act once more after them. Like the highlighter, the wrapper is
given to the command.
-/

namespace SetupScript.Command

variable {m : Type → Type} [Monad m] [FileSystem m]

/-- The record of a run that did not go on, for a caller that would have gone on with anything. -/
def Record.ended {α : Type} (record : Record Empty) : Record α where
  ending :=
    match record.ending with
    | .exit status => .exit status
    | .broken fault => .broken fault
  journal := record.journal
  stdout := record.stdout
  stderr := record.stderr
  traceback := record.traceback

/-- What the command is started through. -/
structure Wrapper (m : Type → Type) where
  /-- The flags that are added to the command line. -/
  flags : List Text
  /-- Hand on the input and output directories of a request, or end the run. -/
  enter : Request → m (Except (Record Empty) (Path × Path))
  /-- Act after a run that has gone through all stages. -/
  leave : Request → m Unit

/-- What the command is given to work with. -/
structure Tools (m : Type → Type) where
  highlighter : Highlighter m
  wrapper : Wrapper m

/-- The state that a request starts with, under its two directories. -/
def Request.state (request : Request) (inputDir outputDir : Path) : RunState where
  inputDir := inputDir
  outputDir := outputDir
  verbosity := request.verbosity
  inputFile := request.inputFile
  componentName := request.componentName
  outputSubdir := request.outputSubdir
  preview := request.preview

/-- Run a request through stages, under the directories that the wrapper hands on. -/
def Request.runThrough (wrapper : Wrapper m) (request : Request) (stages : List (Stage m)) :
    m (Record RunState) := do
  match ← wrapper.enter request with
  | .error record => return record.ended
  | .ok (inputDir, outputDir) => runStages (request.state inputDir outputDir) stages

/-- Run a request. -/
def Request.run (tools : Tools m) (settings : Settings) (request : Request) : m (Record RunState) := do
  let record ← request.runThrough tools.wrapper (stages settings tools.highlighter)
  if let .value _ := record.ending then tools.wrapper.leave request
  return record

/-- What came of a command line: the record of the run and the verbosity at which it speaks. -/
structure Report where
  record : Record RunState
  verbosity : Int

/-- How an added flag is used. -/
def flagUsage (flag : Text) : Text := "[" ++ flag ++ "] "

/-- How the command is used. -/
def usageText (flags : List Text) : Text :=
  "usage: " ++ programName ++ " [-h] --inputFile INPUTFILE [--componentName COMPONENTNAME] " ++
  "[--outputSubdir OUTPUTSUBDIR] [--preview] [-v] [-V] " ++
  flags.flatMap flagUsage ++ "inputdir outputdir\n"

/-- Run a command line. -/
def run (tools : Tools m) (settings : Settings) (arguments : List Text) : m Report := do
  match readArguments tools.wrapper.flags arguments with
  | .error .help => return ⟨{ ending := .exit 0, stdout := usageText tools.wrapper.flags }, 0⟩
  | .error .version => return ⟨{ ending := .exit 0, stdout := versionText ++ "\n" }, 0⟩
  | .error (.usage error) =>
    return ⟨{ ending := .exit 2
              stderr := programName ++ ": error: " ++ error.message ++ "\n" }, 0⟩
  | .ok request => return ⟨← request.run tools settings, request.verbosity⟩

end SetupScript.Command
