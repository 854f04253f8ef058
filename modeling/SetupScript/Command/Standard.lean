import SetupScript.Command.Run
import SetupScript.Highlight.Preview

/-!
# Tools of the command line program

The wrapper and the highlighter with which the program is built. The wrapper makes the output directory
when nothing is there and insists on two directories; its flags change nothing. Runs are reasoned about
for all tools, so nothing else rests on these.
-/

namespace SetupScript.Command

variable {m : Type → Type} [Monad m] [FileSystem m]

/-- The text that a preview shows, or the page with its marked words. -/
def standardHighlighter : Highlighter m := fun format code =>
  return .ok (match format with
    | .terminal => Highlight.shown code
    | .page => Highlight.page code)

/-- Make the output directory when nothing is there yet. What is there by the time it is made, such
as the end of a path that leads back out of a new directory, is an error. -/
def prepareOutput (path : Path) : m (Option FileError) := do
  match ← findKind path with
  | .error error => return some error
  | .ok (some _) => return none
  | .ok none => makeDirectories false path

/-- Refuse a path that does not lead to a directory. -/
def requireDirectory (path : Path) : m (Option (Record Empty)) := do
  match ← findKind path with
  | .error error => return some (breakOff [] (.file error))
  | .ok (some .directory) => return none
  | .ok _ => return some (failure [] ("Not a directory: " ++ path.render))

/-- Hand on the directories that were given; both must be directories, the output directory first. -/
def enterDirectories (request : Request) : m (Except (Record Empty) (Path × Path)) := do
  match request.inputDir.path, request.outputDir.path with
  | .error fault, _ | _, .error fault => return .error (breakOff [] fault)
  | .ok inputDir, .ok outputDir =>
    match ← prepareOutput outputDir with
    | some error => return .error (breakOff [] (.file error))
    | none =>
      match ← requireDirectory outputDir with
      | some record => return .error record
      | none =>
        match ← requireDirectory inputDir with
        | some record => return .error record
        | none => return .ok (inputDir, outputDir)

/-- The wrapper of the program. -/
def standardWrapper : Wrapper m where
  flags := ["--saveinputmeta", "--saveoutputmeta"]
  enter := enterDirectories
  leave _ := pure ()

/-- The tools of the program. -/
def standardTools : Tools m := ⟨standardHighlighter, standardWrapper⟩

end SetupScript.Command
