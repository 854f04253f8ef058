import SetupScript.Command.Standard
import SetupScript.Settings.Environment

/-!
# The command

Runs the command on the real file system. Everything that is decided is decided elsewhere; here
files are reached, messages printed and the exit status handed on.
-/

namespace SetupScript.Command

/-- The fault behind an error of the operating system. -/
def faultOf : IO.Error → FileFault
  | .alreadyExists .. => .present
  | .noFileOrDirectory .. => .missing
  | .inappropriateType _ code _ => if code = 21 then .isDirectory else .notDirectory
  | .invalidArgument _ code _ => if code = 40 then .tooManyLinks else .nameTooLong
  | _ => .isDirectory

/-- A path as the operating system takes it. -/
def Path.onDisk (path : Path) : String := String.ofList path.render

/-- Run an action on the disk and tell what refused it. -/
def attemptOnDisk (action : IO Unit) : IO (Option FileFault) := do
  match ← action.toBaseIO with
  | .ok _ => return none
  | .error error => return some (faultOf error)

/-- The kind of what the operating system found. -/
def kindOf : IO.FS.FileType → FileKind
  | .file => .file
  | .dir => .directory
  | _ => .other

instance : FileSystem IO where
  kind path := do
    match ← (System.mkFilePath [Path.onDisk path]).metadata.toBaseIO with
    | .ok data => return .ok (kindOf data.type)
    | .error error => return .error (faultOf error)
  read path := do
    match ← (IO.FS.readBinFile (Path.onDisk path)).toBaseIO with
    | .ok bytes => return .ok bytes.toList
    | .error error => return .error (faultOf error)
  write path bytes :=
    attemptOnDisk (IO.FS.writeBinFile (Path.onDisk path) ⟨bytes.toArray⟩)
  makeDirectory path := attemptOnDisk (IO.FS.createDir (Path.onDisk path))

/-- Settings of the process: its environment, and the `.env` file of the working directory. -/
def processSettings : IO (Except (List Settings.Problem) Settings) := do
  let fields := Settings.textFields.map (·.1) ++ Settings.switchFields.map (·.1)
  let names := fields.map fun field => (Settings.variableLead ++ field).map Char.toUpper
  let values ← names.filterMapM fun name => do
    return (← IO.getEnv (String.ofList name)).map fun value => (name, some value.toList)
  let file ← (IO.FS.readFile ".env").toBaseIO
  return Settings.ofVariables values
    (match file with | .ok text => Settings.fileVariables text.toList | .error _ => [])

end SetupScript.Command

open SetupScript SetupScript.Command in
/-- The command line program. -/
def main (arguments : List String) : IO UInt32 := do
  let stderr ← IO.getStderr
  match ← processSettings with
  | .error problems =>
    for problem in problems do
      stderr.putStrLn (String.ofList problem.message)
    return 1
  | .ok settings =>
    let report ← (run standardTools settings (arguments.map String.toList) : IO Report)
    let record := report.record
    for message in record.journal.shownAt report.verbosity do
      stderr.putStrLn (String.ofList message)
    IO.print (String.ofList record.stdout)
    stderr.putStr (String.ofList record.stderr)
    match record.ending with
    | .value _ => return 0
    | .exit status => return status.toUInt32
    | .broken fault =>
      stderr.putStrLn (String.ofList fault.message)
      return 1
