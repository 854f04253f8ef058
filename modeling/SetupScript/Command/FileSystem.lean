import SetupScript.Command.Path
import SetupScript.Text.Utf8

/-!
# File systems

What a run needs from a file system, and the model of one: a disk holds files, directories and links
under their parts from the working directory on. Paths are followed part by part, so that a double dot
leads out of the directory that was really reached. A link leads on to its target, and one file may
stand in several places.
-/

namespace SetupScript

/-- Why a file system refuses. -/
inductive FileFault where
  | missing
  | present
  | notDirectory
  | isDirectory
  | nameTooLong
  | tooManyLinks
  /-- The path holds a null character, which no path can. -/
  | nullCharacter
  deriving DecidableEq

/-- A refusal with the path that it is about. -/
structure FileError where
  fault : FileFault
  path : Path
  deriving DecidableEq

/-- The number and wording of a fault; a path with a null character never reaches the file system,
so that fault has no number. -/
def FileFault.message : FileFault → Text
  | missing => "[Errno 2] No such file or directory"
  | present => "[Errno 17] File exists"
  | notDirectory => "[Errno 20] Not a directory"
  | isDirectory => "[Errno 21] Is a directory"
  | nameTooLong => "[Errno 36] File name too long"
  | tooManyLinks => "[Errno 40] Too many levels of symbolic links"
  | nullCharacter => "embedded null byte"

/-- The wording of a refusal. -/
def FileError.message (error : FileError) : Text :=
  if error.fault = .nullCharacter then error.fault.message
  else error.fault.message ++ ": " ++ Text.quoted error.path.render

/-- With this fault there is nothing under the path. -/
def FileFault.meansNothing : FileFault → Bool
  | missing | notDirectory | tooManyLinks | nullCharacter => true
  | _ => false

/-- What a path leads to. -/
inductive FileKind where
  | file
  | directory
  | other
  deriving DecidableEq

/-- The operations of a file system. -/
class FileSystem (m : Type → Type) where
  kind : Path → m (Except FileFault FileKind)
  read : Path → m (Except FileFault (List UInt8))
  write : Path → List UInt8 → m (Option FileFault)
  makeDirectory : Path → m (Option FileFault)

section

variable {m : Type → Type} [Monad m] [FileSystem m]

/-- What is found under a path, if anything is. -/
def findKind (path : Path) : m (Except FileError (Option FileKind)) := do
  match ← FileSystem.kind path with
  | .ok kind => return .ok (some kind)
  | .error fault => return if fault.meansNothing then .ok none else .error ⟨fault, path⟩

/-- What comes of a directory that could not be made. Where it may exist already, the refusal does
not matter when the directory is there. -/
def settleRefusal (mayExist : Bool) (path : Path) (fault : FileFault) : m (Option FileError) := do
  if !mayExist || fault = .missing || fault = .nullCharacter then return some ⟨fault, path⟩
  match ← findKind path with
  | .ok (some .directory) => return none
  | .ok _ => return some ⟨fault, path⟩
  | .error error => return some error

/-- Make one directory. -/
def makeLastDirectory (mayExist : Bool) (path : Path) : m (Option FileError) := do
  match ← FileSystem.makeDirectory path with
  | none => return none
  | some fault => settleRefusal mayExist path fault

/-- Make a directory whose parts are given from the last to the first, and what is missing above
it, where directories may always exist already. -/
def makeDirectoriesAt (mayExist : Bool) (root : Text) : List Text → m (Option FileError)
  | [] => makeLastDirectory mayExist ⟨root, []⟩
  | part :: above => do
    let path : Path := ⟨root, (part :: above).reverse⟩
    match ← FileSystem.makeDirectory path with
    | none => return none
    | some .missing =>
      match ← makeDirectoriesAt true root above with
      | some error => return some error
      | none => makeLastDirectory mayExist path
    | some fault => settleRefusal mayExist path fault

/-- Make a directory and what is missing above it. -/
def makeDirectories (mayExist : Bool) (path : Path) : m (Option FileError) :=
  makeDirectoriesAt mayExist path.root path.parts.reverse

end

/-! ## The model -/

/-- What stands under a name. A file is known by a number, so that it may stand under several names. -/
inductive Node where
  | file (number : Nat)
  | directory
  | link (target : Path)
  deriving DecidableEq

/-- The kind of a node. -/
def Node.kind : Node → FileKind
  | file _ => .file
  | directory => .directory
  | link _ => .other

/-- The number of a file. -/
def Node.number? : Node → Option Nat
  | file number => some number
  | _ => none

/-- Files, directories and links under their parts from the working directory on, and the bytes of
the files by their numbers, the latest first. Parts that start with a slash are seen from the root, and
parts that start with a double dot lie outside. -/
structure Disk where
  nodes : List (List Text × Node) := []
  contents : List (Nat × List UInt8) := []
  deriving DecidableEq

namespace Disk

/-- The part that leads out of a directory. -/
def outward : Text := ".."

/-- The parts of the root. -/
def rootParts : List Text := ["/"]

/-- A directory that is always there: the working directory, those above it, and the root. -/
def isFixed (parts : List Text) : Bool := parts.all (· == outward) || parts == rootParts

/-- What stands under the parts, which have been followed already. -/
def node? (disk : Disk) (parts : List Text) : Option Node :=
  if isFixed parts then some .directory else (disk.nodes.find? (·.1 == parts)).map (·.2)

/-- Where the link under the parts leads, if one stands there. -/
def link? (disk : Disk) (parts : List Text) : Option Path :=
  match disk.node? parts with
  | some (.link target) => some target
  | _ => none

/-- The bytes of the file with this number; none have been written for a new one. -/
def bytes (disk : Disk) (number : Nat) : List UInt8 := (disk.contents.lookup number).getD []

/-- Put a node under followed parts. -/
def set (disk : Disk) (parts : List Text) (node : Node) : Disk :=
  { disk with nodes :=
      if (disk.nodes.find? (·.1 == parts)).isSome then
        disk.nodes.map fun item => if item.1 == parts then (parts, node) else item
      else disk.nodes ++ [(parts, node)] }

/-- Give a file other bytes. -/
def store (disk : Disk) (number : Nat) (bytes : List UInt8) : Disk :=
  { disk with contents := (number, bytes) :: disk.contents }

/-- A number that no file has. -/
def freshNumber (disk : Disk) : Nat :=
  (disk.nodes.filterMap (·.2.number?)).foldr (fun number next => max next (number + 1)) 0

/-- Follow one part out of a directory. -/
def enter (current : List Text) (part : Text) : List Text :=
  if part = outward then
    if current = rootParts then current
    else if isFixed current then current ++ [part]
    else current.dropLast
  else current ++ [part]

/-- The longest name in a directory, in bytes. -/
def nameLimit : Nat := 255

/-- The longest path, in bytes. -/
def pathLimit : Nat := 4095

/-- How many links may be followed on the way. -/
def linkLimit : Nat := 40

/-- How far parts have been followed: to a place, or to a link in a directory, with the parts that are
left after it. -/
inductive Walk where
  | arrived (place : List Text)
  | met (directory : List Text) (target : Path) (left : List Text)

/-- Follow parts from a place on, up to the first link. All but the last must lead to directories. The
last may be a link that is not to be followed. -/
def walk (disk : Disk) (followLast : Bool) (current : List Text) : List Text → Except FileFault Walk
  | [] => .ok (.arrived current)
  | part :: rest =>
    match disk.node? current with
    | none => .error .missing
    | some .directory =>
      if nameLimit < (Text.encode part).length then .error .nameTooLong
      else
        match disk.link? (enter current part) with
        | none => disk.walk followLast (enter current part) rest
        | some target =>
          if followLast || !rest.isEmpty then .ok (.met current target rest)
          else .ok (.arrived (enter current part))
    | some _ => .error .notDirectory

/-- Where a path starts that is given in a directory. -/
def startOf (directory : List Text) (path : Path) : List Text :=
  if path.root.isEmpty then directory else rootParts

/-- Follow parts from a place on, through so many links at most. -/
def resolveFrom (disk : Disk) (followLast : Bool) (links : Nat) (current parts : List Text) :
    Except FileFault (List Text) :=
  match disk.walk followLast current parts with
  | .error fault => .error fault
  | .ok (.arrived place) => .ok place
  | .ok (.met directory target left) =>
    match links with
    | 0 => .error .tooManyLinks
    | links + 1 => disk.resolveFrom followLast links (startOf directory target) (target.parts ++ left)

/-- Follow a path. -/
def resolve (disk : Disk) (followLast : Bool) (path : Path) : Except FileFault (List Text) :=
  if path.render.contains '\x00' then .error .nullCharacter
  else if pathLimit < (Text.encode path.render).length then .error .nameTooLong
  else disk.resolveFrom followLast linkLimit (startOf [] path) path.parts

/-- The place that a path leads to. -/
def follow (disk : Disk) (path : Path) : Except FileFault (List Text) := disk.resolve true path

/-- What a path leads to. -/
def lookup (disk : Disk) (path : Path) : Except FileFault Node :=
  match disk.follow path with
  | .error fault => .error fault
  | .ok place =>
    match disk.node? place with
    | some node => .ok node
    | none => .error .missing

/-- The bytes of a file. -/
def read (disk : Disk) (path : Path) : Except FileFault (List UInt8) :=
  match disk.lookup path with
  | .ok (.file number) => .ok (disk.bytes number)
  | .ok .directory => .error .isDirectory
  | .ok (.link _) => .error .tooManyLinks
  | .error fault => .error fault

/-- Write a file: one that is there keeps its number and with it its other names. -/
def write (disk : Disk) (path : Path) (bytes : List UInt8) : Except FileFault Disk :=
  match disk.follow path with
  | .error fault => .error fault
  | .ok place =>
    match disk.node? place with
    | some (.file number) => .ok (disk.store number bytes)
    | none => .ok ((disk.set place (.file disk.freshNumber)).store disk.freshNumber bytes)
    | some .directory => .error .isDirectory
    | some (.link _) => .error .tooManyLinks

/-- Make a directory where nothing is yet, not even a link. -/
def makeDirectory (disk : Disk) (path : Path) : Except FileFault Disk :=
  match disk.resolve false path with
  | .error fault => .error fault
  | .ok place =>
    match disk.node? place with
    | some _ => .error .present
    | none => .ok (disk.set place .directory)

/-- Do what may change the disk, and leave it as it is when refused. -/
def attempt (change : Disk → Except FileFault Disk) : StateM Disk (Option FileFault) := fun disk =>
  match change disk with
  | .ok changed => (none, changed)
  | .error fault => (some fault, disk)

end Disk

instance : FileSystem (StateM Disk) where
  kind path := fun disk => ((disk.lookup path).map Node.kind, disk)
  read path := fun disk => (disk.read path, disk)
  write path bytes := Disk.attempt (·.write path bytes)
  makeDirectory path := Disk.attempt (·.makeDirectory path)

end SetupScript
