import SetupScript.Text.Basic

/-!
# Paths

Paths in their parts. Empty parts and single dots are dropped, double dots are kept, since what they
mean depends on the disk. A path that starts with exactly two slashes keeps both.
-/

namespace SetupScript

/-- A path: its leading slashes, if any, and its parts. -/
structure Path where
  root : Text := []
  parts : List Text := []
  deriving DecidableEq

namespace Path

/-- Read a path. -/
def ofText (t : Text) : Path where
  root :=
    match (t.takeWhile (· == '/')).length with
    | 0 => []
    | 2 => "//"
    | _ => "/"
  parts := (Text.cutAt (· == '/') t).filter fun part => !part.isEmpty && part != ['.']

/-- A path as it is written; the empty relative path is a dot. -/
def render (path : Path) : Text :=
  if path.root.isEmpty && path.parts.isEmpty then "."
  else path.root ++ Text.joinWith "/" path.parts

/-- The second path seen from the first. -/
def join (path other : Path) : Path :=
  if other.root.isEmpty then { path with parts := path.parts ++ other.parts } else other

/-- The last part, or nothing. -/
def name (path : Path) : Text := path.parts.getLast?.getD []

/-- The name up to its last dot, and the ending from there on. A dot at either end of the name
starts no ending. -/
def splitName (path : Path) : Text × Text :=
  let ending := (path.name.reverse.takeWhile (· != '.')).reverse
  let stem := path.name.take (path.name.length - ending.length - 1)
  if ending.length < path.name.length && !stem.isEmpty && !ending.isEmpty then (stem, '.' :: ending)
  else (path.name, [])

/-- The name without its ending. -/
def stem (path : Path) : Text := path.splitName.1

/-- The ending of the name, with its dot. -/
def suffix (path : Path) : Text := path.splitName.2

end Path

end SetupScript
