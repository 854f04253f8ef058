import SetupScript.Text.Basic

/-!
# Edits

Replacements of ranges of one text, collected first and applied together, so that offsets found by
reading the text stay valid. A range includes both its ends. Ranges that share an offset are
refused. Offsets are taken as given: one outside the text is clamped when the edits are applied.
-/

namespace SetupScript

/-- The characters from `start` to `stop`, both included, become `replacement`. -/
structure Edit where
  start : Int
  stop : Int
  replacement : Text
  deriving DecidableEq

/-- A range that an edit list refuses because a recorded edit touches it. -/
structure Overlap where
  start : Int
  stop : Int
  deriving DecidableEq

/-- Edits of one text, in the order in which they were added. -/
abbrev EditList := List Edit

namespace EditList

/-- A recorded edit shares an offset with the range. -/
def overlaps (edits : EditList) (start stop : Int) : Bool :=
  edits.any fun edit => start ≤ edit.stop && edit.start ≤ stop

/-- The offset lies inside a recorded edit. -/
def covers (edits : EditList) (offset : Int) : Bool :=
  edits.any fun edit => edit.start ≤ offset && offset ≤ edit.stop

/-- Record one more edit, unless its range overlaps a recorded one. -/
def add (edits : EditList) (start stop : Int) (replacement : Text) : Except Overlap EditList :=
  if edits.overlaps start stop then .error ⟨start, stop⟩
  else .ok (edits ++ [⟨start, stop, replacement⟩])

/-- The source from offset `pos` on, with edits in increasing order applied. -/
def applyFrom (source : Text) (pos : Int) : List Edit → Text
  | [] => source.slice pos source.length
  | edit :: rest =>
    source.slice pos edit.start ++ edit.replacement ++ applyFrom source (edit.stop + 1) rest

/-- The source with all edits applied, from the least start on; edits that start together keep the
order in which they were added. -/
def apply (edits : EditList) (source : Text) : Text :=
  applyFrom source 0 (edits.mergeSort fun a b => a.start ≤ b.start)

end EditList

end SetupScript
