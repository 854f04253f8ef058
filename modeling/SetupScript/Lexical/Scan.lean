import SetupScript.Lexical.Context
import SetupScript.Text.Reader

/-!
# Scans

A scan is a text whose characters carry their modes, together with the depth of code braces before
every offset. It is made in one pass from the first character, and every question about where code
is goes through it.
-/

namespace SetupScript

/-- A character with its mode. -/
structure Cell where
  char : Char
  mode : Mode
  deriving DecidableEq

/-- The character is plain code. -/
def Cell.isCode (cell : Cell) : Bool := cell.mode == .code

/-- The cells of a text that is read from a given context on. In code an opening delimiter has the
mode of what it opens; inside a literal or comment the closing one still has its mode. -/
def labelFrom (context : Context) : Text → List Cell
  | [] => []
  | c :: rest =>
    let (after, width) := context.step c rest.head?
    let mode := if context = .code then after.mode else context.mode
    match rest with
    | d :: tail =>
      if width = 2 then ⟨c, mode⟩ :: ⟨d, mode⟩ :: labelFrom after tail
      else ⟨c, mode⟩ :: labelFrom after (d :: tail)
    | [] => [⟨c, mode⟩]

/-- What a cell adds to the brace depth. -/
def Cell.braceStep (cell : Cell) : Int :=
  if cell.isCode then
    if cell.char = '{' then 1 else if cell.char = '}' then -1 else 0
  else 0

/-- The brace depth before every cell and after the last, from a given depth on. -/
def depthsFrom (depth : Int) : List Cell → List Int
  | [] => [depth]
  | cell :: rest => depth :: depthsFrom (depth + cell.braceStep) rest

/-- A scanned text: its cells, and the brace depth before every offset and at the end. -/
structure Scan where
  cells : List Cell
  depths : List Int

namespace Scan

/-- Scan a text from its beginning, in code. -/
def ofText (t : Text) : Scan :=
  let cells := labelFrom .code t
  ⟨cells, depthsFrom 0 cells⟩

/-- The scanned text. -/
def text (scan : Scan) : Text := scan.cells.map Cell.char

/-- The mode of every character. -/
def modes (scan : Scan) : List Mode := scan.cells.map Cell.mode

/-- There is a character at the offset and it is code. -/
def isCode (scan : Scan) (position : Nat) : Bool := scan.cells[position]?.any Cell.isCode

/-- As `isCode`, for offsets that may lie before the text. -/
def isCodeAt (scan : Scan) (position : Int) : Bool := 0 ≤ position && scan.isCode position.toNat

/-- The brace depth before an offset, which is clamped to the text. -/
def depthAt (scan : Scan) (position : Int) : Int :=
  scan.depths.getD (min position.toNat scan.cells.length) 0

/-- A statement level position: code, outside all braces. -/
def isTopLevel (scan : Scan) (position : Nat) : Bool :=
  scan.isCode position && scan.depthAt position == 0

/-- The text without its comments. Line breaks inside or ending a comment stay, so that the line
structure survives. -/
def withoutComments (scan : Scan) : Text :=
  (scan.cells.filter fun cell => !cell.mode.isComment || cell.char == '\n').map Cell.char

/-- The text holds `keyword` as a word of its own, in code, outside all braces. -/
def hasTopLevelWord (scan : Scan) (keyword : Text) : Bool :=
  (Text.findAll Text.outsideName
    (do Reader.literal keyword; Reader.notBefore Text.isNameChar) scan.text).any fun found =>
    scan.isTopLevel found.start

end Scan

/-- Whether the `length` characters from `position` on have no name character on either side,
provided that a side to look at holds one. No side is looked at before the first character and past
the last. -/
def Text.standsAlone (t : Text) (position length : Int) : Except OffsetFault Bool := do
  let before ← if 0 < position then some <$> Text.charAt t (position - 1) else pure none
  let after ← if position + length < t.length then some <$> Text.charAt t (position + length)
    else pure none
  return !before.any isNameChar && !after.any isNameChar

end SetupScript
