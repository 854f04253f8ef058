import SetupScript.Lexical.Scan

/-!
# Balanced regions and argument lists

A balanced region runs from an opening delimiter to the closing one that brings the count of the
two back to zero; only delimiters in code count. An argument list is cut at the commas in code that
stand outside all three kinds of bracket, each kind counted on its own.
-/

namespace SetupScript

/-- A region of a text with both its ends, `stop` being the offset of its last character. -/
structure Span where
  start : Nat
  stop : Nat
  text : Text

/-- The text between the delimiters. -/
def Span.inner (span : Span) : Text := (span.text.drop 1).dropLast

/-- The cell is code and its character is the whole delimiter. -/
def Cell.isDelimiter (cell : Cell) (delimiter : Text) : Bool :=
  cell.isCode && delimiter == [cell.char]

namespace Scan

/-- The offset of the first opening delimiter in the cells, which start at offset `pos`. -/
def openingFrom (opener : Text) (pos : Nat) : List Cell → Option Nat
  | [] => none
  | cell :: rest => if cell.isDelimiter opener then some pos else openingFrom opener (pos + 1) rest

/-- The offset where `depth` open delimiters are closed, in cells that start at offset `pos`. -/
def closingFrom (opener closer : Text) (depth pos : Nat) : List Cell → Option Nat
  | [] => none
  | cell :: rest =>
    if cell.isDelimiter opener then closingFrom opener closer (depth + 1) (pos + 1) rest
    else if cell.isDelimiter closer then
      if depth ≤ 1 then some pos else closingFrom opener closer (depth - 1) (pos + 1) rest
    else closingFrom opener closer depth (pos + 1) rest

/-- The balanced region that starts at the first opening delimiter at or after `offset`. -/
def balanced? (scan : Scan) (offset : Int) (opener closer : Text) : Option Span := do
  if offset < 0 || scan.cells.length ≤ offset then none
  let start ← openingFrom opener offset.toNat (scan.cells.drop offset.toNat)
  let stop ← closingFrom opener closer 1 (start + 1) (scan.cells.drop (start + 1))
  return ⟨start, stop, scan.text.slice start (stop + 1)⟩

/-- Every cell's character, marked when it is a comma in code at which the three bracket counts are
zero. -/
def markCommas (paren brace bracket : Int) : List Cell → List (Char × Bool)
  | [] => []
  | cell :: rest =>
    if cell.isCode then
      match cell.char with
      | '(' => (cell.char, false) :: markCommas (paren + 1) brace bracket rest
      | ')' => (cell.char, false) :: markCommas (paren - 1) brace bracket rest
      | '{' => (cell.char, false) :: markCommas paren (brace + 1) bracket rest
      | '}' => (cell.char, false) :: markCommas paren (brace - 1) bracket rest
      | '[' => (cell.char, false) :: markCommas paren brace (bracket + 1) rest
      | ']' => (cell.char, false) :: markCommas paren brace (bracket - 1) rest
      | ',' => (cell.char, paren == 0 && brace == 0 && bracket == 0) ::
          markCommas paren brace bracket rest
      | _ => (cell.char, false) :: markCommas paren brace bracket rest
    else (cell.char, false) :: markCommas paren brace bracket rest

/-- The arguments of a comma list, trimmed; a dangling comma adds none. -/
def arguments (scan : Scan) : List Text :=
  Text.trimItems (Text.cutMarked (markCommas 0 0 0 scan.cells))

end Scan

end SetupScript
