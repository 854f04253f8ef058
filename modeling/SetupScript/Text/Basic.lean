/-!
# Text as code points

Source text is the list of its code points, and every offset in this library counts those. Offsets
that callers give may be negative: they then count back from the end, and a slice clamps to the
text. Cutting at marked characters is the one splitting primitive; comma lists, lines and words are
read off it.
-/

namespace SetupScript

/-- A text as its sequence of code points. -/
abbrev Text := List Char

instance : Coe String Text := ⟨String.toList⟩

/-- Why there is no character at an offset that a caller gives. -/
inductive OffsetFault where
  /-- The offset lies outside the text. -/
  | outside
  /-- The offset is no machine word. -/
  | tooLarge
  deriving DecidableEq

/-- The wording of an offset fault. -/
def OffsetFault.message : OffsetFault → Text
  | outside => "string index out of range"
  | tooLarge => "cannot fit 'int' into an index-sized integer"

namespace Text

/-- The number lies in one of the closed ranges. -/
def inRanges (ranges : List (Nat × Nat)) (n : Nat) : Bool :=
  ranges.any fun range => range.1 ≤ n && n ≤ range.2

/-- White space: the tabs and line breaks, the four information separators, and the spaces of
Unicode. The zero-width space and the byte order mark are not blank. -/
def blankRanges : List (Nat × Nat) :=
  [(0x09, 0x0D), (0x1C, 0x20), (0x85, 0x85), (0xA0, 0xA0), (0x1680, 0x1680), (0x2000, 0x200A),
    (0x2028, 0x2029), (0x202F, 0x202F), (0x205F, 0x205F), (0x3000, 0x3000)]

/-- A white-space character. -/
def isBlank (c : Char) : Bool := inRanges blankRanges c.toNat

/-- The text without its leading white space. -/
def trimStart (t : Text) : Text := t.dropWhile isBlank

/-- The text without its trailing white space. -/
def trimEnd (t : Text) : Text := (t.reverse.dropWhile isBlank).reverse

/-- The text without its leading and trailing white space. -/
def trim (t : Text) : Text := trimEnd (trimStart t)

/-! ## Offsets and slices -/

/-- The offset meant by `i`: a negative one counts from the end, and all clamp to the text. -/
def clampOffset (t : Text) (i : Int) : Nat :=
  if i < 0 then (i + t.length).toNat else min i.toNat t.length

/-- The characters from offset `start` up to, not including, `stop`. -/
def slice (t : Text) (start stop : Int) : Text :=
  (t.drop (clampOffset t start)).take (clampOffset t stop - clampOffset t start)

/-- The character at offset `i`, counted from the end when `i` is negative. -/
def at? (t : Text) (i : Int) : Option Char :=
  if 0 ≤ i then t[i.toNat]?
  else if 0 ≤ i + t.length then t[(i + t.length).toNat]?
  else none

/-- The offset fits a signed machine word of 64 bits. -/
def isWordSized (i : Int) : Bool := -0x8000000000000000 ≤ i && i < 0x8000000000000000

/-- The character at offset `i`, or why there is none. -/
def charAt (t : Text) (i : Int) : Except OffsetFault Char :=
  if isWordSized i then
    match at? t i with
    | some c => .ok c
    | none => .error .outside
  else .error .tooLarge

/-- What stands after the last line break. -/
def lastLine (t : Text) : Text := (t.reverse.takeWhile (· != '\n')).reverse

/-! ## Cutting -/

/-- Put a character at the front of the first piece. -/
def consFirst (c : Char) : List Text → List Text
  | [] => [[c]]
  | piece :: pieces => (c :: piece) :: pieces

/-- Cut at the marked characters, which belong to no piece. There is always at least one piece. -/
def cutMarked : List (Char × Bool) → List Text
  | [] => [[]]
  | (c, cut) :: rest => if cut then [] :: cutMarked rest else consFirst c (cutMarked rest)

/-- Cut at every character that satisfies `sep`. -/
def cutAt (sep : Char → Bool) (t : Text) : List Text := cutMarked (t.map fun c => (c, sep c))

/-- The maximal runs of non-blank characters. -/
def words (t : Text) : List Text := (cutAt isBlank t).filter (!·.isEmpty)

/-- The lines of a text, without their line breaks. -/
def lines (t : Text) : List Text := cutAt (· == '\n') t

/-- All line breaks as line feeds: a carriage return with or without a line feed after it is one. -/
def unifyBreaks : Text → Text
  | [] => []
  | '\r' :: '\n' :: rest => '\n' :: unifyBreaks rest
  | '\r' :: rest => '\n' :: unifyBreaks rest
  | c :: rest => c :: unifyBreaks rest

/-- The text without a byte order mark at its start. -/
def withoutMark (t : Text) : Text := if t.head? = some '\uFEFF' then t.drop 1 else t

/-- Trimmed items of a comma list; a blank last item is a dangling comma and is dropped. -/
def trimItems : List Text → List Text
  | [] => []
  | [last] => if (trim last).isEmpty then [] else [trim last]
  | piece :: rest => trim piece :: trimItems rest

/-- Texts joined with a separator between them. -/
def joinWith (sep : Text) (pieces : List Text) : Text := sep.intercalate pieces

/-- A natural number in decimal. -/
def ofNat (n : Nat) : Text := (toString n).toList

/-- An integer in decimal, with a minus sign when negative. -/
def ofInt (i : Int) : Text := if i < 0 then '-' :: ofNat i.natAbs else ofNat i.natAbs

end Text

end SetupScript
