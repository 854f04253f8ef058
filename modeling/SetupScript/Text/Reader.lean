import SetupScript.Text.Word

/-!
# Readers and searches

A reader takes a value off the front of a text or refuses. Searching tries a reader at every
offset from left to right; matches do not overlap, so after one the search goes on where it ended.
A search may look at the one character before the offset, never further back.
-/

namespace SetupScript

/-- Reads a value off the front of a text, leaving the rest. -/
abbrev Reader := StateT Text Option

namespace Reader

/-- Read exactly this text. -/
def literal (word : Text) : Reader Unit := fun t => (word.isPrefixOf? t).map fun rest => ((), rest)

/-- Read one of these texts, the first that fits. -/
def oneOf (words : List Text) : Reader Text := fun t =>
  words.findSome? fun word => (word.isPrefixOf? t).map fun rest => (word, rest)

/-- Read one character of a class. -/
def char (p : Char → Bool) : Reader Char
  | [] => none
  | c :: rest => if p c then some (c, rest) else none

/-- Read the longest run of a class, which may be empty. -/
def many (p : Char → Bool) : Reader Text := fun t => some (t.takeWhile p, t.dropWhile p)

/-- Read the longest run of a class, which must not be empty. -/
def many1 (p : Char → Bool) : Reader Text := fun t =>
  if (t.takeWhile p).isEmpty then none else some (t.takeWhile p, t.dropWhile p)

/-- Read white space, possibly none. -/
def blanks : Reader Unit := discard (many Text.isBlank)

/-- Read at least one blank. -/
def blanks1 : Reader Unit := discard (many1 Text.isBlank)

/-- Read a declared name. -/
def identifier : Reader Text := do
  let first ← char Text.isNameStart
  let rest ← many Text.isNameChar
  return first :: rest

/-- Refuse when the next character is of this class; reads nothing. -/
def notBefore (p : Char → Bool) : Reader Unit := fun t =>
  if t.head?.any p then none else some ((), t)

/-- Refuse unless the text is used up. -/
def atEnd : Reader Unit := fun t => if t.isEmpty then some ((), t) else none

end Reader

namespace Text

/-- A match in a text: its first offset, the offset past its end, and what was read. -/
structure Match (α : Type) where
  start : Nat
  stop : Nat
  value : α

/-- Matches from offset `pos` on, passing over `skip` characters first. `before` is the character
before `pos`, on which `admits` decides whether a match may start there. -/
def findAllFrom {α : Type} (admits : Option Char → Bool) (reader : Reader α) (before : Option Char)
    (pos skip : Nat) : Text → List (Match α)
  | [] => []
  | c :: rest =>
    match skip with
    | skip + 1 => findAllFrom admits reader (some c) (pos + 1) skip rest
    | 0 =>
      match (if admits before then reader (c :: rest) else none) with
      | some (value, left) =>
        let width := (c :: rest).length - left.length
        ⟨pos, pos + width, value⟩ :: findAllFrom admits reader (some c) (pos + 1) (width - 1) rest
      | none => findAllFrom admits reader (some c) (pos + 1) 0 rest

/-- All matches that start at a character `admits` lets follow the one before it. -/
def findAll {α : Type} (admits : Option Char → Bool) (reader : Reader α) (t : Text) :
    List (Match α) :=
  findAllFrom admits reader none 0 0 t

/-- A match may start anywhere. -/
def anywhere : Option Char → Bool := fun _ => true

/-- A match may not start inside a name. -/
def outsideName : Option Char → Bool := fun before => !before.any isNameChar

/-- A match may start neither inside a name nor after a dot. -/
def outsideMember : Option Char → Bool := fun before =>
  !before.any fun c => c == '.' || isNameChar c

/-- Replace what the reader matches by what it gives, after passing over `skip` characters that an
earlier match has used. -/
def replaceFrom (reader : Reader Text) (skip : Nat) : Text → Text
  | [] => []
  | c :: rest =>
    match skip with
    | skip + 1 => replaceFrom reader skip rest
    | 0 =>
      match reader (c :: rest) with
      | some (replacement, left) =>
        replacement ++ replaceFrom reader ((c :: rest).length - left.length - 1) rest
      | none => c :: replaceFrom reader 0 rest

/-- Replace every match of a reader by what it gives. -/
def replaceAll (reader : Reader Text) (t : Text) : Text := replaceFrom reader 0 t

end Text

end SetupScript
