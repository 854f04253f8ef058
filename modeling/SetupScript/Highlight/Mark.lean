import SetupScript.MacroKind
import SetupScript.Text.Word

/-!
# Marked words

Which words of a script stand out in a preview: macros, unsupported macros and the reserved names
of generated modules, where they are code and stand alone. The script is divided into lexemes from
left to right by a lexer that is given, and a marked word is a lexeme of its own; a word inside a longer
lexeme, such as a string, a comment, a private name or an identifier, does not stand out.
-/

namespace SetupScript.Highlight

/-- What a marked word is. -/
inductive Kind where
  | supported
  | unsupported
  | reserved
  deriving DecidableEq

/-- A marked word and the offset at which it starts. -/
structure Mark where
  offset : Nat
  word : Text
  kind : Kind

/-- The words that are marked. -/
def markedWords : List (Text × Kind) :=
  (MacroKind.all.map fun kind =>
    (kind.name, if kind.isSupported then .supported else .unsupported)) ++
  (["__props__", "__ctx__", "__emit__", "__applyDefaults__", "__defaults__"] : List Text).map
    (·, .reserved)

/-- The marked word that the text starts with, when it stands alone after the character `before`. -/
def wordHere? (before : Option Char) (t : Text) : Option (Text × Kind) :=
  if before.any Text.isNameChar then none
  else markedWords.find? fun (word, _) =>
    match word.isPrefixOf? t with
    | some after => !after.head?.any Text.isNameChar
    | none => false

/-! ## Among other lexemes -/

/-- A lexer of the language that scripts are written in. -/
structure Lexer where
  /-- What a lexer knows between two lexemes. -/
  State : Type
  start : State
  /-- Between these lexemes a marked word may stand. -/
  admitsWord : State → Bool
  /-- What is known after a marked word. -/
  afterWord : State → State
  /-- The width of the lexeme at the front of a text after the character before it, and what is known
  after it. -/
  step : State → Option Char → Text → Nat × State

/-- The marks from offset `pos` on, after passing over `skip` characters. -/
def marksFrom (lexer : Lexer) (state : lexer.State) (before : Option Char) (pos skip : Nat) :
    Text → List Mark
  | [] => []
  | c :: rest =>
    match skip with
    | skip + 1 => marksFrom lexer state (some c) (pos + 1) skip rest
    | 0 =>
      match (if lexer.admitsWord state then wordHere? before (c :: rest) else none) with
      | some (word, kind) =>
        ⟨pos, word, kind⟩ ::
          marksFrom lexer (lexer.afterWord state) (some c) (pos + 1) (word.length - 1) rest
      | none =>
        let (width, after) := lexer.step state before (c :: rest)
        marksFrom lexer after (some c) (pos + 1) (width - 1) rest

/-- The marked words of a text, in order. -/
def marks (lexer : Lexer) (t : Text) : List Mark := marksFrom lexer lexer.start none 0 0 t

end SetupScript.Highlight
