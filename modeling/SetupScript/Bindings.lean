import SetupScript.Draft.Declaration
import SetupScript.Pattern

/-!
# Bindings of a script

The names that an edited script declares at statement level: plain declarations first, then
object patterns, array patterns and functions, each kind in the order of the text. Comments are
taken out before. Names of the setup function's own parameters do not count, nor do names
destructured out of the props parameter, which stay on it.
-/

namespace SetupScript

namespace Reader

/-- Read a declaration of a plain name, up to the equals sign. -/
def nameDeclaration : Reader Text := do
  declarationWord
  let name ← identifier
  blanks
  literal "="
  return name

/-- Read a character of the class if it is there. -/
def skipOne (p : Char → Bool) : Reader Unit
  | [] => some ((), [])
  | c :: rest => some ((), if p c then rest else c :: rest)

/-- Read a function declaration, up to its opening parenthesis. -/
def functionDeclaration : Reader Text := do
  literal "function"
  blanks
  skipOne (· == '*')
  blanks
  let name ← identifier
  blanks
  literal "("
  return name

/-- Read an assignment of this very name. -/
def assignmentOf (name : Text) : Reader Unit := do
  assignment
  literal name
  notBefore Text.isNameChar

end Reader

namespace Bindings

/-- Words that may stand between the start of a statement and `function`. -/
def statementWords : List Text := ["export", "default", "async"]

/-- Spaces and tabs, then statement words each with white space after it, and nothing else. -/
def isStatementLead (t : Text) : Bool :=
  let lead := t.dropWhile fun c => c == ' ' || c == '\t'
  lead.isEmpty ||
    (!lead.head?.any Text.isBlank && lead.getLast?.any Text.isBlank &&
      (Text.words lead).all (statementWords.contains ·))

/-- Some end of the text is a statement lead right after a semicolon, a closing brace, a line break
or the end of a comment. -/
def endsInStatementLead : Text → Bool
  | [] => false
  | c :: rest =>
    (if c == ';' || c == '}' || c == '\n' then isStatementLead rest
      else if c == '*' && rest.head? == some '/' then isStatementLead (rest.drop 1)
      else false) || endsInStatementLead rest

/-- How far back the start of a statement is looked for. -/
def statementWindow : Nat := 80

/-- A statement starts at the offset, as far as the window before it shows. -/
def startsStatement (t : Text) (offset : Nat) : Bool :=
  let window := (t.take offset).drop (offset - statementWindow)
  (offset ≤ statementWindow && isStatementLead window) || endsInStatementLead window

/-- The names of the patterns that open with `opener`, with a message for each that never closes. -/
def patternNames (settings : Settings) (scan : Scan) (opener : Char) : List Text × Journal :=
  let source := scan.text
  let found := (Text.findAll Text.outsideMember Reader.patternDeclaration source).filter
    fun found => found.value == opener && scan.isTopLevel found.start
  let read := found.map fun found =>
    match scan.balanced? (found.stop - 1 : Nat) [opener] [patternCloser opener] with
    | none =>
      (([] : List Text), ([⟨2, "Unbalanced destructuring at offset " ++ Text.ofNat found.start ++
        ", skipped"⟩] : Journal))
    | some span =>
      let after := source.drop (span.stop + 1)
      if (Reader.assignment after).isSome && (Reader.assignmentOf settings.propsParam after).isNone
      then (Pattern.names span.text, []) else ([], [])
  (read.flatMap (·.1), read.flatMap (·.2))

/-- The names of the plain declarations. -/
def plainNames (scan : Scan) : List Text :=
  ((Text.findAll Text.outsideMember Reader.nameDeclaration scan.text).filter
    fun found => scan.isTopLevel found.start).map (·.value)

/-- The names of the function declarations. A named function inside an expression binds nothing. -/
def functionNames (scan : Scan) : List Text :=
  ((Text.findAll Text.outsideMember Reader.functionDeclaration scan.text).filter
    fun found => scan.isTopLevel found.start && startsStatement scan.text found.start).map (·.value)

/-- The names declared at statement level, without repetitions, and what there is to log. -/
def collect (settings : Settings) (edited : Text) : List Text × Journal :=
  let scan := Scan.ofText (Scan.ofText edited).withoutComments
  let (objects, objectNotes) := patternNames settings scan '{'
  let (arrays, arrayNotes) := patternNames settings scan '['
  let found := plainNames scan ++ objects ++ arrays ++ functionNames scan
  let own := found.filter fun name => name != settings.propsParam && name != settings.emitParam
  (Draft.addNames [] own, objectNotes ++ arrayNotes)

end Bindings

end SetupScript
