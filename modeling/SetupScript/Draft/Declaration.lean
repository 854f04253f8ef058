import SetupScript.Draft.Basic

/-!
# The surroundings of a macro call

What stands before a call decides what it becomes: the target it is assigned to, if it is, and
whether anything else precedes it on its line.
-/

namespace SetupScript

/-- The target of the declaration that ends right before a call. -/
structure Declaration where
  target : Text
  isPattern : Bool := false

namespace Reader

/-- Read one of the words that start a declaration, and the blanks after it. -/
def declarationWord : Reader Unit := do
  let _ ← oneOf ["const", "let", "var"]
  blanks1

/-- Read an equals sign with optional blanks on both sides. -/
def assignment : Reader Unit := do
  blanks
  literal "="
  blanks

/-- Read a declaration of a plain name up to the end of the text. -/
def openDeclaration : Reader Text := do
  declarationWord
  let name ← identifier
  assignment
  atEnd
  return name

/-- Read the start of a declaration of a pattern, and give its opening bracket. -/
def patternDeclaration : Reader Char := do
  declarationWord
  char fun c => c == '{' || c == '['

end Reader

/-- The bracket that closes a pattern opened by `opener`. -/
def patternCloser (opener : Char) : Char := if opener = '{' then '}' else ']'

namespace Draft

/-- The last pattern declared in code before the call at `index`, when nothing but an equals sign
stands between the two. -/
def patternBefore? (draft : Draft) (index : Int) : Option Declaration := do
  let candidates := (Text.findAll Text.outsideMember Reader.patternDeclaration
    (draft.source.slice 0 index)).filter fun found => draft.scan.isCode found.start
  let found ← candidates.getLast?
  let span ← draft.scan.balanced? (found.stop - 1 : Nat) [found.value] [patternCloser found.value]
  if index ≤ span.stop then none
  let _ ← (do Reader.assignment; Reader.atEnd : Reader Unit) (draft.source.slice (span.stop + 1) index)
  return ⟨span.text, true⟩

/-- The declaration that ends right before `index`: that of a plain name, or else of a pattern. -/
def declarationBefore? (draft : Draft) (index : Int) : Option Declaration :=
  match (Text.findAll Text.outsideMember Reader.openDeclaration
      (draft.source.slice 0 index)).head? with
  | some found =>
    if draft.scan.isCode found.start then some ⟨found.value, false⟩ else draft.patternBefore? index
  | none => draft.patternBefore? index

/-- What takes the place of a call used as a statement: a marker when the call starts its line,
which is dropped later, and nothing when other text stands before it. -/
def bareReplacement (draft : Draft) (index : Int) (name : Text) : Text :=
  if (Text.lastLine (draft.source.slice 0 index)).all Text.isBlank then draft.settings.marker name
  else []

/-- Report that a declaration is repeated: an error in strict mode, else a warning. -/
def reportDuplicate (draft : Draft) (kind : MacroKind) (position : Int) : Outcome :=
  if draft.strict then ⟨draft, some (.duplicate kind position)⟩
  else
    ⟨draft.note 1 ("Warning: duplicate " ++ kind.name ++ "() at offset " ++ Text.ofInt position ++
      "; the first call is compiled, later calls are left as written"), none⟩

/-- A call holds an earlier expanded one inside its extent, so it is left as it is. -/
def holdsEdit (draft : Draft) (call : MacroCall) : Bool := draft.edits.overlaps call.start call.stop

/-- Log that a call is left as it is because it holds an expanded one. -/
def noteHeld (draft : Draft) (call : MacroCall) : Draft :=
  draft.note 2 ("Skipping " ++ call.kind.name ++ " at offset " ++ Text.ofInt call.start ++
    ": its arguments hold an already rewritten macro call")

end Draft

end SetupScript
