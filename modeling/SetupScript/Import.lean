import SetupScript.Text.Reader

/-!
# Import statements

The import forms that are hoisted out of a script, and what is kept of them. Renamed names are kept
in destructuring form, as `external: local`.
-/

namespace SetupScript

/-- What an import statement binds: a list of names out of the module, or the module itself. -/
inductive ImportClause where
  | named (names : List Text)
  | whole (name : Text)
  deriving DecidableEq

/-- An import of a module, hoisted into a `require` binding. -/
structure ImportRecord where
  clause : ImportClause
  path : Text
  deriving DecidableEq

/-- An import of a component file, registered with the component. -/
structure ComponentImport where
  name : Text
  path : Text

/-- What becomes of an import statement. -/
inductive Hoisted where
  | module (record : ImportRecord)
  | component (component : ComponentImport)

/-- The names of a clause as written, renames in destructuring form. -/
def ImportClause.names : ImportClause → List Text
  | named names => names
  | whole name => [name]

/-- The name that an imported name has inside the script: what follows its last colon. -/
def localName (name : Text) : Text :=
  Text.trim (name.reverse.takeWhile (· != ':')).reverse

/-- The names that an import adds to the scope of the script. -/
def ImportRecord.localNames (record : ImportRecord) : List Text := record.clause.names.map localName

/-- Either quote that may enclose a module path. -/
def isPathQuote (c : Char) : Bool := c == '\x27' || c == '\x22'

namespace Reader

/-- Read a quoted, non-empty path; the quotes need not be alike. -/
def quotedPath : Reader Text := do
  let _ ← char isPathQuote
  let path ← many1 (!isPathQuote ·)
  let _ ← char isPathQuote
  return path

/-- Read a name that is renamed, up to the end of the text. -/
def renamed : Reader (Text × Text) := do
  let external ← many1 Text.isNameChar
  blanks1
  literal "as"
  blanks1
  let inner ← many1 Text.isNameChar
  atEnd
  return (external, inner)

/-- Read `import` and the blanks after it. -/
def importWord : Reader Unit := do
  literal "import"
  blanks1

/-- Read `from` with blanks on both sides. -/
def fromWord : Reader Unit := do
  blanks1
  literal "from"
  blanks1

/-- Read `import { names } from 'path'`: the text between the braces, and the path. -/
def namedImport : Reader (Text × Text) := do
  importWord
  literal "\x7b"
  let names ← many1 (· != '}')
  literal "\x7d"
  fromWord
  let path ← quotedPath
  return (names, path)

/-- Read `import name from 'path'`. -/
def defaultImport : Reader (Text × Text) := do
  importWord
  let name ← many1 Text.isNameChar
  fromWord
  let path ← quotedPath
  return (name, path)

/-- The longest path of at most `length` characters and the ending that has a quote right after it,
with what follows the quote. -/
def pathEndingWithin (ending t : Text) : Nat → Option (Text × Text)
  | 0 => none
  | length + 1 =>
    match ending.isPrefixOf? (t.drop (length + 1)) with
    | some (c :: rest) =>
      if isPathQuote c then some (t.take (length + 1) ++ ending, rest)
      else pathEndingWithin ending t length
    | _ => pathEndingWithin ending t length

/-- Read a quoted path with the given ending and at least one character before it. -/
def quotedPathEnding (ending : Text) : Reader Text := do
  let _ ← char isPathQuote
  fun t => pathEndingWithin ending t (t.takeWhile (!isPathQuote ·)).length

/-- Read `import name from 'path'` for a path with the given ending. -/
def componentImport (ending : Text) : Reader (Text × Text) := do
  importWord
  let name ← many1 Text.isNameChar
  fromWord
  let path ← quotedPathEnding ending
  return (name, path)

end Reader

/-- A name in destructuring form: `a as b` becomes `a: b`, any other name stays. -/
def destructured (name : Text) : Text :=
  match Reader.renamed name with
  | some ((external, inner), _) => external ++ ": " ++ inner
  | none => name

/-- The names of a comma list in destructuring form; blank ones are dropped. -/
def destructuredNames (list : Text) : List Text :=
  (((Text.cutAt (· == ',') list).map Text.trim).filter (!·.isEmpty)).map destructured

/-- The import statements in a text, with what they hoist: those of component files first, then
those of named imports, then the others. The same text may be found in two of the three ways. -/
def importMatches (componentExtension t : Text) : List (Text.Match Hoisted) :=
  let find {α : Type} (reader : Reader α) (hoist : α → Hoisted) : List (Text.Match Hoisted) :=
    (Text.findAll Text.outsideMember reader t).map fun found =>
      ⟨found.start, found.stop, hoist found.value⟩
  find (Reader.componentImport componentExtension) (fun (name, path) => .component ⟨name, path⟩) ++
  find Reader.namedImport (fun (list, path) => .module ⟨.named (destructuredNames list), path⟩) ++
  find Reader.defaultImport (fun (name, path) => .module ⟨.whole name, path⟩)

end SetupScript
