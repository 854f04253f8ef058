import SetupScript.Import
import SetupScript.Settings.Basic

/-!
# Module syntax of plain scripts

Import and export statements become `require` calls and assignments to `module.exports`. Component
files go through the runtime loader. One form is replaced after the other, each in the whole text;
strings and comments are not told apart from code.
-/

namespace SetupScript.EsModule

/-- The name of a component file: the last part of its path without the ending. With an empty
ending no name is left. -/
def componentName (settings : Settings) (path : Text) : Text :=
  let file := (path.reverse.takeWhile (· != '/')).reverse
  let ending := settings.componentExtension.length
  if ending = 0 then [] else file.take (file.length - ending)

/-- The path is that of a component file. -/
def isComponentPath (settings : Settings) (path : Text) : Bool :=
  settings.componentExtension.isSuffixOf path

/-- A path as a string literal. -/
def literalPath (path : Text) : Text := "\"" ++ path ++ "\""

/-- The names of an import list as they stand in a destructuring pattern. -/
def importNames (list : Text) : Text := Text.joinWith ", " (destructuredNames list)

/-- `import('path')` -/
def dynamicImport (settings : Settings) : Reader Text := do
  Reader.literal "import"
  Reader.blanks
  Reader.literal "("
  Reader.blanks
  let path ← Reader.quotedPath
  Reader.blanks
  Reader.literal ")"
  return if isComponentPath settings path then
    settings.runtimeLoader ++ ".loadComponent(" ++ literalPath path ++ ", " ++
      literalPath (componentName settings path) ++ ")()"
  else settings.runtimeLoader ++ ".loadModule(" ++ literalPath path ++ ")"

/-- `import { names } from 'path'` -/
def namedImport : Reader Text := do
  let (list, path) ← Reader.namedImport
  return "const \x7b" ++ importNames list ++ "\x7d = require(" ++ literalPath path ++ ")"

/-- `import name from 'path'` -/
def defaultImport (settings : Settings) : Reader Text := do
  let (name, path) ← Reader.defaultImport
  let loader : Text := if isComponentPath settings path then settings.runtimeLoader else "require"
  return "const " ++ name ++ " = " ++ loader ++ "(" ++ literalPath path ++ ")"

/-- `import 'path'` -/
def bareImport : Reader Text := do
  Reader.importWord
  let path ← Reader.quotedPath
  return "require(" ++ literalPath path ++ ")"

/-- Read `export` and the blanks after it. -/
def exportWord : Reader Unit := do
  Reader.literal "export"
  Reader.blanks1

/-- `export default` -/
def exportDefault : Reader Text := do
  exportWord
  Reader.literal "default"
  Reader.blanks1
  return "module.exports = "

/-- `export const name =` and its like -/
def exportDeclaration : Reader Text := do
  exportWord
  let word ← Reader.oneOf ["const", "let", "var"]
  Reader.blanks1
  let name ← Reader.many1 Text.isNameChar
  Reader.blanks
  Reader.literal "="
  return word ++ " " ++ name ++ " = module.exports." ++ name ++ " ="

/-- `export function name` -/
def exportFunction : Reader Text := do
  exportWord
  Reader.literal "function"
  Reader.blanks1
  let name ← Reader.many1 Text.isNameChar
  return "module.exports." ++ name ++ " = function " ++ name

/-- `export { names }` -/
def exportList : Reader Text := do
  exportWord
  Reader.literal "\x7b"
  let list ← Reader.many1 (· != '}')
  Reader.literal "\x7d"
  let names := ((Text.cutAt (· == ',') list).map Text.trim).filter (!·.isEmpty)
  return Text.joinWith "; " (names.map fun name => "module.exports." ++ name ++ " = " ++ name)

/-- The forms in the order in which they are replaced. -/
def forms (settings : Settings) : List (Reader Text) :=
  [dynamicImport settings, namedImport, defaultImport settings, bareImport, exportDefault,
    exportDeclaration, exportFunction, exportList]

/-- The script with its import and export statements replaced. -/
def toRequire (settings : Settings) (code : Text) : Text :=
  (forms settings).foldl (fun current form => Text.replaceAll form current) code

end SetupScript.EsModule
