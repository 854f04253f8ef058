import SetupScript.Draft.Basic
import SetupScript.Text.LowerCase

/-!
# Component definitions

The text of the generated module: the export lead and one definition object, whose setup function
holds the edited script.
-/

namespace SetupScript

/-- The runtime helper that lays passed props over declared defaults. -/
def defaultsHelperText (settings : Settings) : Text :=
  let props := settings.propsParam
  "    var " ++ settings.defaultsHelper ++ " = function(" ++ props ++ ", __defaults__) \x7b\n" ++
  "      var result = \x7b\x7d;\n" ++
  "      if (__defaults__) \x7b\n" ++
  "        Object.keys(__defaults__).forEach(function(key) \x7b\n" ++
  "          result[key] = __defaults__[key];\n" ++
  "        \x7d);\n" ++
  "      \x7d\n" ++
  "      if (" ++ props ++ ") \x7b\n" ++
  "        Object.keys(" ++ props ++ ").forEach(function(key) \x7b\n" ++
  "          if (" ++ props ++ "[key] !== undefined) result[key] = " ++ props ++ "[key];\n" ++
  "        \x7d);\n" ++
  "      \x7d\n" ++
  "      return result;\n" ++
  "    \x7d;\n"

/-- The entries of a component file in the components map, under its name and its name in lower
case. -/
def ComponentImport.entry (component : ComponentImport) (loader : Text) : Text :=
  let load := loader ++ "(\"" ++ component.path ++ "\")"
  "    \"" ++ component.name ++ "\": " ++ load ++ ",\n    \"" ++ Text.lower component.name ++
    "\": " ++ load

/-- The binding that stands for a hoisted import. -/
def ImportRecord.binding (record : ImportRecord) : Text :=
  let target : Text := match record.clause with
    | .named names => "\x7b " ++ Text.joinWith ", " names ++ " \x7d"
    | .whole name => name
  "    var " ++ target ++ " = require(\"" ++ record.path ++ "\");\n"

/-- A line of the definition object, when there is a definition. -/
def definitionLine (key : Text) : Option Text → Text
  | none => []
  | some definition => "  " ++ key ++ ": " ++ definition ++ ",\n"

namespace Draft

/-- The components map, when any component file is imported. -/
def componentsText (draft : Draft) : Text :=
  if draft.components.isEmpty then []
  else
    "  components: \x7b\n" ++
      Text.joinWith ",\n" (draft.components.map (·.entry draft.settings.runtimeLoader)) ++ "\n" ++
      "  \x7d,\n"

/-- The call that exposes names to the parent, unless nothing is exposed. -/
def exposeText (draft : Draft) : Text :=
  match draft.expose with
  | some (c :: rest) =>
    "    " ++ draft.settings.contextParam ++ ".expose(" ++ (c :: rest) ++ ");\n"
  | _ => []

/-- The object that setup returns. -/
def returnText (names : List Text) : Text :=
  "    return \x7b\n" ++
    Text.joinWith ",\n" (names.map fun name => "      " ++ name ++ ": " ++ name) ++
    (if names.isEmpty then [] else "\n" : Text) ++ "    \x7d;\n"

/-- The whole module around a script body. -/
def moduleText (draft : Draft) (body : Text) (names : List Text) (isAsync : Bool) : Text :=
  let settings := draft.settings
  settings.exportLead ++ "\x7b\n" ++
    "  name: \"" ++ draft.componentName ++ "\",\n" ++
    draft.componentsText ++
    definitionLine "props" draft.props ++
    definitionLine "emits" draft.emits ++
    "  setup: " ++ (if isAsync then "async " else [] : Text) ++
    "function(" ++ settings.propsParam ++ ", " ++ settings.contextParam ++ ") \x7b\n" ++
    "    var " ++ settings.emitParam ++ " = " ++ settings.contextParam ++ ".emit;\n" ++
    (if draft.defaultsUsed then defaultsHelperText settings else []) ++
    draft.imports.flatMap ImportRecord.binding ++
    "\n" ++ body ++ "\n\n" ++
    draft.exposeText ++
    returnText names ++
    "  \x7d\n" ++
    "\x7d"

end Draft

end SetupScript
