import SetupScript.Text.Basic

/-!
# Settings

The names that generated modules share with the code that evaluates them, and the few switches of
a compilation.
-/

namespace SetupScript

/-- Settings of a compilation. -/
structure Settings where
  /-- The component name where the caller gives none. -/
  componentName : Text := "SetupComponent"
  /-- What every generated module starts with. -/
  exportLead : Text := "module.exports = "
  /-- The first parameter of the generated setup function. -/
  propsParam : Text := "__props__"
  /-- The second parameter of the generated setup function. -/
  contextParam : Text := "__ctx__"
  /-- The local bound to the emit function of the context. -/
  emitParam : Text := "__emit__"
  /-- The generated helper that merges defaults into props. -/
  defaultsHelper : Text := "__applyDefaults__"
  /-- What marker lines start with. -/
  markerLead : Text := "// [extracted]"
  /-- The module whose names the runtime itself provides. -/
  frameworkModule : Text := "vue"
  /-- The ending of component files. -/
  componentExtension : Text := ".vue"
  /-- The global that loads component files. -/
  runtimeLoader : Text := "vueEsmRuntime"
  /-- The word that makes setup asynchronous at statement level. -/
  suspendKeyword : Text := "await"
  /-- Log everything while no program is connected. -/
  debugMode : Bool := false
  /-- Refuse repeated declarations instead of warning. -/
  strictMode : Bool := false

namespace Settings

/-- The marker that takes the place of removed source text. -/
def marker (settings : Settings) (t : Text) : Text := settings.markerLead ++ " " ++ t

/-- The line is a marker, however far it is indented. -/
def isMarker (settings : Settings) (line : Text) : Bool :=
  settings.markerLead.isPrefixOf (Text.trim line)

end Settings

end SetupScript
