import SetupScript.Bindings
import SetupScript.Definition
import SetupScript.MacroRegistry

/-!
# Compiling a setup script

Refuse unsupported macros, hoist imports, expand the macros of the registry, apply the edits, collect
the bindings and write the module. A script that needs a full compiler may be handed to one.
-/

namespace SetupScript

/-- A compiled script: the module text and what was found out on the way. -/
structure Output where
  code : Text
  componentName : Text
  props : Option Text
  emits : Option Text
  expose : Option Text
  imports : List ImportRecord
  components : List ComponentImport
  bindings : List Text
  frameworkNames : List Text
  isAsync : Bool
  results : List MacroResult

namespace Draft

/-- The edited script without its marker lines, trimmed. -/
def body (draft : Draft) (edited : Text) : Text :=
  Text.trim (Text.joinWith "\n" ((Text.lines edited).filter (!draft.settings.isMarker ·)))

/-- Expand macros one after the other, up to the first error. -/
def runAll (draft : Draft) : MacroRegistry → Outcome
  | [] => ⟨draft, none⟩
  | spec :: rest => (spec.expand draft).andThen fun next => next.runAll rest

/-- Write the module of a draft whose source has been dealt with. -/
def finish (draft : Draft) : Output × Draft :=
  let edited := draft.edited
  let (declared, notes) := Bindings.collect draft.settings edited
  let body := draft.body edited
  let isAsync := (Scan.ofText body).hasTopLevelWord draft.settings.suspendKeyword
  let names := declared.filter fun name => !draft.frameworkNames.contains name
  let shown : Text := if (Text.joinWith ", " names).isEmpty then "(none)" else Text.joinWith ", " names
  let applied := draft.note 3 ("Applied " ++ Text.ofNat draft.edits.length ++ " edits")
  let noted := { applied with journal := applied.journal ++ notes }
  ({ code := draft.moduleText body names isAsync
     componentName := draft.componentName
     props := draft.props
     emits := draft.emits
     expose := draft.expose.filter (!·.isEmpty)
     imports := draft.imports
     components := draft.components
     bindings := names
     frameworkNames := draft.frameworkNames
     isAsync := isAsync
     results := draft.results },
   noted.note 2 ("Returned bindings: " ++ shown))

/-- Compile a draft as it stands: the output or the error, and the draft afterwards. -/
def compile (draft : Draft) (registry : MacroRegistry) : Except CompileError Output × Draft :=
  let started := draft.note 2 ("Compiling setup script for " ++ draft.componentName ++ " (" ++
    Text.ofNat draft.source.length ++ " chars)")
  let outcome := (started.refuseUnsupported.andThen hoistImports).andThen (·.runAll registry)
  match outcome.error with
  | some error => (.error error, outcome.draft)
  | none =>
    let (output, last) := outcome.draft.finish
    (.ok output, last)

end Draft

/-- A value together with what was logged on the way to it. -/
structure Logged (α : Type) where
  value : α
  journal : Journal

/-- Compile a setup script with the built-in macros. -/
def compileScript (settings : Settings) (source : Text) (name : Option Text) (strict : Option Bool) :
    Logged (Except CompileError Output) :=
  let (result, draft) := (Draft.start settings source name strict).compile MacroRegistry.builtin
  ⟨result, draft.journal⟩

/-- Options of a compilation. What else the caller passes, key by key, goes to the full compiler
unread. -/
structure Options (ε : Type) where
  componentName : Option Text := none
  strict : Option Bool := none
  extra : List (Text × ε) := []

/-- Compile a setup script to the text of its module. -/
def compileText {ε : Type} (settings : Settings) (code : Text) (given : Option (Options ε)) :
    Logged (Except CompileError Text) :=
  let options := given.getD {}
  let compiled := compileScript settings code options.componentName options.strict
  ⟨compiled.value.map Output.code, compiled.journal⟩

/-! ## With a full compiler to fall back on -/

/-- A full compiler, with effects and faults of its own. -/
abbrev FullCompiler (m : Type → Type) (ε φ : Type) := Text → Options ε → m (Except φ Text)

/-- How a compilation with a full compiler behind it fails. -/
inductive ScriptError (φ : Type) where
  | compile (error : CompileError)
  | fallback (fault : φ)

/-- The outcome of such a compilation: the module text, and what was logged. -/
structure ScriptResult (φ : Type) where
  value : Except (ScriptError φ) Text
  journal : Journal := []

/-- Compile a setup script; one that calls an unsupported macro goes to the full compiler, when
there is one. -/
def compileWithFallback {m : Type → Type} [Monad m] {ε φ : Type} (settings : Settings) (code : Text)
    (given : Option (Options ε)) (fallback : Option (FullCompiler m ε φ)) : m (ScriptResult φ) := do
  let options := given.getD {}
  let compiled := compileText settings code (some options)
  match compiled.value, fallback with
  | .ok text, _ => return ⟨.ok text, compiled.journal⟩
  | .error (.unsupported kind), some full =>
    let message := "Mini compiler declined (" ++ (CompileError.unsupported kind).message ++
      "); delegating to fallback compiler"
    let outcome ← full code options
    return ⟨outcome.mapError .fallback, compiled.journal ++ [⟨1, message⟩]⟩
  | .error error, _ => return ⟨.error (.compile error), compiled.journal⟩

end SetupScript
