import SetupScript.Edit
import SetupScript.Import
import SetupScript.Journal
import SetupScript.MacroCall
import SetupScript.Settings.Basic

/-!
# Drafts

A draft is a setup script while it is being compiled: the scanned source, which never changes, and
what has been recorded about it so far. Steps read the source and record edits, imports and
definitions; what a step recorded before it failed stays recorded.
-/

namespace SetupScript

/-- One macro call that was expanded, and the name it was assigned to, if any. -/
structure MacroResult where
  kind : MacroKind
  rawArguments : Text
  boundName : Option Text := none
  deriving DecidableEq

/-- Why a script does not compile. -/
inductive CompileError where
  /-- The script calls a macro that only a full compiler handles. -/
  | unsupported (kind : MacroKind)
  /-- In strict mode, a declaration is repeated. -/
  | duplicate (kind : MacroKind) (position : Int)
  /-- Two edits of the source meet. -/
  | overlap (range : Overlap)
  deriving DecidableEq

/-- The wording of an overlap. -/
def Overlap.message (range : Overlap) : Text :=
  "Edit [" ++ Text.ofInt range.start ++ ", " ++ Text.ofInt range.stop ++
    "] overlaps an existing edit"

/-- The wording of an error. -/
def CompileError.message : CompileError → Text
  | unsupported kind => "Unsupported macro: " ++ kind.name ++ ". Use a full compiler instead."
  | duplicate kind position =>
    "Duplicate " ++ kind.name ++ "() call at offset " ++ Text.ofInt position
  | overlap range => range.message

/-- A setup script under compilation. -/
structure Draft where
  settings : Settings
  source : Text
  scan : Scan
  componentName : Text
  strict : Bool
  edits : EditList := []
  imports : List ImportRecord := []
  components : List ComponentImport := []
  frameworkNames : List Text := []
  results : List MacroResult := []
  props : Option Text := none
  emits : Option Text := none
  expose : Option Text := none
  defaultsUsed : Bool := false
  journal : Journal := []

/-- A draft after a step, with the error that ended the step, if one did. -/
structure Outcome where
  draft : Draft
  error : Option CompileError := none

/-- Go on with another step unless an error has occurred. -/
def Outcome.andThen (outcome : Outcome) (step : Draft → Outcome) : Outcome :=
  match outcome.error with
  | some _ => outcome
  | none => step outcome.draft

namespace Draft

/-- A fresh draft. The settings give the component name where there is none or an empty one, and
the strictness where none is stated. -/
def start (settings : Settings) (source : Text) (name : Option Text) (strict : Option Bool) :
    Draft where
  settings := settings
  source := source
  scan := Scan.ofText source
  componentName :=
    match name with
    | some (c :: rest) => c :: rest
    | _ => settings.componentName
  strict := strict.getD settings.strictMode

/-- Log a message. -/
def note (draft : Draft) (level : Int) (message : Text) : Draft :=
  { draft with journal := draft.journal ++ [⟨level, message⟩] }

/-- Record the result of an expansion, and log it. -/
def record (draft : Draft) (result : MacroResult) (index : Nat) : Draft :=
  { draft with results := draft.results ++ [result] }.note 3
    ("Rewrote " ++ result.kind.name ++ " at offset " ++ Text.ofNat index)

/-- Record an edit of the source. -/
def addEdit (draft : Draft) (start stop : Int) (replacement : Text) : Outcome :=
  match draft.edits.add start stop replacement with
  | .ok edits => ⟨{ draft with edits := edits }, none⟩
  | .error range => ⟨draft, some (.overlap range)⟩

/-- The source with the recorded edits applied. -/
def edited (draft : Draft) : Text := draft.edits.apply draft.source

/-- The first call of a macro at or after an offset that no recorded edit has taken. -/
def nextCall? (draft : Draft) (name : Text) (offset : Int) : Option Nat :=
  (draft.scan.callOffsets name).find? fun p => decide (offset ≤ p) && !draft.edits.covers p

/-- Refuse the script when it calls a macro that is not supported. -/
def refuseUnsupported (draft : Draft) : Outcome :=
  match MacroKind.all.find? fun kind =>
      !kind.isSupported && (draft.scan.findCall? kind.name 0).isSome with
  | some kind =>
    ⟨draft.note 2 ("Unsupported macro " ++ kind.name ++ " found"), some (.unsupported kind)⟩
  | none => ⟨draft, none⟩

/-! ## Hoisting imports -/

/-- Put a marker in the place of an import statement, when it is code and not yet part of an edit.
Gives whether the statement was claimed. -/
def claim (draft : Draft) (start stop : Nat) : Outcome × Bool :=
  if draft.scan.isCode start && !draft.edits.covers start && !draft.edits.covers (stop - 1 : Int) then
    let statement := Text.joinWith " " (Text.words (draft.source.slice start stop))
    let outcome := draft.addEdit start (stop - 1) (draft.settings.marker statement)
    (outcome, outcome.error.isNone)
  else (⟨draft, none⟩, false)

/-- Claim the import statements one by one, up to the first that fails, and collect what the
claimed ones hoist, each with its offset. -/
def claimAll (draft : Draft) : List (Text.Match Hoisted) → Outcome × List (Nat × Hoisted)
  | [] => (⟨draft, none⟩, [])
  | found :: rest =>
    let (outcome, claimed) := draft.claim found.start found.stop
    match outcome.error with
    | some _ => (outcome, [])
    | none =>
      let (last, hoisted) := outcome.draft.claimAll rest
      (last, if claimed then (found.start, found.value) :: hoisted else hoisted)

/-- Add names that are not there yet. -/
def addNames (known : List Text) : List Text → List Text
  | [] => known
  | name :: rest => addNames (if name ∈ known then known else known ++ [name]) rest

/-- Record what an import statement hoists. -/
def hoist (draft : Draft) : Hoisted → Draft
  | .component component => { draft with components := draft.components ++ [component] }
  | .module record =>
    { draft with
      imports := draft.imports ++ [record]
      frameworkNames :=
        if record.path = draft.settings.frameworkModule then
          addNames draft.frameworkNames record.localNames
        else draft.frameworkNames }

/-- Hoist the import statements out of the script, in the order of the source. Component files are
claimed first, then named imports, then the rest. -/
def hoistImports (draft : Draft) : Outcome :=
  let (outcome, hoisted) :=
    draft.claimAll (importMatches draft.settings.componentExtension draft.source)
  outcome.andThen fun claimed =>
    let ordered := hoisted.mergeSort fun a b => a.1 ≤ b.1
    let filled := ordered.foldl (fun current item => current.hoist item.2) claimed
    ⟨filled.note 2 ("Hoisted " ++ Text.ofNat filled.imports.length ++ " imports, " ++
      Text.ofNat filled.components.length ++ " components"), none⟩

end Draft

end SetupScript
