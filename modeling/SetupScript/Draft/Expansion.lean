import SetupScript.Draft.Declaration

/-!
# Expanding macro calls

One expansion for each supported macro. A malformed call is skipped with a message. Every
`withDefaults` call around a `defineProps` is expanded; of the other macros only the first call
that no earlier edit has taken.
-/

namespace SetupScript.Draft

/-- Log that a malformed call is skipped. -/
def noteMalformed (draft : Draft) (kind : MacroKind) (index : Nat) (fault : CallFault) : Draft :=
  draft.note 2 ("Skipping " ++ kind.name ++ " at offset " ++ Text.ofNat index ++ ": " ++ fault.message)

/-- Replace a call and record its result. -/
def replaceCall (draft : Draft) (call : MacroCall) (index : Nat) (replacement : Text)
    (boundName : Option Text) : Outcome :=
  (draft.addEdit index call.stop replacement).andThen fun edited =>
    ⟨edited.record ⟨call.kind, Text.trim call.arguments, boundName⟩ index, none⟩

/-- Run an expansion on the first call of a macro that no edit has taken, if it is well formed and
holds no expanded call. -/
def onFirstCall (draft : Draft) (kind : MacroKind) (expand : Draft → Nat → MacroCall → Outcome) :
    Outcome :=
  match draft.nextCall? kind.name 0 with
  | none => ⟨draft, none⟩
  | some index =>
    match draft.scan.callAt index kind with
    | .error fault => ⟨draft.noteMalformed kind index fault, none⟩
    | .ok call =>
      if draft.holdsEdit call then ⟨draft.noteHeld call, none⟩ else expand draft index call

/-- Report the next call of a macro after one that was expanded, if there is one. -/
def reportRepeated (draft : Draft) (call : MacroCall) : Outcome :=
  match draft.nextCall? call.kind.name (call.stop + 1) with
  | none => ⟨draft, none⟩
  | some index => draft.reportDuplicate call.kind index

/-! ## `withDefaults` -/

/-- Turn one `withDefaults` call into a call of the defaults helper, provided that its first
argument holds a `defineProps` call. The props definition counts only where there is none yet. -/
def expandDefaultsCall (draft : Draft) (index : Nat) (call : MacroCall) : Outcome :=
  let arguments := (Scan.ofText call.arguments).arguments
  match propsDefinition? (arguments.headD []) with
  | none =>
    ⟨draft.note 3 (call.kind.name ++ " at offset " ++ Text.ofNat index ++
      " wraps no props declaration, skipped"), none⟩
  | some definition =>
    let defaults := (arguments.drop 1).headD "\x7b\x7d"
    let declared := { draft with props := some (draft.props.getD definition) }
    let replacement := draft.settings.defaultsHelper ++ "(" ++ draft.settings.propsParam ++ ", " ++
      defaults ++ ")"
    (declared.addEdit index call.stop replacement).andThen fun edited =>
      ⟨{ edited with defaultsUsed := true }.record
        ⟨call.kind, Text.trim call.arguments,
          (draft.declarationBefore? index).map Declaration.target⟩ index, none⟩

/-- Expand the calls at the given offsets that lie at or after `resume` and are not taken by an
edit, each in turn; the first malformed one ends the pass. -/
def expandDefaultsFrom (draft : Draft) (resume : Nat) : List Nat → Outcome
  | [] => ⟨draft, none⟩
  | index :: later =>
    if index < resume || draft.edits.covers index then draft.expandDefaultsFrom resume later
    else
      match draft.scan.callAt index .withDefaults with
      | .error fault => ⟨draft.noteMalformed .withDefaults index fault, none⟩
      | .ok call =>
        if draft.holdsEdit call then
          (draft.noteHeld call).expandDefaultsFrom (call.stop + 1) later
        else
          (draft.expandDefaultsCall index call).andThen fun next =>
            next.expandDefaultsFrom (call.stop + 1) later

/-- Expand the `withDefaults` calls around props declarations. -/
def expandDefaults (draft : Draft) : Outcome :=
  draft.expandDefaultsFrom 0 (draft.scan.callOffsets MacroKind.withDefaults.name)

/-! ## `defineProps` -/

/-- Take the definition of a `defineProps` call and replace the call by the props parameter, or by
a marker when it is assigned to nothing. -/
def expandPropsCall (draft : Draft) (index : Nat) (call : MacroCall) : Outcome :=
  let checked := if draft.props.isSome then draft.reportDuplicate .defineProps index
    else ⟨draft, none⟩
  checked.andThen fun current =>
    let defined := { current with props := some (call.definition "\x7b\x7d") }
    let replaced := match current.declarationBefore? index with
      | some declaration =>
        defined.replaceCall call index current.settings.propsParam
          (if declaration.isPattern then none else some declaration.target)
      | none =>
        defined.replaceCall call index
          (current.bareReplacement index MacroKind.defineProps.name) none
    replaced.andThen fun next => next.reportRepeated call

/-- Expand the first `defineProps` call. -/
def expandProps (draft : Draft) : Outcome := draft.onFirstCall .defineProps expandPropsCall

/-! ## `defineEmits` -/

/-- Take the definition of a `defineEmits` call and replace the call by the emit function. A call
that is assigned to nothing becomes a declaration of `emit`. -/
def expandEmitsCall (draft : Draft) (index : Nat) (call : MacroCall) : Outcome :=
  let defined := { draft with emits := some (call.definition "[]") }
  let emit := draft.settings.emitParam
  let replaced := match draft.declarationBefore? index with
    | some declaration =>
      defined.replaceCall call index emit
        (if declaration.isPattern then none else some declaration.target)
    | none => defined.replaceCall call index ("const emit = " ++ emit) (some "emit")
  replaced.andThen fun next => next.reportRepeated call

/-- Expand the first `defineEmits` call. -/
def expandEmits (draft : Draft) : Outcome := draft.onFirstCall .defineEmits expandEmitsCall

/-! ## `defineExpose` -/

/-- Keep the argument of a `defineExpose` call and take the call out of the script. -/
def expandExposeCall (draft : Draft) (index : Nat) (call : MacroCall) : Outcome :=
  let defined := { draft with expose := some (Text.trim call.arguments) }
  defined.replaceCall call index (draft.bareReplacement index MacroKind.defineExpose.name) none

/-- Expand the first `defineExpose` call. -/
def expandExpose (draft : Draft) : Outcome := draft.onFirstCall .defineExpose expandExposeCall

end SetupScript.Draft
