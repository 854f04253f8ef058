import SetupScript.Proofs.DeclaredNames
import SetupScript.Proofs.Recompilation

/-!
# Calls that are assigned

A script in which one declaration is assigned a macro call, and no other macro is called, is compiled
by putting the value of the macro in the place of the call. Everything before the call and after it
stays as it is, and the names that are declared are still collected.
-/

namespace SetupScript

/-- Every macro is in the list of macros. -/
theorem MacroKind.mem_all (kind : MacroKind) : kind ∈ MacroKind.all := by
  cases kind <;> decide

/-- A macro call that a declaration is assigned. -/
inductive AssignedCall where
  | props (arguments : Text)
  | emits (arguments : Text)
  | defaults (arguments values : Text)

namespace AssignedCall

/-- The call as it is written. -/
def text : AssignedCall → Text
  | props arguments => "defineProps(" ++ arguments ++ ")"
  | emits arguments => "defineEmits(" ++ arguments ++ ")"
  | defaults arguments values => "withDefaults(defineProps(" ++ arguments ++ "), " ++ values ++ ")"

/-- What takes the place of the call. -/
def replacement : AssignedCall → Text
  | props _ => "__props__"
  | emits _ => "__emit__"
  | defaults _ values => "__applyDefaults__(__props__, " ++ values ++ ")"

/-- The props that the call defines. -/
def props? : AssignedCall → Option Text
  | props arguments | defaults arguments _ => some (definedBy "\x7b\x7d" arguments)
  | emits _ => none

/-- The events that the call defines. -/
def emits? : AssignedCall → Option Text
  | emits arguments => some (definedBy "[]" arguments)
  | props _ | defaults .. => none

/-- The macro that is called. -/
def kind : AssignedCall → MacroKind
  | props _ => .defineProps
  | emits _ => .defineEmits
  | defaults .. => .withDefaults

/-- All that stands between the parentheses of the call. -/
def arguments : AssignedCall → Text
  | props arguments | emits arguments => arguments
  | defaults arguments values => callText .defineProps arguments ++ ',' :: ' ' :: values

/-- The macros called in it, with their offsets. -/
def calls : AssignedCall → List (MacroKind × Nat)
  | props _ => [(.defineProps, 0)]
  | emits _ => [(.defineEmits, 0)]
  | defaults .. => [(.withDefaults, 0), (.defineProps, 13)]

/-- The arguments are balanced; defaults are trimmed, not empty and one argument. -/
def WellFormed : AssignedCall → Prop
  | props arguments | emits arguments => Balanced arguments
  | defaults arguments values =>
    Balanced arguments ∧ Balanced values ∧ values ≠ [] ∧ Text.trim values = values ∧ NoComma values

instance : (call : AssignedCall) → Decidable call.WellFormed
  | props arguments | emits arguments => inferInstanceAs (Decidable (Balanced arguments))
  | defaults .. => inferInstanceAs (Decidable (_ ∧ _ ∧ _ ∧ _ ∧ _))

/-- The call is written like every call. -/
theorem text_eq (call : AssignedCall) : call.text = callText call.kind call.arguments := by
  -- regrouped over variables, so that the fixed texts are never compared
  have hsingle (opening name arguments : Text) (hopening : opening = name ++ ['(']) :
      opening ++ arguments ++ [')'] = name ++ '(' :: (arguments ++ [')']) := by
    simp [hopening]
  have hnested (opening name inner arguments values : Text)
      (hopening : opening = name ++ '(' :: (inner ++ ['('])) :
      opening ++ arguments ++ [')', ',', ' '] ++ values ++ [')'] =
        name ++ '(' :: ((inner ++ '(' :: (arguments ++ [')'])) ++ ',' :: ' ' :: values ++ [')']) := by
    simp [hopening]
  cases call with
  | props arguments => exact hsingle _ MacroKind.defineProps.name arguments (by decide)
  | emits arguments => exact hsingle _ MacroKind.defineEmits.name arguments (by decide)
  | defaults arguments values =>
    exact hnested _ MacroKind.withDefaults.name MacroKind.defineProps.name arguments values (by decide)

/-- The result that is recorded for the call. -/
def result (declaration : Declaration) (call : AssignedCall) : MacroResult where
  kind := call.kind
  rawArguments := Text.trim call.arguments
  boundName := match call with
    | defaults .. => some declaration.target
    | props _ | emits _ => if declaration.isPattern then none else some declaration.target

/-- A macro called in the call is its own one, or `defineProps` right inside `withDefaults`. -/
theorem cases_of_mem_calls {call : AssignedCall} {own : MacroKind × Nat} (h : own ∈ call.calls) :
    own = (call.kind, 0) ∨
      ∃ arguments values, call = defaults arguments values ∧ own = (.defineProps, 13) := by
  cases call with
  | props arguments | emits arguments => exact .inl (List.mem_singleton.mp h)
  | defaults arguments values =>
    exact (List.mem_pair.mp h).imp_right fun hinner => ⟨arguments, values, rfl, hinner⟩

/-- No macro is called twice in the call. -/
theorem calls_injective (call : AssignedCall) {a b : MacroKind × Nat} (ha : a ∈ call.calls)
    (hb : b ∈ call.calls) (hkind : a.1 = b.1) : a = b := by
  rcases cases_of_mem_calls ha with rfl | ⟨_, _, rfl, rfl⟩ <;>
    rcases cases_of_mem_calls hb with rfl | ⟨_, _, hcall, rfl⟩
  · rfl
  · subst hcall
    cases hkind
  · cases hkind
  · rfl

/-- All that stands between the parentheses is balanced. -/
theorem WellFormed.arguments {call : AssignedCall} (h : call.WellFormed) : Balanced call.arguments := by
  cases call with
  | props arguments => exact h
  | emits arguments => exact h
  | defaults arguments values =>
    obtain ⟨harguments, hvalues, -⟩ := h
    have hcomma : Balanced [',', ' '] := balanced_of_neutral (by decide)
    have hsecond : Balanced ([',', ' '] ++ values) :=
      hcomma.append hvalues (not_slashMeets_of_last (by decide) values)
    exact (harguments.callText .defineProps).append hsecond fun hmeets => by simp [SlashMeets] at hmeets

end AssignedCall

/-- A `defineProps` call and trimmed defaults are read as two arguments. -/
theorem arguments_of_defaults {arguments values : Text}
    (h : (AssignedCall.defaults arguments values).WellFormed) :
    (Scan.ofText (AssignedCall.defaults arguments values).arguments).arguments =
      [callText .defineProps arguments, values] := by
  obtain ⟨harguments, -, hne, htrim, hcomma⟩ := h
  have hblank : NoComma (' ' :: values) := by
    have hstep : Context.step .code ' ' values.head? = (.code, 1) := step_of_isPlain (by decide) _
    rw [NoComma, labelFrom_single hstep, Scan.markCommas_eq_cons]
    exact hcomma
  have hfirst : Text.trim (callText .defineProps arguments) = callText .defineProps arguments := by
    refine Text.trim_of_ends rfl ?_
    rw [callText, ← List.cons_append, ← List.append_assoc, List.getLast?_concat]
    rfl
  have hsecond : Text.trim (' ' :: values) = values := htrim
  have hlast : values.isEmpty = false := by simpa using hne
  rw [AssignedCall.arguments, arguments_of_pair (harguments.callText _) (noComma_callText harguments _) hblank]
  simp only [Text.trimItems, hfirst, hsecond, hlast]
  rfl

/-- What starts with another text than the name is no assignment of it. -/
theorem Reader.assignmentOf_eq_none {name value : Text} (hhead : value.head?.any Text.isBlank = false)
    (hname : ¬ name <+: value) : assignmentOf name (" = " ++ value) = none := by
  have hassigned : assignment (" = " ++ value) = some ((), value) :=
    assignment_eq_some.mpr ⟨[' '], [' '], rfl, by decide, by decide, by simp [hhead]⟩
  by_contra hsome
  obtain ⟨⟨u, left⟩, hread⟩ := Option.ne_none_iff_exists'.mp hsome
  simp only [assignmentOf, bind_eq_some, hassigned, literal_eq_some, Option.some.injEq, Prod.mk.injEq] at hread
  obtain ⟨_, _, ⟨-, rfl⟩, _, rest, hliteral, -⟩ := hread
  exact hname ⟨rest, hliteral.symm⟩

/-- Only `defineProps` alone becomes the props parameter. -/
theorem AssignedCall.not_assigned_props (call : AssignedCall) (hcall : ∀ arguments, call ≠ props arguments)
    (tail : Text) : Reader.assignmentOf ({} : Settings).propsParam
      (" = " ++ bareText .code (call.replacement ++ tail)) = none := by
  -- the first characters tell the values of the macros apart
  have hopening (opening : Text) (c : Char) (hplain : opening.all isPlain) (hfirst : opening.head? = some '_')
      (hthird : opening[2]? = some c) (hc : 'p' ≠ c) (rest : Text) :
      Reader.assignmentOf ({} : Settings).propsParam (" = " ++ bareText .code (opening ++ rest)) = none := by
    have hafter := (labelFrom_plain hplain []).2
    rw [List.append_nil, Context.after_nil] at hafter
    have hlast : opening.getLast? ≠ some '/' := fun hlast =>
      absurd (List.all_eq_true.mp hplain '/' (List.mem_of_getLast? hlast)) (by decide)
    rw [bareText_append hafter (not_slashMeets_of_last hlast rest), bareText_of_plain hplain]
    refine Reader.assignmentOf_eq_none ?_ ?_
    · rw [List.head?_append, hfirst]
      rfl
    · rintro ⟨more, htext⟩
      have hchars : some 'p' = (opening ++ bareText .code rest)[2]? := congrArg (fun t : Text => t[2]?) htext
      rw [List.getElem?_append_left (List.getElem?_eq_some_iff.mp hthird).1, hthird] at hchars
      exact hc (Option.some.inj hchars)
  cases call with
  | props arguments => exact absurd rfl (hcall arguments)
  | emits arguments =>
    exact hopening "__emit__" 'e' (by decide) (by decide) (by decide) (by decide) tail
  | defaults arguments values =>
    have hshape (a b c d : Text) : a ++ b ++ c ++ d = a ++ (b ++ (c ++ d)) := by
      simp only [List.append_assoc]
    have hparts : (defaults arguments values).replacement ++ tail =
        ("__applyDefaults__(__props__, " : Text) ++ (values ++ (")" ++ tail)) := hshape _ values _ tail
    rw [hparts]
    exact hopening "__applyDefaults__(__props__, " 'a' (by decide) (by decide) (by decide) (by decide) _

/-! ## Scripts with one call -/

namespace Draft

variable {draft : Draft} {kind : MacroKind} {index : Nat}

/-- The only call of a macro is the next one from any offset up to it, unless an edit has taken it. -/
theorem nextCall?_of_only (h : draft.scan.callOffsets kind.name = [index]) (offset : Int) :
    draft.nextCall? kind.name offset =
      if offset ≤ index ∧ draft.edits.covers index = false then some index else none := by
  simp only [nextCall?, h, List.find?_singleton, Bool.and_eq_true, decide_eq_true_eq, Bool.not_eq_true']

/-- Before any edit no call holds one. -/
theorem holdsEdit_of_no_edits (hedits : draft.edits = []) (call : MacroCall) :
    draft.holdsEdit call = false := by
  rw [holdsEdit, hedits]
  rfl

/-- Before any edit the only call of a macro is expanded. -/
theorem onFirstCall_of_only {call : MacroCall} (h : draft.scan.callOffsets kind.name = [index])
    (hcall : draft.scan.callAt index kind = .ok call) (hedits : draft.edits = [])
    (expand : Draft → Nat → MacroCall → Outcome) :
    draft.onFirstCall kind expand = expand draft index call := by
  have hnext : draft.nextCall? kind.name 0 = some index := by
    rw [nextCall?_of_only h, hedits]
    exact if_pos ⟨Int.natCast_nonneg index, rfl⟩
  simp only [onFirstCall, hnext, hcall, holdsEdit_of_no_edits hedits]
  rfl

/-- A macro whose only call an edit has taken is not expanded. -/
theorem onFirstCall_of_taken (h : draft.scan.callOffsets kind.name = [index])
    (htaken : draft.edits.covers index) (expand : Draft → Nat → MacroCall → Outcome) :
    draft.onFirstCall kind expand = ⟨draft, none⟩ := by
  have hnext : draft.nextCall? kind.name 0 = none := by
    rw [nextCall?_of_only h, htaken]
    rfl
  simp only [onFirstCall, hnext]

/-- The first edit is always recorded. -/
theorem addEdit_of_no_edits (draft : Draft) (hedits : draft.edits = []) (start stop : Int)
    (replacement : Text) :
    draft.addEdit start stop replacement =
      ⟨{ draft with edits := [⟨start, stop, replacement⟩] }, none⟩ := by
  simp only [addEdit, EditList.add, hedits]
  rfl

/-- The only call of a macro is not reported as repeated. -/
theorem reportRepeated_of_only {call : MacroCall} (h : draft.scan.callOffsets call.kind.name = [index])
    (hstop : index ≤ call.stop) : draft.reportRepeated call = ⟨draft, none⟩ := by
  have hnext : draft.nextCall? call.kind.name (call.stop + 1) = none := by
    rw [nextCall?_of_only h, if_neg (by omega)]
  simp only [reportRepeated, hnext]

/-- The expansions of the built-in macros run one after the other. -/
theorem runAll_builtin {first second third last : Draft}
    (hdefaults : draft.expandDefaults = ⟨first, none⟩) (hprops : first.expandProps = ⟨second, none⟩)
    (hemits : second.expandEmits = ⟨third, none⟩) (hexpose : third.expandExpose = ⟨last, none⟩) :
    draft.runAll MacroRegistry.builtin = ⟨last, none⟩ := by
  simp only [MacroRegistry.builtin, runAll, hdefaults, hprops, hemits, hexpose, Outcome.andThen]

section Assigned

variable {call : MacroCall} {declaration : Declaration} (hedits : draft.edits = [])
  (hdeclared : draft.declarationBefore? index = some declaration)
  (hcalls : draft.scan.callOffsets call.kind.name = [index]) (hstop : index ≤ call.stop)

include hedits hdeclared hcalls hstop

/-- The only `defineProps` call, assigned in a declaration, becomes the props parameter. -/
theorem expandPropsCall_of_assigned (hprops : draft.props = none) :
    draft.expandPropsCall index call =
      ⟨{ draft with
          props := some (call.definition "\x7b\x7d")
          edits := [⟨index, call.stop, draft.settings.propsParam⟩] }.record
        ⟨call.kind, Text.trim call.arguments,
          if declaration.isPattern then none else some declaration.target⟩ index, none⟩ := by
  have hadded := addEdit_of_no_edits { draft with props := some (call.definition "\x7b\x7d") } hedits index
    call.stop draft.settings.propsParam
  simp only [expandPropsCall, hprops, Option.isSome_none, Bool.false_eq_true, if_false, Outcome.andThen,
    hdeclared, replaceCall, hadded]
  exact reportRepeated_of_only hcalls hstop

/-- The only `defineEmits` call, assigned in a declaration, becomes the emit function. -/
theorem expandEmitsCall_of_assigned :
    draft.expandEmitsCall index call =
      ⟨{ draft with
          emits := some (call.definition "[]")
          edits := [⟨index, call.stop, draft.settings.emitParam⟩] }.record
        ⟨call.kind, Text.trim call.arguments,
          if declaration.isPattern then none else some declaration.target⟩ index, none⟩ := by
  have hadded := addEdit_of_no_edits { draft with emits := some (call.definition "[]") } hedits index
    call.stop draft.settings.emitParam
  simp only [expandEmitsCall, hdeclared, replaceCall, hadded, Outcome.andThen]
  exact reportRepeated_of_only hcalls hstop

end Assigned

/-- The only `withDefaults` call, around a `defineProps` call and defaults, becomes a call of the
defaults helper. -/
theorem expandDefaults_of_assigned {call : MacroCall} {declaration : Declaration}
    {definition values first : Text} (hedits : draft.edits = []) (hprops : draft.props = none)
    (hdeclared : draft.declarationBefore? index = some declaration)
    (hcalls : draft.scan.callOffsets MacroKind.withDefaults.name = [index])
    (hcall : draft.scan.callAt index .withDefaults = .ok call)
    (harguments : (Scan.ofText call.arguments).arguments = [first, values])
    (hdefinition : propsDefinition? first = some definition) :
    draft.expandDefaults =
      ⟨{ draft with
          props := some definition
          edits := [⟨index, call.stop, draft.settings.defaultsHelper ++ "(" ++
            draft.settings.propsParam ++ ", " ++ values ++ ")"⟩]
          defaultsUsed := true }.record
        ⟨call.kind, Text.trim call.arguments, some declaration.target⟩ index, none⟩ := by
  have hheld := holdsEdit_of_no_edits hedits call
  have hfree : draft.edits.covers index = false := by
    rw [hedits]
    rfl
  have hadded := addEdit_of_no_edits { draft with props := some definition } hedits index call.stop
    (draft.settings.defaultsHelper ++ "(" ++ draft.settings.propsParam ++ ", " ++ values ++ ")")
  simp only [expandDefaults, hcalls, expandDefaultsFrom, hfree, hcall, hheld, Bool.false_eq_true, if_false,
    Nat.not_lt_zero, decide_false, Bool.or_self, expandDefaultsCall, harguments, List.headD_cons, hdefinition,
    List.drop_succ_cons, List.drop_zero, hdeclared, hprops, Option.getD_none, Option.map_some, hadded,
    Outcome.andThen]

end Draft

/-- A script that declares something and assigns it a macro call. -/
structure AssignedScript where
  lead : Text
  declaration : Declaration
  call : AssignedCall
  tail : Text

namespace AssignedScript

variable (script : AssignedScript)

/-- What stands before the call. -/
def before : Text := script.lead ++ declarationText script.declaration.target

/-- The script. -/
def source : Text := script.before ++ (script.call.text ++ script.tail)

/-- The script with the value of the macro in the place of the call. -/
def rewritten : Text := script.before ++ (script.call.replacement ++ script.tail)

/-- The call as it is read. -/
def macroCall : MacroCall where
  kind := script.call.kind
  start := script.before.length
  stop := script.before.length + script.call.kind.name.length + 1 + script.call.arguments.length
  arguments := script.call.arguments
  typeArguments := none

/-- The names that the declaration binds. Those that are taken out of the props stay on them. -/
def boundNames : List Text :=
  if script.declaration.isPattern then
    match script.call with
    | .props _ => []
    | .emits _ | .defaults .. => Pattern.names (bareText .code script.declaration.target)
  else [script.declaration.target]

/-- The lead is made of whole statements, what is declared is a name or a pattern, the call is well
formed, and there is no other call of a macro and no import. -/
structure WellFormed : Prop where
  lead : EndsStatement script.lead
  balanced : Balanced script.lead
  target : IsTarget script.declaration
  call : script.call.WellFormed
  calls : ∀ kind ∈ MacroKind.all, ∀ p ∈ (Scan.ofText script.source).callOffsets kind.name,
    ∃ own ∈ script.call.calls, own.1 = kind ∧ p = script.before.length + own.2
  imports : ∀ found ∈ importMatches ({} : Settings).componentExtension script.source,
    (Scan.ofText script.source).isCode found.start = false

instance : Decidable script.WellFormed :=
  decidable_of_iff
    (EndsStatement script.lead ∧ Balanced script.lead ∧ IsTarget script.declaration ∧
      script.call.WellFormed ∧
      (∀ kind ∈ MacroKind.all, ∀ p ∈ (Scan.ofText script.source).callOffsets kind.name,
        ∃ own ∈ script.call.calls, own.1 = kind ∧ p = script.before.length + own.2) ∧
      ∀ found ∈ importMatches ({} : Settings).componentExtension script.source,
        (Scan.ofText script.source).isCode found.start = false)
    ⟨fun h => ⟨h.1, h.2.1, h.2.2.1, h.2.2.2.1, h.2.2.2.2.1, h.2.2.2.2.2⟩,
      fun h => ⟨h.lead, h.balanced, h.target, h.call, h.calls, h.imports⟩⟩

/-- What stands before the call ends with a blank. -/
theorem getLast?_before : script.before.getLast? = some ' ' := by
  rw [before, declarationText, List.getLast?_append, List.getLast?_append, List.getLast?_append]
  rfl

namespace WellFormed

variable {script : AssignedScript} (h : script.WellFormed)

include h

/-- What stands before the call ends in code. -/
theorem after_before : Context.code.after script.before = .code :=
  h.target.after_declarationText h.lead h.balanced.code

/-- The call is read with its extent and its arguments. -/
theorem callAt :
    (Scan.ofText script.source).callAt script.before.length script.call.kind = .ok script.macroCall := by
  rw [source, script.call.text_eq]
  exact Scan.callAt_callText h.after_before _ h.call.arguments _

/-- Each macro of the call is called where it stands. -/
theorem mem_callOffsets {own : MacroKind × Nat} (hown : own ∈ script.call.calls) :
    script.before.length + own.2 ∈ (Scan.ofText script.source).callOffsets own.1.name := by
  have hblank : script.before.getLast?.any Text.isNameChar = false := by
    rw [getLast?_before]
    decide
  have houter := Scan.mem_callOffsets_callText h.after_before script.call.kind h.call.arguments.code
    script.tail hblank
  rw [← script.call.text_eq, ← source] at houter
  rcases AssignedCall.cases_of_mem_calls hown with rfl | ⟨arguments, values, hcall, rfl⟩
  · exact houter
  · -- the inner call follows the opening parenthesis of the outer one
    have hwell := h.call
    rw [hcall] at hwell
    have hopening : Context.code.after (script.before ++ (MacroKind.withDefaults.name ++ ['('])) = .code := by
      rw [(labelFrom_append h.after_before (not_slashMeets_of_last (by simp [getLast?_before]) _)).2]
      decide
    have hinner := Scan.mem_callOffsets_callText hopening .defineProps hwell.1.code
      (',' :: ' ' :: (values ++ ')' :: script.tail))
      (by rw [← List.append_assoc, List.getLast?_concat]; rfl)
    have hsource : script.source = script.before ++ (MacroKind.withDefaults.name ++ ['(']) ++
        (callText .defineProps arguments ++ ',' :: ' ' :: (values ++ ')' :: script.tail)) := by
      rw [source, script.call.text_eq, hcall, AssignedCall.arguments, AssignedCall.kind,
        callText.eq_1 .withDefaults]
      simp only [List.append_assoc, List.cons_append, List.nil_append]
    rw [← hsource, List.length_append] at hinner
    exact hinner

/-- A macro of the call is called nowhere else. -/
theorem callOffsets_of_mem {own : MacroKind × Nat} (hown : own ∈ script.call.calls) :
    (Scan.ofText script.source).callOffsets own.1.name = [script.before.length + own.2] := by
  refine Scan.callOffsets_eq_singleton (h.mem_callOffsets hown) fun p hp => ?_
  obtain ⟨other, hother, hkind, rfl⟩ := h.calls own.1 own.1.mem_all p hp
  rw [script.call.calls_injective hother hown hkind]

/-- Other macros are not called. -/
theorem callOffsets_of_not_mem {kind : MacroKind} (hkind : ∀ own ∈ script.call.calls, own.1 ≠ kind) :
    (Scan.ofText script.source).callOffsets kind.name = [] := by
  refine List.eq_nil_iff_forall_not_mem.mpr fun p hp => ?_
  obtain ⟨own, hown, hsame, -⟩ := h.calls kind kind.mem_all p hp
  exact hkind own hown hsame

/-- No unsupported macro is called. -/
theorem not_callsUnsupported : ¬ CallsUnsupported script.source := by
  rintro ⟨kind, -, hkind, hcalled⟩
  refine hcalled (h.callOffsets_of_not_mem fun own hown hsame => ?_)
  have hsupported : ∀ own ∈ script.call.calls, own.1.isSupported := by
    cases script.call <;> simp [AssignedCall.calls, MacroKind.isSupported]
  rw [← hsame, hsupported own hown] at hkind
  cases hkind

end WellFormed

/-- A draft of the script in which nothing is recorded yet. -/
structure Fresh (draft : Draft) : Prop where
  settings : draft.settings = {}
  source : draft.source = script.source
  scan : draft.scan = Scan.ofText draft.source
  edits : draft.edits = []
  props : draft.props = none
  emits : draft.emits = none
  results : draft.results = []
  frameworkNames : draft.frameworkNames = []

/-- What the passes leave of the script: one edit, in the place of the call, and what it defines. -/
structure Expanded (outcome : Outcome) : Prop where
  error : outcome.error = none
  settings : outcome.draft.settings = {}
  source : outcome.draft.source = script.source
  edits : outcome.draft.edits =
    [⟨script.before.length, script.macroCall.stop, script.call.replacement⟩]
  props : outcome.draft.props = script.call.props?
  emits : outcome.draft.emits = script.call.emits?
  results : outcome.draft.results = [script.call.result script.declaration]
  frameworkNames : outcome.draft.frameworkNames = []

variable {script}

/-- The declaration that the call is assigned in is found. -/
theorem Fresh.declarationBefore? {draft : Draft} (hfresh : script.Fresh draft) (h : script.WellFormed) :
    draft.declarationBefore? script.before.length = some script.declaration :=
  Draft.declarationBefore?_eq h.target h.lead h.balanced.code hfresh.scan
    (hfresh.source.trans (List.append_assoc ..))

/-- Macros that are not called leave every draft of the script as it is. -/
theorem Fresh.skips {draft later : Draft} (hfresh : script.Fresh draft) (h : script.WellFormed)
    (kind : MacroKind) (hkind : ∀ own ∈ script.call.calls, own.1 ≠ kind)
    (expand : Draft → Nat → MacroCall → Outcome) (hscan : later.scan = draft.scan) :
    later.onFirstCall kind expand = ⟨later, none⟩ := by
  refine Draft.onFirstCall_of_not_called ?_ expand
  rw [hscan, hfresh.scan, hfresh.source]
  exact h.callOffsets_of_not_mem hkind

/-- The macro of the call is called where it stands, and nowhere else. -/
theorem Fresh.called {draft : Draft} (hfresh : script.Fresh draft) (h : script.WellFormed) :
    draft.scan.callOffsets script.call.kind.name = [script.before.length] := by
  have hown : (script.call.kind, 0) ∈ script.call.calls := by
    cases script.call <;> simp [AssignedCall.calls, AssignedCall.kind]
  rw [hfresh.scan, hfresh.source]
  exact h.callOffsets_of_mem hown

/-- Before any edit the call is the one to be expanded. -/
theorem Fresh.onFirstCall {draft : Draft} (hfresh : script.Fresh draft) (h : script.WellFormed)
    (expand : Draft → Nat → MacroCall → Outcome) :
    draft.onFirstCall script.call.kind expand = expand draft script.before.length script.macroCall := by
  refine Draft.onFirstCall_of_only ?_ ?_ hfresh.edits expand
  · exact hfresh.called h
  · rw [hfresh.scan, hfresh.source]
    exact h.callAt

/-- Once the call is replaced none of its macros is expanded. -/
theorem Fresh.taken {draft later : Draft} (hfresh : script.Fresh draft) (h : script.WellFormed)
    (own : MacroKind × Nat) (hown : own ∈ script.call.calls)
    (expand : Draft → Nat → MacroCall → Outcome) (hscan : later.scan = draft.scan) {replacement : Text}
    (hedits : later.edits = [⟨script.before.length, script.macroCall.stop, replacement⟩]) :
    later.onFirstCall own.1 expand = ⟨later, none⟩ := by
  have hwithin : own.2 ≤ script.call.kind.name.length + 1 := by
    rcases AssignedCall.cases_of_mem_calls hown with rfl | ⟨arguments, values, hcall, rfl⟩
    · exact Nat.zero_le _
    · rw [hcall]
      exact Nat.le_refl 13
  have hcalled : later.scan.callOffsets own.1.name = [script.before.length + own.2] := by
    rw [hscan, hfresh.scan, hfresh.source]
    exact h.callOffsets_of_mem hown
  refine Draft.onFirstCall_of_taken hcalled ?_ expand
  refine EditList.covers_of_mem (hedits ▸ List.mem_singleton_self _) ?_ ?_
  · simp only
    omega
  · simp only [macroCall]
    omega

/-- Where `withDefaults` is not called the first pass does nothing. -/
theorem Fresh.expandDefaults {draft : Draft} (hfresh : script.Fresh draft) (h : script.WellFormed)
    (hkind : ∀ own ∈ script.call.calls, own.1 ≠ .withDefaults) : draft.expandDefaults = ⟨draft, none⟩ := by
  have hnone : draft.scan.callOffsets MacroKind.withDefaults.name = [] := by
    rw [hfresh.scan, hfresh.source]
    exact h.callOffsets_of_not_mem hkind
  rw [Draft.expandDefaults, hnone]
  rfl

/-- The first result that is recorded is the only one. -/
theorem Fresh.results_append {draft : Draft} (hfresh : script.Fresh draft) (result : MacroResult) :
    draft.results ++ [result] = [result] := by
  rw [hfresh.results, List.nil_append]

/-- Expanding the macros of the script replaces the call. -/
theorem Fresh.expanded {draft : Draft} (hfresh : script.Fresh draft) (h : script.WellFormed) :
    script.Expanded (draft.runAll MacroRegistry.builtin) := by
  have hdeclared := hfresh.declarationBefore? h
  have hcalled := hfresh.called h
  have hstop : script.before.length ≤ script.macroCall.stop := by
    simp only [macroCall]
    omega
  obtain ⟨lead, declaration, call, tail⟩ := script
  cases call with
  | props arguments =>
    have hprops := hfresh.onFirstCall h Draft.expandPropsCall
    rw [Draft.expandPropsCall_of_assigned hfresh.edits hdeclared hcalled hstop hfresh.props] at hprops
    rw [Draft.runAll_builtin (hfresh.expandDefaults h (by simp [AssignedCall.calls])) hprops
      (hfresh.skips h .defineEmits (by simp [AssignedCall.calls]) _ rfl)
      (hfresh.skips h .defineExpose (by simp [AssignedCall.calls]) _ rfl)]
    refine ⟨rfl, hfresh.settings, hfresh.source, ?_, rfl, hfresh.emits, hfresh.results_append _,
      hfresh.frameworkNames⟩
    simp only [Draft.record, Draft.note, hfresh.settings]
    rfl
  | emits arguments =>
    have hemits := hfresh.onFirstCall h Draft.expandEmitsCall
    rw [Draft.expandEmitsCall_of_assigned hfresh.edits hdeclared hcalled hstop] at hemits
    rw [Draft.runAll_builtin (hfresh.expandDefaults h (by simp [AssignedCall.calls]))
      (hfresh.skips h .defineProps (by simp [AssignedCall.calls]) _ rfl) hemits
      (hfresh.skips h .defineExpose (by simp [AssignedCall.calls]) _ rfl)]
    refine ⟨rfl, hfresh.settings, hfresh.source, ?_, hfresh.props, rfl, hfresh.results_append _,
      hfresh.frameworkNames⟩
    simp only [Draft.record, Draft.note, hfresh.settings]
    rfl
  | defaults arguments values =>
    have hcall := h.callAt
    rw [← hfresh.source, ← hfresh.scan] at hcall
    have hdefaults := Draft.expandDefaults_of_assigned hfresh.edits hfresh.props hdeclared hcalled hcall
      (arguments_of_defaults h.call) (propsDefinition?_callText h.call.1)
    rw [Draft.runAll_builtin hdefaults
      (hfresh.taken h (.defineProps, 13) (by simp [AssignedCall.calls]) _ rfl rfl)
      (hfresh.skips h .defineEmits (by simp [AssignedCall.calls]) _ rfl)
      (hfresh.skips h .defineExpose (by simp [AssignedCall.calls]) _ rfl)]
    have hreplacement : ({} : Settings).defaultsHelper ++ "(" ++ ({} : Settings).propsParam ++ ", " =
        ("__applyDefaults__(__props__, " : Text) := by decide
    refine ⟨rfl, hfresh.settings, hfresh.source, ?_, rfl, hfresh.emits, hfresh.results_append _,
      hfresh.frameworkNames⟩
    simp only [Draft.record, Draft.note, hfresh.settings, hreplacement]
    rfl

/-- The edit leaves everything before the call and after it as it is. -/
theorem Expanded.edited {outcome : Outcome} (h : script.Expanded outcome) :
    outcome.draft.edited = script.rewritten := by
  have hlength := congrArg List.length script.call.text_eq
  rw [length_callText] at hlength
  have hfront : script.source.slice 0 script.before.length = script.before := by
    have hslice := script.source.slice_natCast 0 script.before.length
    rw [List.drop_zero, Nat.sub_zero] at hslice
    exact hslice.trans List.take_left
  have hback : script.source.slice (script.macroCall.stop + 1 : Nat) script.source.length = script.tail := by
    have hpast : script.macroCall.stop + 1 = (script.before ++ script.call.text).length := by
      simp only [macroCall, List.length_append]
      omega
    have hparts : script.source = (script.before ++ script.call.text) ++ script.tail :=
      (List.append_assoc ..).symm
    rw [Text.slice_natCast, hpast, hparts, List.drop_left]
    refine List.take_of_length_le ?_
    rw [List.length_append, Nat.add_sub_cancel_left]
  rw [Draft.edited_of_sorted (by simp [h.edits]), h.edits, h.source]
  simp only [EditList.applyFrom]
  rw [hfront, ← Int.natCast_succ, hback, rewritten, List.append_assoc]

/-- The names of the declaration are collected from the rewritten script. -/
theorem WellFormed.mem_collect (h : script.WellFormed) {name : Text} (hname : name ∈ script.boundNames)
    (hown : Bindings.IsOwn {} name) : name ∈ (Bindings.collect {} script.rewritten).1 := by
  have hparts : script.rewritten =
      script.lead ++ (declarationText script.declaration.target ++ (script.call.replacement ++ script.tail)) :=
    List.append_assoc ..
  rw [hparts]
  have htarget := h.target
  unfold boundNames at hname
  generalize script.declaration = declaration at hname htarget ⊢
  cases htarget with
  | name hidentifier =>
    obtain rfl := List.mem_singleton.mp hname
    exact Bindings.mem_collect_of_name h.lead h.balanced hidentifier hown _
  | pattern hpattern =>
    cases hcall : script.call with
    | props arguments => simp [hcall] at hname
    | emits arguments =>
      rw [hcall] at hname
      exact Bindings.mem_collect_of_pattern h.lead h.balanced hpattern hown
        (AssignedCall.not_assigned_props _ (by simp) _) hname
    | defaults arguments values =>
      rw [hcall] at hname
      exact Bindings.mem_collect_of_pattern h.lead h.balanced hpattern hown
        (AssignedCall.not_assigned_props _ (by simp) _) hname

end AssignedScript

/-- A script that assigns one macro call in a declaration compiles; the call defines its trimmed
arguments, and only the call is replaced, by the value of the macro. The names of the declaration are
returned, except for those that are taken out of the props. -/
theorem assigned_call_replaced_in_place (script : AssignedScript) (h : script.WellFormed)
    (name : Option Text) (strict : Option Bool) :
    ∃ output, (compileScript {} script.source name strict).value = .ok output ∧
      output.props = script.call.props? ∧ output.emits = script.call.emits? ∧
      output.results = [script.call.result script.declaration] ∧
      (∀ bound ∈ script.boundNames, Bindings.IsOwn {} bound → bound ∈ output.bindings) ∧
      (expandScript {} script.source name strict).draft.edited = script.rewritten := by
  have hrun := expandScript_of_not_code name strict h.not_callsUnsupported h.imports
  have hfresh : script.Fresh (Draft.announced {} script.source name strict).noteHoisted :=
    ⟨rfl, rfl, rfl, rfl, rfl, rfl, rfl, rfl⟩
  have hexpanded := hfresh.expanded h
  rw [← hrun] at hexpanded
  refine ⟨(expandScript {} script.source name strict).draft.finish.1, ?_, hexpanded.props, hexpanded.emits,
    hexpanded.results, fun bound hbound hown => ?_, hexpanded.edited⟩
  · rw [compileScript_value, hexpanded.error]
  · rw [Draft.finish_eq, hexpanded.edited]
    refine List.mem_filter.mpr ⟨?_, ?_⟩
    · rw [hexpanded.settings]
      exact h.mem_collect hbound hown
    · rw [hexpanded.frameworkNames]
      rfl

/-- A script that takes props with defaults apart, after a comment and an object. -/
def defaultsScript : AssignedScript where
  lead := "// props (\nlet m = \x7b n: ')' \x7d;\n"
  declaration := ⟨"\x7b a, b: [c] /* ] */ \x7d", true⟩
  call := .defaults "['a', 'b']" "\x7b a: f(1, 2) \x7d"
  tail := "\nm.n = a"

/-- The call is replaced in place after a comment, a string and an object, and the pattern that it is
assigned to stays. -/
theorem assigned_defaults_replaced_in_place :
    defaultsScript.WellFormed ∧
      ∃ output, (compileScript {} defaultsScript.source none none).value = .ok output ∧
        output.props = some "['a', 'b']" ∧ output.emits = none ∧
        ("a" : Text) ∈ output.bindings ∧ ("c" : Text) ∈ output.bindings ∧
        (expandScript {} defaultsScript.source none none).draft.edited =
          ("// props (\nlet m = \x7b n: ')' \x7d;\nconst \x7b a, b: [c] /* ] */ \x7d = " ++
            "__applyDefaults__(__props__, \x7b a: f(1, 2) \x7d)\nm.n = a" : Text) := by
  have hwell : defaultsScript.WellFormed := by decide +kernel
  have hnames : defaultsScript.boundNames = ["a", "c"] := by decide +kernel
  have hprops : defaultsScript.call.props? = some "['a', 'b']" := by decide +kernel
  obtain ⟨output, hvalue, hprops', hemits, -, hbound, hedited⟩ :=
    assigned_call_replaced_in_place defaultsScript hwell none none
  rw [hnames] at hbound
  exact ⟨hwell, output, hvalue, hprops'.trans hprops, hemits, hbound "a" (by simp) ⟨by decide, by decide⟩,
    hbound "c" (by simp) ⟨by decide, by decide⟩, hedited.trans (by decide +kernel)⟩

end SetupScript
