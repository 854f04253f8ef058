import Mathlib.Data.List.Forall2
import SetupScript.Draft.Expansion
import SetupScript.Proofs.CallExtents
import SetupScript.Proofs.EditRanges
import SetupScript.Proofs.ImportForms

/-!
# What every pass over a draft keeps

A draft is sound when its edits and its records are in step: the edits have valid ranges, there is
one for each import, each component file and each expanded call, and every expanded call has an edit
of its own over the extent of that call. What the edits put into the script is a marker or one of a
few texts that stand for a call. Passes may run in any order and any number of times; as
long as no edit is refused the draft stays sound, also where a pass ends in an error.

An expansion is never refused an edit. It fails only on a repeated declaration in strict mode.
-/

namespace SetupScript

/-- One pass over a draft. -/
inductive Pass where
  | refuse
  | hoist
  | defaults
  | props
  | emits
  | expose

namespace Pass

/-- What a pass does. -/
def run : Pass → Draft → Outcome
  | refuse => Draft.refuseUnsupported
  | hoist => Draft.hoistImports
  | defaults => Draft.expandDefaults
  | props => Draft.expandProps
  | emits => Draft.expandEmits
  | expose => Draft.expandExpose

/-- The pass expands the calls of a macro. -/
def isExpansion : Pass → Bool
  | refuse | hoist => false
  | defaults | props | emits | expose => true

end Pass

/-- The edit covers the call that the result records. -/
def MacroResult.Fits (scan : Scan) (result : MacroResult) (edit : Edit) : Prop :=
  ∃ (start stop : Nat) (arguments : Text), edit.start = start ∧ edit.stop = stop ∧
    scan.IsCall result.kind start stop arguments ∧ result.rawArguments = Text.trim arguments

/-- An edit that covers a call lies in the text. -/
theorem MacroResult.Fits.within {scan : Scan} {result : MacroResult} {edit : Edit}
    (h : result.Fits scan edit) : edit.Within scan := by
  obtain ⟨start, stop, arguments, hstart, hstop, hcall, -⟩ := h
  have hbounds := hcall.bounds
  refine ⟨by omega, by omega, by omega, ?_⟩
  rw [hstart, Scan.isCodeAt, Int.toNat_natCast, hcall.code]
  simp

/-- What takes the place of a call with these arguments. -/
inductive CallReplacement (settings : Settings) (arguments : Text) : Text → Prop
  | props : CallReplacement settings arguments settings.propsParam
  | emit : CallReplacement settings arguments settings.emitParam
  | declaredEmit : CallReplacement settings arguments ("const emit = " ++ settings.emitParam)
  | marker (kind : MacroKind) : CallReplacement settings arguments (settings.marker kind.name)
  | nothing : CallReplacement settings arguments []
  | defaults : CallReplacement settings arguments
      (settings.defaultsHelper ++ "(" ++ settings.propsParam ++ ", " ++
        ((Scan.ofText arguments).arguments.drop 1).headD "\x7b\x7d" ++ ")")

/-- The edit puts a marker in the place of a statement, or replaces a call that it covers. -/
def Edit.HasForm (settings : Settings) (scan : Scan) (edit : Edit) : Prop :=
  (∃ statement, edit.replacement = settings.marker (Text.joinWith " " (Text.words statement))) ∨
  ∃ (kind : MacroKind) (start stop : Nat) (arguments : Text), edit.start = start ∧
    edit.stop = stop ∧ scan.IsCall kind start stop arguments ∧
    CallReplacement settings arguments edit.replacement

namespace Draft

/-- The drafts are of the same script under the same settings. -/
structure SameScript (a b : Draft) : Prop where
  settings : b.settings = a.settings
  source : b.source = a.source
  scan : b.scan = a.scan
  componentName : b.componentName = a.componentName
  strict : b.strict = a.strict

/-- Nothing changes the script. -/
theorem SameScript.refl (draft : Draft) : SameScript draft draft := ⟨rfl, rfl, rfl, rfl, rfl⟩

/-- Being of the same script goes from draft to draft. -/
theorem SameScript.trans {a b c : Draft} (h : SameScript a b) (h' : SameScript b c) :
    SameScript a c :=
  ⟨h'.settings.trans h.settings, h'.source.trans h.source, h'.scan.trans h.scan,
    h'.componentName.trans h.componentName, h'.strict.trans h.strict⟩

/-- The drafts agree on the script, the edits, and what the edits are recorded for. -/
structure Quiet (a b : Draft) : Prop extends SameScript a b where
  edits : b.edits = a.edits
  imports : b.imports = a.imports
  components : b.components = a.components
  results : b.results = a.results

/-- Nothing is recorded where nothing changes. -/
theorem Quiet.refl (draft : Draft) : Quiet draft draft :=
  ⟨SameScript.refl draft, rfl, rfl, rfl, rfl⟩

/-- Recording nothing goes from draft to draft. -/
theorem Quiet.trans {a b c : Draft} (h : Quiet a b) (h' : Quiet b c) : Quiet a c :=
  ⟨h.toSameScript.trans h'.toSameScript, h'.edits.trans h.edits, h'.imports.trans h.imports,
    h'.components.trans h.components, h'.results.trans h.results⟩

/-- Keeping a definition records no edit. -/
theorem quiet_define (draft : Draft) (props emits expose : Option Text) :
    Quiet draft { draft with props := props, emits := emits, expose := expose } :=
  ⟨⟨rfl, rfl, rfl, rfl, rfl⟩, rfl, rfl, rfl, rfl⟩

/-- Logging records no edit. -/
theorem quiet_note (draft : Draft) (level : Int) (message : Text) :
    Quiet draft (draft.note level message) :=
  ⟨⟨rfl, rfl, rfl, rfl, rfl⟩, rfl, rfl, rfl, rfl⟩

/-- Edits and records are in step. -/
structure Sound (draft : Draft) : Prop where
  /-- The scan is that of the source. -/
  scanned : draft.scan = Scan.ofText draft.source
  /-- The edits have valid ranges. -/
  valid : draft.edits.Valid draft.scan
  /-- There is one edit for each record. -/
  counted :
    draft.edits.length = draft.imports.length + draft.components.length + draft.results.length
  /-- Every expanded call has an edit of its own. -/
  calls : ∃ edits, edits.Sublist draft.edits ∧
    List.Forall₂ (MacroResult.Fits draft.scan) draft.results edits
  /-- Every edit puts a marker in the place of a statement or replaces a call. -/
  forms : ∀ edit ∈ draft.edits, edit.HasForm draft.settings draft.scan

/-- A fresh draft is sound. -/
theorem sound_start (settings : Settings) (source : Text) (name : Option Text)
    (strict : Option Bool) : (start settings source name strict).Sound :=
  ⟨rfl, ⟨by simp [start], List.Pairwise.nil⟩, rfl, ⟨[], List.Sublist.refl _, .nil⟩, by simp [start]⟩

namespace Sound

variable {a b : Draft}

/-- A step that records no edit keeps a draft sound. -/
theorem of_quiet (h : a.Sound) (hquiet : Quiet a b) : b.Sound := by
  refine ⟨?_, ?_, ?_, ?_, ?_⟩
  · rw [hquiet.scan, hquiet.source, h.scanned]
  · rw [hquiet.scan, hquiet.edits]
    exact h.valid
  · rw [hquiet.edits, hquiet.imports, hquiet.components, hquiet.results]
    exact h.counted
  · rw [hquiet.scan, hquiet.edits, hquiet.results]
    exact h.calls
  · rw [hquiet.scan, hquiet.edits, hquiet.settings]
    exact h.forms

/-- A step that records a call together with an edit over its extent keeps a draft sound. -/
theorem of_expanded (h : a.Sound) (hsame : SameScript a b) {edit : Edit} {result : MacroResult}
    (hedits : b.edits = a.edits ++ [edit]) (himports : b.imports = a.imports)
    (hcomponents : b.components = a.components) (hresults : b.results = a.results ++ [result])
    (hfits : result.Fits a.scan edit) (hfree : a.edits.overlaps edit.start edit.stop = false)
    (hform : edit.HasForm a.settings a.scan) : b.Sound := by
  obtain ⟨edits, hsub, hcalls⟩ := h.calls
  refine ⟨?_, ?_, ?_, ⟨edits ++ [edit], ?_, ?_⟩, ?_⟩
  · rw [hsame.scan, hsame.source, h.scanned]
  · rw [hsame.scan, hedits]
    exact h.valid.append hfits.within hfree
  · have hcounted := h.counted
    rw [hedits, himports, hcomponents, hresults, List.length_append, List.length_append]
    simp only [List.length_singleton]
    omega
  · rw [hedits]
    exact hsub.append_right [edit]
  · rw [hresults, hsame.scan]
    exact List.rel_append hcalls (.cons hfits .nil)
  · rw [hedits, hsame.scan, hsame.settings]
    exact List.forall_mem_append.mpr ⟨h.forms, List.forall_mem_singleton.mpr hform⟩

/-- A step that records as many imports as it adds valid edits keeps a draft sound. -/
theorem of_hoisted (h : a.Sound) (hsame : SameScript a b) {news : EditList}
    (hedits : b.edits = a.edits ++ news) (hvalid : (a.edits ++ news).Valid a.scan)
    (hresults : b.results = a.results)
    (hcount : b.imports.length + b.components.length =
      a.imports.length + a.components.length + news.length)
    (hforms : ∀ edit ∈ news, edit.HasForm a.settings a.scan) : b.Sound := by
  obtain ⟨edits, hsub, hcalls⟩ := h.calls
  refine ⟨?_, ?_, ?_, ⟨edits, ?_, ?_⟩, ?_⟩
  · rw [hsame.scan, hsame.source, h.scanned]
  · rw [hsame.scan, hedits]
    exact hvalid
  · have hcounted := h.counted
    rw [hedits, hresults, List.length_append]
    omega
  · rw [hedits]
    exact hsub.trans (List.sublist_append_left _ _)
  · rw [hresults, hsame.scan]
    exact hcalls
  · rw [hedits, hsame.scan, hsame.settings]
    exact List.forall_mem_append.mpr ⟨h.forms, hforms⟩

/-- The scan covers the source. -/
theorem length_cells (h : a.Sound) : a.scan.cells.length = a.source.length := by
  rw [h.scanned, Scan.ofText, length_labelFrom]

end Sound

/-! ## Expansions -/

/-- The outcome of an expansion: the draft is still sound, with the imports that it had, and the
error, if there is one, is that of a repeated declaration in strict mode. -/
structure Kept (draft : Draft) (outcome : Outcome) : Prop where
  same : SameScript draft outcome.draft
  sound : outcome.draft.Sound
  imports : outcome.draft.imports = draft.imports
  components : outcome.draft.components = draft.components
  error : outcome.error = none ∨
    draft.strict ∧ ∃ kind position, outcome.error = some (.duplicate kind position)

/-- A step that records no edit is an outcome of this kind. -/
theorem Kept.of_quiet {a b : Draft} (h : a.Sound) (hquiet : Quiet a b) : Kept a ⟨b, none⟩ :=
  ⟨hquiet.toSameScript, h.of_quiet hquiet, hquiet.imports, hquiet.components, .inl rfl⟩

/-- Looking at an outcome from an earlier draft of the same script. -/
theorem Kept.of_earlier {a b : Draft} {outcome : Outcome} (h : Kept b outcome)
    (hsame : SameScript a b) (himports : b.imports = a.imports)
    (hcomponents : b.components = a.components) : Kept a outcome :=
  ⟨hsame.trans h.same, h.sound, h.imports.trans himports, h.components.trans hcomponents,
    hsame.strict ▸ h.error⟩

/-- Going on after a step that kept the draft sound. -/
theorem Kept.andThen {draft : Draft} {outcome : Outcome} {step : Draft → Outcome}
    (h : Kept draft outcome)
    (hstep : ∀ next, SameScript draft next → next.Sound → Kept next (step next)) :
    Kept draft (outcome.andThen step) := by
  unfold Outcome.andThen
  split
  · exact h
  · exact (hstep outcome.draft h.same h.sound).of_earlier h.same h.imports h.components

/-- Going on after a step that recorded no edit. -/
theorem Kept.andThen_of_quiet {draft : Draft} {outcome : Outcome} {step : Draft → Outcome}
    (h : Kept draft outcome) (hquiet : Quiet draft outcome.draft)
    (hstep : ∀ next, Quiet draft next → Kept draft (step next)) :
    Kept draft (outcome.andThen step) := by
  unfold Outcome.andThen
  split
  · exact h
  · exact hstep outcome.draft hquiet

/-- An edit is accepted when its range meets no recorded one. -/
theorem addEdit_of_free {draft : Draft} {start stop : Int} (replacement : Text)
    (hfree : draft.edits.overlaps start stop = false) :
    draft.addEdit start stop replacement =
      ⟨{ draft with edits := draft.edits ++ [⟨start, stop, replacement⟩] }, none⟩ := by
  simp [addEdit, EditList.add, hfree]

/-- A repeated declaration is an error in strict mode and a message otherwise. -/
theorem kept_reportDuplicate {draft : Draft} (h : draft.Sound) (kind : MacroKind) (position : Int) :
    Kept draft (draft.reportDuplicate kind position) := by
  unfold reportDuplicate
  split
  · next hstrict => exact ⟨SameScript.refl draft, h, rfl, rfl, .inr ⟨hstrict, kind, position, rfl⟩⟩
  · exact .of_quiet h (quiet_note _ _ _)

/-- Reporting a repeated declaration records no edit. -/
theorem quiet_reportDuplicate (draft : Draft) (kind : MacroKind) (position : Int) :
    Quiet draft (draft.reportDuplicate kind position).draft := by
  unfold reportDuplicate
  split
  · exact Quiet.refl draft
  · exact quiet_note _ _ _

/-- Looking for a repeated call keeps a draft sound. -/
theorem kept_reportRepeated {draft : Draft} (h : draft.Sound) (call : MacroCall) :
    Kept draft (draft.reportRepeated call) := by
  unfold reportRepeated
  split
  · exact .of_quiet h (Quiet.refl draft)
  · exact kept_reportDuplicate h _ _

/-- A call that may be expanded: it stands in the script and meets no recorded edit. -/
structure Expandable (draft : Draft) (index : Nat) (call : MacroCall) : Prop where
  isCall : draft.scan.IsCall call.kind index call.stop call.arguments
  free : draft.edits.overlaps index call.stop = false

/-- A call at an offset of its name may be expanded unless it holds a recorded edit. -/
theorem expandable_of_callAt {draft : Draft} {kind : MacroKind} {index : Nat} {call : MacroCall}
    (hindex : index ∈ draft.scan.callOffsets kind.name)
    (hcall : draft.scan.callAt index kind = .ok call) (hfree : ¬ draft.holdsEdit call) :
    Expandable draft index call := by
  obtain ⟨hkind, hstart, hisCall⟩ := Scan.callAt_eq_ok hindex hcall
  refine ⟨hkind ▸ hisCall, ?_⟩
  rw [← hstart]
  simpa [holdsEdit] using hfree

/-- Recording a call that may be expanded, with an edit over it, keeps a draft sound. -/
theorem kept_expanded {draft next : Draft} {index : Nat} {call : MacroCall} {replacement : Text}
    {boundName : Option Text} (h : draft.Sound) (hcall : Expandable draft index call)
    (hreplacement : CallReplacement draft.settings call.arguments replacement)
    (hsame : SameScript draft next)
    (hedits : next.edits = draft.edits ++ [⟨index, call.stop, replacement⟩])
    (himports : next.imports = draft.imports) (hcomponents : next.components = draft.components)
    (hresults : next.results = draft.results ++ [⟨call.kind, Text.trim call.arguments, boundName⟩]) :
    Kept draft ⟨next, none⟩ :=
  ⟨hsame, h.of_expanded hsame hedits himports hcomponents hresults
    ⟨index, call.stop, call.arguments, rfl, rfl, hcall.isCall, rfl⟩ hcall.free
    (.inr ⟨call.kind, index, call.stop, call.arguments, rfl, rfl, hcall.isCall, hreplacement⟩),
    himports, hcomponents, .inl rfl⟩

/-- Replacing a call that may be expanded keeps a draft sound. -/
theorem kept_replaceCall {draft defined : Draft} {index : Nat} {call : MacroCall} (h : draft.Sound)
    (hcall : Expandable draft index call) (hquiet : Quiet draft defined) {replacement : Text}
    (hreplacement : CallReplacement draft.settings call.arguments replacement)
    (boundName : Option Text) : Kept draft (defined.replaceCall call index replacement boundName) := by
  have hfree : defined.edits.overlaps index call.stop = false := by rw [hquiet.edits, hcall.free]
  rw [replaceCall, addEdit_of_free _ hfree]
  exact kept_expanded h hcall hreplacement (hquiet.toSameScript.trans ⟨rfl, rfl, rfl, rfl, rfl⟩)
    (congrArg (· ++ _) hquiet.edits) hquiet.imports hquiet.components
    (congrArg (· ++ _) hquiet.results)

/-- A call used as a statement is replaced by a marker or by nothing. -/
theorem callReplacement_bare (draft : Draft) (index : Int) (kind : MacroKind) (arguments : Text) :
    CallReplacement draft.settings arguments (draft.bareReplacement index kind.name) := by
  unfold bareReplacement
  split
  · exact .marker kind
  · exact .nothing

/-- An expansion of the first free call keeps a draft sound when it does so on every call that may
be expanded. -/
theorem kept_onFirstCall {draft : Draft} (h : draft.Sound) (kind : MacroKind)
    {expand : Draft → Nat → MacroCall → Outcome}
    (hexpand : ∀ index call, Expandable draft index call → Kept draft (expand draft index call)) :
    Kept draft (draft.onFirstCall kind expand) := by
  unfold onFirstCall
  split
  · exact .of_quiet h (Quiet.refl draft)
  next index hindex =>
    have hmem : index ∈ draft.scan.callOffsets kind.name := List.mem_of_find?_eq_some hindex
    split
    · exact .of_quiet h (quiet_note _ _ _)
    next call hcall =>
      split
      · exact .of_quiet h (quiet_note _ _ _)
      · next hfree => exact hexpand index call (expandable_of_callAt hmem hcall hfree)

/-- Expanding a `withDefaults` call keeps a draft sound. -/
theorem kept_expandDefaultsCall {draft : Draft} {index : Nat} {call : MacroCall} (h : draft.Sound)
    (hcall : Expandable draft index call) : Kept draft (draft.expandDefaultsCall index call) := by
  unfold expandDefaultsCall
  dsimp only
  split
  · exact .of_quiet h (quiet_note _ _ _)
  · rw [addEdit_of_free]
    · exact kept_expanded h hcall .defaults ⟨rfl, rfl, rfl, rfl, rfl⟩ rfl rfl rfl rfl
    · exact hcall.free

/-- Expanding `withDefaults` calls one after the other keeps a draft sound. -/
theorem kept_expandDefaultsFrom {draft : Draft} (h : draft.Sound) (resume : Nat)
    (offsets : List Nat)
    (hoffsets : ∀ p ∈ offsets, p ∈ draft.scan.callOffsets MacroKind.withDefaults.name) :
    Kept draft (draft.expandDefaultsFrom resume offsets) := by
  induction offsets generalizing draft resume with
  | nil => exact .of_quiet h (Quiet.refl draft)
  | cons index later ih =>
    have hlater : ∀ p ∈ later, p ∈ draft.scan.callOffsets MacroKind.withDefaults.name :=
      fun p hp => hoffsets p (List.mem_cons_of_mem _ hp)
    unfold expandDefaultsFrom
    split
    · exact ih h resume hlater
    split
    · exact .of_quiet h (quiet_note _ _ _)
    next call hcall =>
      split
      · have hquiet : Quiet draft (draft.noteHeld call) := quiet_note _ _ _
        exact (ih (h.of_quiet hquiet) (call.stop + 1) hlater).of_earlier hquiet.toSameScript
          hquiet.imports hquiet.components
      next hfree =>
        have hexpandable :=
          expandable_of_callAt (hoffsets index (List.mem_cons_self ..)) hcall hfree
        refine (kept_expandDefaultsCall h hexpandable).andThen fun next hsame hnext => ?_
        exact ih hnext (call.stop + 1) (by rw [hsame.scan]; exact hlater)

/-- The expansions of the registry keep a draft sound. -/
theorem kept_expansion {draft : Draft} (h : draft.Sound) (pass : Pass) (hpass : pass.isExpansion) :
    Kept draft (pass.run draft) := by
  cases pass with
  | refuse => cases hpass
  | hoist => cases hpass
  | defaults => exact kept_expandDefaultsFrom h 0 _ fun _ hp => hp
  | props =>
    refine kept_onFirstCall h .defineProps fun index call hcall => ?_
    unfold expandPropsCall
    dsimp only
    refine Kept.andThen_of_quiet ?_ ?_ fun current hcurrent => ?_
    · split
      · exact kept_reportDuplicate h _ _
      · exact .of_quiet h (Quiet.refl draft)
    · split
      · exact quiet_reportDuplicate _ _ _
      · exact Quiet.refl draft
    · refine Kept.andThen ?_ fun next _ hnext => kept_reportRepeated hnext call
      have hdefined := hcurrent.trans (quiet_define current (some (call.definition "\x7b\x7d"))
        current.emits current.expose)
      have hsettings : current.settings = draft.settings := hcurrent.settings
      split
      · exact kept_replaceCall h hcall hdefined (hsettings ▸ .props) _
      · exact kept_replaceCall h hcall hdefined
          (hsettings ▸ current.callReplacement_bare index .defineProps call.arguments) _
  | emits =>
    refine kept_onFirstCall h .defineEmits fun index call hcall => ?_
    unfold expandEmitsCall
    dsimp only
    refine Kept.andThen ?_ fun next _ hnext => kept_reportRepeated hnext call
    split
    · exact kept_replaceCall h hcall (quiet_define draft _ _ _) .emit _
    · exact kept_replaceCall h hcall (quiet_define draft _ _ _) .declaredEmit _
  | expose =>
    refine kept_onFirstCall h .defineExpose fun index call hcall => ?_
    exact kept_replaceCall h hcall (quiet_define draft _ _ _)
      (draft.callReplacement_bare index .defineExpose call.arguments) _

/-! ## Hoisting -/

/-- An import statement may be claimed: it starts in code and no recorded edit holds its ends. -/
def MayClaim (draft : Draft) (start stop : Nat) : Prop :=
  draft.scan.isCode start ∧ draft.edits.covers start = false ∧
    draft.edits.covers (stop - 1 : Int) = false

instance (draft : Draft) (start stop : Nat) : Decidable (draft.MayClaim start stop) :=
  inferInstanceAs (Decidable (_ ∧ _ ∧ _))

/-- The edit that puts a marker in the place of an import statement. -/
def markerEdit (draft : Draft) (start stop : Nat) : Edit where
  start := start
  stop := stop - 1
  replacement :=
    draft.settings.marker (Text.joinWith " " (Text.words (draft.source.slice start stop)))

/-- An import statement is passed over, refused or claimed. -/
theorem claim_cases (draft : Draft) (start stop : Nat) :
    ¬ draft.MayClaim start stop ∧ draft.claim start stop = (⟨draft, none⟩, false) ∨
    (draft.MayClaim start stop ∧ draft.edits.overlaps start (stop - 1 : Int) ∧
      draft.claim start stop = (⟨draft, some (.overlap ⟨start, stop - 1⟩)⟩, false)) ∨
    draft.MayClaim start stop ∧ draft.edits.overlaps start (stop - 1 : Int) = false ∧
      draft.claim start stop =
        (⟨{ draft with edits := draft.edits ++ [draft.markerEdit start stop] }, none⟩, true) := by
  unfold claim
  split
  · next hfree =>
    have hmay : draft.MayClaim start stop := by
      simpa [MayClaim, Bool.and_eq_true, and_assoc] using hfree
    cases hoverlaps : draft.edits.overlaps start (stop - 1 : Int) with
    | true => exact .inr (.inl ⟨hmay, rfl, by simp [addEdit, EditList.add, hoverlaps]⟩)
    | false => exact .inr (.inr ⟨hmay, rfl, by simp only [addEdit_of_free _ hoverlaps]; rfl⟩)
  · next hfree =>
    refine .inl ⟨fun hmay => hfree ?_, rfl⟩
    simpa [MayClaim, Bool.and_eq_true, and_assoc] using hmay

/-- Claiming import statements adds valid edits, markers all of them, one for each that is hoisted, up
to a refusal. -/
theorem claimAll_cases (draft : Draft) (founds : List (Text.Match Hoisted))
    (hbounds : ∀ found ∈ founds, found.start < found.stop ∧ found.stop ≤ draft.scan.cells.length)
    (hvalid : draft.edits.Valid draft.scan) :
    ∃ news, (draft.claimAll founds).1.draft = { draft with edits := draft.edits ++ news } ∧
      (draft.edits ++ news).Valid draft.scan ∧
      (∀ edit ∈ news, edit.HasForm draft.settings draft.scan) ∧
      ((draft.claimAll founds).1.error = none ∧ (draft.claimAll founds).2.length = news.length ∨
        ∃ range, (draft.claimAll founds).1.error = some (.overlap range)) := by
  induction founds generalizing draft with
  | nil => exact ⟨[], by simp [claimAll], by simpa using hvalid, by simp, .inl ⟨rfl, rfl⟩⟩
  | cons found rest ih =>
    have hrest : ∀ later ∈ rest, later.start < later.stop ∧ later.stop ≤ draft.scan.cells.length :=
      fun later hlater => hbounds later (List.mem_cons_of_mem _ hlater)
    rcases draft.claim_cases found.start found.stop with ⟨-, hskip⟩ | ⟨-, -, hrefused⟩ |
      ⟨hmay, hfree, hclaimed⟩
    · simp only [claimAll, hskip]
      exact ih draft hrest hvalid
    · simp only [claimAll, hrefused]
      exact ⟨[], by simp, by simpa using hvalid, by simp, .inr ⟨_, rfl⟩⟩
    · have hfound := hbounds found (List.mem_cons_self ..)
      have hwithin : Edit.Within draft.scan (draft.markerEdit found.start found.stop) :=
        ⟨by simp [markerEdit], by simp only [markerEdit]; omega, by simp only [markerEdit]; omega,
          by simpa [Scan.isCodeAt, markerEdit] using hmay.1⟩
      let next : Draft :=
        { draft with edits := draft.edits ++ [draft.markerEdit found.start found.stop] }
      obtain ⟨news, hdraft, hnews, hforms, hend⟩ := ih next hrest (hvalid.append hwithin hfree)
      have hedits : next.edits ++ news =
          draft.edits ++ draft.markerEdit found.start found.stop :: news := by simp [next]
      rw [hedits] at hdraft hnews
      simp only [claimAll, hclaimed]
      refine ⟨draft.markerEdit found.start found.stop :: news, hdraft, hnews,
        List.forall_mem_cons.mpr ⟨.inl ⟨_, rfl⟩, hforms⟩, ?_⟩
      rcases hend with ⟨herror, hlength⟩ | hrefused
      · exact .inl ⟨herror, congrArg (· + 1) hlength⟩
      · exact .inr hrefused

/-- The draft after everything claimed has been recorded. -/
def hoistAll (draft : Draft) (items : List (Nat × Hoisted)) : Draft :=
  items.foldl (fun current item => current.hoist item.2) draft

/-- Recording what is hoisted touches neither script, edits nor results, and adds one record each. -/
theorem hoistAll_frame (items : List (Nat × Hoisted)) (draft : Draft) :
    SameScript draft (draft.hoistAll items) ∧ (draft.hoistAll items).edits = draft.edits ∧
      (draft.hoistAll items).results = draft.results ∧
      (draft.hoistAll items).imports.length + (draft.hoistAll items).components.length =
        draft.imports.length + draft.components.length + items.length := by
  induction items generalizing draft with
  | nil => exact ⟨SameScript.refl draft, rfl, rfl, rfl⟩
  | cons item rest ih =>
    obtain ⟨hsame, hedits, hresults, hcount⟩ := ih (draft.hoist item.2)
    have hstep : SameScript draft (draft.hoist item.2) ∧ (draft.hoist item.2).edits = draft.edits ∧
        (draft.hoist item.2).results = draft.results ∧
        (draft.hoist item.2).imports.length + (draft.hoist item.2).components.length =
          draft.imports.length + draft.components.length + 1 := by
      cases item.2 with
      | module record => exact ⟨⟨rfl, rfl, rfl, rfl, rfl⟩, rfl, rfl, by simp [hoist]; omega⟩
      | component component => exact ⟨⟨rfl, rfl, rfl, rfl, rfl⟩, rfl, rfl, by simp [hoist]; omega⟩
    obtain ⟨hsame', hedits', hresults', hcount'⟩ := hstep
    refine ⟨hsame'.trans hsame, hedits.trans hedits', hresults.trans hresults', ?_⟩
    rw [List.length_cons]
    exact hcount.trans (by omega)

/-- The import statements of a sound draft lie in its scan. -/
theorem Sound.importMatches_bounds {draft : Draft} (h : draft.Sound) :
    ∀ found ∈ importMatches draft.settings.componentExtension draft.source,
      found.start < found.stop ∧ found.stop ≤ draft.scan.cells.length := by
  rw [h.length_cells]
  exact fun found hfound => SetupScript.importMatches_bounds hfound

/-- Hoisting is refused an edit, or records what was claimed, in the order of the source, with one
valid edit for each record. -/
theorem hoistImports_run {draft : Draft} (h : draft.Sound) :
    (∃ range, draft.hoistImports.error = some (.overlap range)) ∨
    ∃ news hoisted message,
      (draft.edits ++ news).Valid draft.scan ∧ hoisted.length = news.length ∧
      (∀ edit ∈ news, edit.HasForm draft.settings draft.scan) ∧
      (∀ item ∈ hoisted, item ∈
        (draft.claimAll (importMatches draft.settings.componentExtension draft.source)).2) ∧
      draft.hoistImports =
        ⟨(hoistAll { draft with edits := draft.edits ++ news } hoisted).note 2 message, none⟩ := by
  obtain ⟨news, hdraft, hnews, hforms, ⟨herror, hlength⟩ | ⟨range, herror⟩⟩ :=
    claimAll_cases draft _ h.importMatches_bounds h.valid
  · right
    obtain ⟨⟨⟨claimed, error⟩, hoisted⟩, hclaimed⟩ :
        ∃ result, draft.claimAll (importMatches draft.settings.componentExtension draft.source) =
          result := ⟨_, rfl⟩
    rw [hclaimed] at hdraft herror hlength ⊢
    obtain rfl : error = none := herror
    obtain rfl : claimed = { draft with edits := draft.edits ++ news } := hdraft
    obtain ⟨message, hrun⟩ : ∃ message, draft.hoistImports =
        ⟨(hoistAll { draft with edits := draft.edits ++ news }
          (hoisted.mergeSort fun a b => a.1 ≤ b.1)).note 2 message, none⟩ :=
      ⟨_, by rw [hoistImports, hclaimed]; rfl⟩
    exact ⟨news, hoisted.mergeSort fun a b => a.1 ≤ b.1, message, hnews,
      by rw [List.length_mergeSort, hlength], hforms, fun item hitem => List.mem_mergeSort.mp hitem, hrun⟩
  · exact .inl ⟨range, by simp [hoistImports, Outcome.andThen, herror]⟩

/-- Hoisting keeps a draft sound unless an edit is refused. -/
theorem hoistImports_cases {draft : Draft} (h : draft.Sound) :
    (∃ range, draft.hoistImports.error = some (.overlap range)) ∨
      draft.hoistImports.error = none ∧ SameScript draft draft.hoistImports.draft ∧
        draft.hoistImports.draft.Sound := by
  refine (hoistImports_run h).imp_right ?_
  rintro ⟨news, hoisted, message, hnews, hlength, hforms, -, hrun⟩
  obtain ⟨hsame, hedits, hresults, hcount⟩ :=
    hoistAll_frame hoisted { draft with edits := draft.edits ++ news }
  rw [hlength] at hcount
  have hscript : SameScript draft _ :=
    ⟨hsame.settings, hsame.source, hsame.scan, hsame.componentName, hsame.strict⟩
  have hnote := quiet_note (hoistAll { draft with edits := draft.edits ++ news } hoisted) 2 message
  rw [hrun]
  exact ⟨rfl, hscript.trans hnote.toSameScript,
    (h.of_hoisted hscript hedits hnews hresults hcount hforms).of_quiet hnote⟩

/-! ## Any sequence of passes -/

/-- A pass that is refused no edit keeps a draft sound, whatever error it ends in. -/
theorem sound_pass {draft : Draft} (h : draft.Sound) (pass : Pass)
    (hfree : ∀ range, (pass.run draft).error ≠ some (.overlap range)) :
    SameScript draft (pass.run draft).draft ∧ (pass.run draft).draft.Sound := by
  by_cases hpass : pass.isExpansion
  · have hkept := kept_expansion h pass hpass
    exact ⟨hkept.same, hkept.sound⟩
  cases pass with
  | refuse =>
    have hquiet : Quiet draft (Pass.refuse.run draft).draft := by
      simp only [Pass.run, refuseUnsupported]
      split
      · exact quiet_note _ _ _
      · exact Quiet.refl draft
    exact ⟨hquiet.toSameScript, h.of_quiet hquiet⟩
  | hoist =>
    rcases hoistImports_cases h with ⟨range, hrefused⟩ | ⟨-, hkept⟩
    · exact absurd hrefused (hfree range)
    · exact hkept
  | defaults | props | emits | expose => exact absurd rfl hpass

/-- The drafts that passes over a fresh draft lead to, in any order and any number, as long as none
is refused an edit. A pass that ends in another error leaves its draft to the next one. -/
inductive Reachable (settings : Settings) (source : Text) (name : Option Text)
    (strict : Option Bool) : Draft → Prop
  | start : Reachable settings source name strict (start settings source name strict)
  | step {draft : Draft} (pass : Pass) (h : Reachable settings source name strict draft)
      (hfree : ∀ range, (pass.run draft).error ≠ some (.overlap range)) :
      Reachable settings source name strict (pass.run draft).draft

/-- Every reachable draft is sound and of the script that it started with. -/
theorem Reachable.sound {settings : Settings} {source : Text} {name : Option Text}
    {strict : Option Bool} {draft : Draft} (h : Reachable settings source name strict draft) :
    SameScript (Draft.start settings source name strict) draft ∧ draft.Sound := by
  induction h with
  | start => exact ⟨SameScript.refl _, sound_start settings source name strict⟩
  | step pass _ hfree ih =>
    obtain ⟨hsame, hsound⟩ := sound_pass ih.2 pass hfree
    exact ⟨ih.1.trans hsame, hsound⟩

/-- An expansion leads from one reachable draft to another, since it is refused no edit. -/
theorem Reachable.expand {settings : Settings} {source : Text} {name : Option Text}
    {strict : Option Bool} {draft : Draft} (h : Reachable settings source name strict draft)
    (pass : Pass) (hpass : pass.isExpansion) :
    Reachable settings source name strict (pass.run draft).draft := by
  refine .step pass h fun range hrefused => ?_
  rcases (kept_expansion h.sound.2 pass hpass).error with herror | ⟨-, kind, position, herror⟩
  · rw [hrefused] at herror
    cases herror
  · rw [hrefused] at herror
    cases herror

/-- On every reachable draft the edits are apart, lie in the source and start in code; there is one
for each import, component file and expanded call, and each expanded call has one of its own, which
starts with the name of the macro and ends where the argument list is closed. A further expansion
fails only on a repeated declaration, and only in strict mode. -/
theorem edits_in_step_of_reachable (settings : Settings) (source : Text) (name : Option Text)
    (strict : Option Bool) (draft : Draft) (h : Reachable settings source name strict draft) :
    draft.edits.Pairwise Edit.Apart ∧
    (∀ edit ∈ draft.edits, 0 ≤ edit.start ∧ edit.start ≤ edit.stop ∧ edit.stop < source.length ∧
      (Scan.ofText source).isCodeAt edit.start) ∧
    draft.edits.length = draft.imports.length + draft.components.length + draft.results.length ∧
    (∃ edits, edits.Sublist draft.edits ∧
      List.Forall₂ (MacroResult.Fits (Scan.ofText source)) draft.results edits) ∧
    ∀ pass : Pass, pass.isExpansion → (pass.run draft).error = none ∨
      strict.getD settings.strictMode = true ∧
        ∃ kind position, (pass.run draft).error = some (.duplicate kind position) := by
  obtain ⟨hsame, hsound⟩ := h.sound
  have hsource : draft.source = source := hsame.source
  have hscan : draft.scan = Scan.ofText source := hsame.scan
  refine ⟨hsound.valid.apart, fun edit hedit => ?_, hsound.counted, ?_, fun pass hpass => ?_⟩
  · have hwithin := hsound.valid.within edit hedit
    have hlength := hsound.length_cells
    rw [hsource] at hlength
    refine ⟨hwithin.nonneg, hwithin.ordered, ?_, hscan ▸ hwithin.code⟩
    have hinside := hwithin.inside
    omega
  · rw [← hscan]
    exact hsound.calls
  · have herror := (kept_expansion hsound pass hpass).error
    rw [show draft.strict = strict.getD settings.strictMode from hsame.strict] at herror
    exact herror

/-- The draft with its import statements recorded in the order in which they are claimed. -/
def claimedInOrder (draft : Draft) : Draft :=
  let claimed := draft.claimAll (importMatches draft.settings.componentExtension draft.source)
  let filled := claimed.2.foldl (fun current item => current.hoist item.2) claimed.1.draft
  filled.note 2 ("Hoisted " ++ Text.ofNat filled.imports.length ++ " imports, " ++
    Text.ofNat filled.components.length ++ " components")

/-- Import statements that are claimed in the order of the source are hoisted without any sorting. -/
theorem Reachable.claimedInOrder {settings : Settings} {source : Text} {name : Option Text}
    {strict : Option Bool} {draft : Draft} (h : Reachable settings source name strict draft)
    (herror : (draft.claimAll
      (importMatches draft.settings.componentExtension draft.source)).1.error = none)
    (hordered : (draft.claimAll
      (importMatches draft.settings.componentExtension draft.source)).2.Pairwise fun a b => a.1 ≤ b.1) :
    Reachable settings source name strict draft.claimedInOrder := by
  have hhoisted : Pass.hoist.run draft = ⟨draft.claimedInOrder, none⟩ := by
    have hsorted := List.mergeSort_of_pairwise (hordered.imp fun hle => decide_eq_true hle)
    simp only [Pass.run, hoistImports, Draft.claimedInOrder, Outcome.andThen, herror, hsorted]
  have hstep := Reachable.step .hoist h
  rw [hhoisted] at hstep
  exact hstep fun range hrefused => by cases hrefused

/-- A script with an import that declares its events twice. -/
def repeatedEmits : Text := "import a from 'b'\nconst e = defineEmits(['s'])\ndefineEmits([])"

/-- In strict mode, with the import hoisted, expanding the events fails on the second declaration. What
was imported and the first declaration are recorded all the same, each with its edit, and edits and
records are in step. -/
theorem edits_in_step_after_repeated_emits :
    let expanded := Pass.emits.run (start {} repeatedEmits none (some true)).claimedInOrder
    (expanded.error = some (.duplicate .defineEmits 47) ∧
      expanded.draft.edits = [⟨0, 16, "// [extracted] import a from 'b'"⟩, ⟨28, 45, "__emit__"⟩] ∧
      expanded.draft.imports = [⟨.whole "a", "b"⟩] ∧
      expanded.draft.results = [⟨.defineEmits, "['s']", some "e"⟩]) ∧
    Reachable {} repeatedEmits none (some true) expanded.draft ∧
      expanded.draft.edits.Pairwise Edit.Apart ∧
      expanded.draft.edits.length = expanded.draft.imports.length + expanded.draft.components.length +
        expanded.draft.results.length := by
  have hexpand (draft : Draft) (h : Reachable {} repeatedEmits none (some true) draft) :
      Reachable {} repeatedEmits none (some true) (Pass.emits.run draft).draft ∧
        (Pass.emits.run draft).draft.edits.Pairwise Edit.Apart ∧
        (Pass.emits.run draft).draft.edits.length = (Pass.emits.run draft).draft.imports.length +
          (Pass.emits.run draft).draft.components.length + (Pass.emits.run draft).draft.results.length := by
    have hreachable := h.expand .emits rfl
    have hkept := edits_in_step_of_reachable _ _ _ _ _ hreachable
    exact ⟨hreachable, hkept.1, hkept.2.2.1⟩
  refine ⟨by decide +kernel, hexpand _ ?_⟩
  exact Reachable.start.claimedInOrder (by decide +kernel) (by decide +kernel)

end Draft

end SetupScript
