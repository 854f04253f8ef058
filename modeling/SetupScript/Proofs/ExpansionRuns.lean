import SetupScript.Proofs.ArgumentTexts
import SetupScript.Proofs.ErrorContract
import SetupScript.Proofs.HoistedImports

/-!
# What the expansions do to a draft

Each expansion as an equation between drafts. The `withDefaults` pass rewrites a list of calls, one
after the other, and keeps the definition of the first where there was none before. The other three
passes work on one call at most, the first that no edit has taken; the one after it is reported.
Together they give the stages that a compilation goes through.
-/

namespace SetupScript

/-- Steps may be taken together. -/
theorem Outcome.andThen_assoc (outcome : Outcome) (step later : Draft → Outcome) :
    (outcome.andThen step).andThen later = outcome.andThen fun next => (step next).andThen later := by
  obtain ⟨draft, _ | error⟩ := outcome <;> rfl

/-- An error is that of the first step or that of the next. -/
theorem Outcome.error_andThen {outcome : Outcome} {step : Draft → Outcome} {error : CompileError} :
    (outcome.andThen step).error = some error ↔
      outcome.error = some error ∨ outcome.error = none ∧ (step outcome.draft).error = some error := by
  obtain ⟨draft, _ | failed⟩ := outcome
  · simp [Outcome.andThen]
  · simp [Outcome.andThen]

/-- A step that does nothing. -/
theorem Outcome.andThen_done (outcome : Outcome) : outcome.andThen (⟨·, none⟩) = outcome := by
  obtain ⟨draft, _ | error⟩ := outcome <;> rfl

namespace Draft

variable {draft : Draft} {kind : MacroKind} {index : Nat} {call : MacroCall}

/-! ## The call that a pass works on -/

/-- The next call of a macro is one of the script that no edit has taken. -/
theorem of_nextCall? {name : Text} {offset : Int} {p : Nat} (h : draft.nextCall? name offset = some p) :
    p ∈ draft.scan.callOffsets name ∧ offset ≤ p ∧ draft.edits.covers p = false := by
  have hfree := List.find?_some h
  simp only [Bool.and_eq_true, decide_eq_true_eq, Bool.not_eq_true'] at hfree
  exact ⟨List.mem_of_find?_eq_some h, hfree⟩

/-- The call that an expansion works on: the first of the macro that no edit has taken, if it is well
formed and holds no expanded call. -/
def firstCall? (draft : Draft) (kind : MacroKind) : Option (Nat × MacroCall) :=
  match draft.nextCall? kind.name 0 with
  | none => none
  | some index =>
    match draft.scan.callAt index kind with
    | .error _ => none
    | .ok call => if draft.holdsEdit call then none else some (index, call)

/-- That call is the first one that is free, and meets no edit. -/
theorem firstCall?_eq_some : draft.firstCall? kind = some (index, call) ↔
    draft.nextCall? kind.name 0 = some index ∧ draft.scan.callAt index kind = .ok call ∧
      draft.holdsEdit call = false := by
  unfold firstCall?
  cases hnext : draft.nextCall? kind.name 0 with
  | none => simp
  | some found =>
    simp only [Option.some.injEq]
    cases hread : draft.scan.callAt found kind with
    | error fault =>
      simp only [reduceCtorEq, false_iff]
      rintro ⟨rfl, hcall, -⟩
      rw [hread] at hcall
      cases hcall
    | ok other =>
      dsimp only
      cases hholds : draft.holdsEdit other with
      | true =>
        simp only [if_true, reduceCtorEq, false_iff]
        rintro ⟨rfl, hcall, hfree⟩
        obtain rfl := Except.ok.inj (hread.symm.trans hcall)
        rw [hholds] at hfree
        cases hfree
      | false =>
        simp only [Bool.false_eq_true, if_false, Option.some.injEq, Prod.mk.injEq]
        constructor
        · rintro ⟨rfl, rfl⟩
          exact ⟨rfl, hread, hholds⟩
        · rintro ⟨rfl, hcall, -⟩
          exact ⟨rfl, Except.ok.inj (hread.symm.trans hcall)⟩

/-- The call that a pass works on stands in the script and may be expanded. -/
theorem of_firstCall? (h : draft.firstCall? kind = some (index, call)) :
    index ∈ draft.scan.callOffsets kind.name ∧ draft.edits.covers index = false ∧ call.kind = kind ∧
      Expandable draft index call := by
  obtain ⟨hnext, hcall, hfree⟩ := firstCall?_eq_some.mp h
  obtain ⟨hmem, -, huncovered⟩ := of_nextCall? hnext
  exact ⟨hmem, huncovered, (Scan.callAt_eq_ok hmem hcall).1,
    expandable_of_callAt hmem hcall (by simp [hfree])⟩

/-- A pass logs a message at most, or it expands the call that it works on. -/
theorem onFirstCall_cases (draft : Draft) (kind : MacroKind)
    (expand : Draft → Nat → MacroCall → Outcome) :
    (draft.firstCall? kind = none ∧
      ∃ journal, draft.onFirstCall kind expand = ⟨{ draft with journal := journal }, none⟩) ∨
    ∃ index call, draft.firstCall? kind = some (index, call) ∧
      draft.onFirstCall kind expand = expand draft index call := by
  unfold onFirstCall firstCall?
  cases draft.nextCall? kind.name 0 with
  | none => exact .inl ⟨rfl, draft.journal, rfl⟩
  | some index =>
    dsimp only
    cases draft.scan.callAt index kind with
    | error fault => exact .inl ⟨rfl, _, rfl⟩
    | ok call =>
      dsimp only
      cases draft.holdsEdit call with
      | true => exact .inl ⟨rfl, _, rfl⟩
      | false => exact .inr ⟨index, call, rfl, rfl⟩

/-! ## `withDefaults` -/

end Draft

/-- A `withDefaults` call that is rewritten, with the props definition that it carries. -/
structure Rewrite where
  index : Nat
  call : MacroCall
  definition : Text

namespace Rewrite

/-- The defaults that the call gives. -/
def defaults (rewrite : Rewrite) : Text :=
  ((Scan.ofText rewrite.call.arguments).arguments.drop 1).headD "\x7b\x7d"

/-- The edit that takes the place of the call. -/
def edit (settings : Settings) (rewrite : Rewrite) : Edit where
  start := rewrite.index
  stop := rewrite.call.stop
  replacement :=
    settings.defaultsHelper ++ "(" ++ settings.propsParam ++ ", " ++ rewrite.defaults ++ ")"

/-- What is recorded of the call. -/
def result (draft : Draft) (rewrite : Rewrite) : MacroResult where
  kind := .withDefaults
  rawArguments := Text.trim rewrite.call.arguments
  boundName := (draft.declarationBefore? rewrite.index).map Declaration.target

/-- The call stands in the script and carries the definition. -/
structure Valid (scan : Scan) (rewrite : Rewrite) : Prop where
  called : rewrite.index ∈ scan.callOffsets MacroKind.withDefaults.name
  read : scan.callAt rewrite.index .withDefaults = .ok rewrite.call
  carries : propsDefinition? ((Scan.ofText rewrite.call.arguments).arguments.headD []) =
    some rewrite.definition

/-- A call that is rewritten is one of the script. -/
theorem Valid.isCall {scan : Scan} {rewrite : Rewrite} (h : rewrite.Valid scan) :
    scan.IsCall .withDefaults rewrite.index rewrite.call.stop rewrite.call.arguments :=
  (Scan.callAt_eq_ok h.called h.read).2.2

end Rewrite

namespace Draft

variable {draft : Draft} {kind : MacroKind} {index : Nat} {call : MacroCall}

/-- The draft after calls have been rewritten. The first definition is kept where there is none. -/
def rewritten (draft : Draft) (rewrites : List Rewrite) (journal : Journal) : Draft :=
  { draft with
    edits := draft.edits ++ rewrites.map (Rewrite.edit draft.settings)
    results := draft.results ++ rewrites.map (Rewrite.result draft)
    props := draft.props.or (rewrites.head?.map Rewrite.definition)
    defaultsUsed := draft.defaultsUsed || !rewrites.isEmpty
    journal := journal }

/-- To log a message is to rewrite no call. -/
theorem rewritten_nil (draft : Draft) (journal : Journal) :
    (⟨{ draft with journal := journal }, none⟩ : Outcome) = ⟨draft.rewritten [] journal, none⟩ := by
  simp [rewritten]

/-- Rewriting some calls and then others rewrites all of them. -/
theorem rewritten_rewritten (draft : Draft) (rewrites later : List Rewrite)
    (journal journal' : Journal) :
    (draft.rewritten rewrites journal).rewritten later journal' =
      draft.rewritten (rewrites ++ later) journal' := by
  have hprops : (draft.props.or (rewrites.head?.map Rewrite.definition)).or
        (later.head?.map Rewrite.definition) =
      draft.props.or ((rewrites ++ later).head?.map Rewrite.definition) := by
    rw [Option.or_assoc, List.head?_append, Option.map_or]
  have hused : ((draft.defaultsUsed || !rewrites.isEmpty) || !later.isEmpty) =
      (draft.defaultsUsed || !(rewrites ++ later).isEmpty) := by
    cases rewrites <;> simp
  have hresults : later.map (Rewrite.result (draft.rewritten rewrites journal)) =
      later.map (Rewrite.result draft) := rfl
  simp only [rewritten] at hresults ⊢
  rw [hprops, hused, hresults, List.append_assoc, List.append_assoc, List.map_append, List.map_append]

/-- A `withDefaults` call that may be expanded is passed over if its first argument carries no definition
of the props, and rewritten otherwise. -/
theorem expandDefaultsCall_cases (hmem : index ∈ draft.scan.callOffsets MacroKind.withDefaults.name)
    (hcall : draft.scan.callAt index .withDefaults = .ok call) (hfree : ¬ draft.holdsEdit call) :
    (propsDefinition? ((Scan.ofText call.arguments).arguments.headD []) = none ∧
      ∃ journal, draft.expandDefaultsCall index call = ⟨draft.rewritten [] journal, none⟩) ∨
    ∃ definition journal,
      propsDefinition? ((Scan.ofText call.arguments).arguments.headD []) = some definition ∧
      draft.expandDefaultsCall index call = ⟨draft.rewritten [⟨index, call, definition⟩] journal, none⟩ := by
  have hexpandable := expandable_of_callAt hmem hcall hfree
  have hkind := (Scan.callAt_eq_ok hmem hcall).1
  unfold expandDefaultsCall
  dsimp only
  split
  · next hnone => exact .inl ⟨hnone, _, rewritten_nil draft _⟩
  · next definition hdefinition =>
    have hprops : some (draft.props.getD definition) = draft.props.or (some definition) := by
      cases draft.props <;> rfl
    refine .inr ⟨definition, draft.journal ++
        [⟨3, "Rewrote " ++ MacroKind.withDefaults.name ++ " at offset " ++ Text.ofNat index⟩],
      hdefinition, ?_⟩
    rw [addEdit_of_free _ (by exact hexpandable.free), hkind, hprops]
    simp [Outcome.andThen, record, note, rewritten, Rewrite.edit, Rewrite.defaults, Rewrite.result]

/-- A `withDefaults` call that may be expanded is passed over or rewritten. -/
theorem expandDefaultsCall_run (hmem : index ∈ draft.scan.callOffsets MacroKind.withDefaults.name)
    (hcall : draft.scan.callAt index .withDefaults = .ok call) (hfree : ¬ draft.holdsEdit call) :
    ∃ rewrites journal, (∀ rewrite ∈ rewrites, rewrite.Valid draft.scan) ∧
      (rewrites.map Rewrite.index).Sublist [index] ∧
      draft.expandDefaultsCall index call = ⟨draft.rewritten rewrites journal, none⟩ := by
  rcases expandDefaultsCall_cases hmem hcall hfree with ⟨-, journal, hrun⟩ |
    ⟨definition, journal, hdefinition, hrun⟩
  · exact ⟨[], journal, by simp, by simp, hrun⟩
  · exact ⟨[⟨index, call, definition⟩], journal,
      List.forall_mem_singleton.mpr ⟨hmem, hcall, hdefinition⟩, by simp, hrun⟩

/-- Expanding `withDefaults` calls one after the other rewrites some of them, in order. -/
theorem expandDefaultsFrom_run (draft : Draft) (resume : Nat) (offsets : List Nat)
    (hoffsets : ∀ p ∈ offsets, p ∈ draft.scan.callOffsets MacroKind.withDefaults.name) :
    ∃ rewrites journal, (∀ rewrite ∈ rewrites, rewrite.Valid draft.scan) ∧
      (rewrites.map Rewrite.index).Sublist offsets ∧
      draft.expandDefaultsFrom resume offsets = ⟨draft.rewritten rewrites journal, none⟩ := by
  induction offsets generalizing draft resume with
  | nil => exact ⟨[], draft.journal, by simp, by simp, rewritten_nil draft _⟩
  | cons index later ih =>
    obtain ⟨hindex, hlater⟩ := List.forall_mem_cons.mp hoffsets
    unfold expandDefaultsFrom
    split
    · obtain ⟨rewrites, journal, hvalid, hsub, hrun⟩ := ih draft resume hlater
      exact ⟨rewrites, journal, hvalid, hsub.cons index, hrun⟩
    split
    · exact ⟨[], _, by simp, by simp, rewritten_nil draft _⟩
    next call hcall =>
      split
      · obtain ⟨rewrites, journal, hvalid, hsub, hrun⟩ :=
          ih (draft.noteHeld call) (call.stop + 1) hlater
        exact ⟨rewrites, journal, hvalid, hsub.cons index, hrun⟩
      next hfree =>
        obtain ⟨rewrites, journal, hvalid, hsub, hrun⟩ := expandDefaultsCall_run hindex hcall hfree
        obtain ⟨rewrites', journal', hvalid', hsub', hrun'⟩ :=
          ih (draft.rewritten rewrites journal) (call.stop + 1) hlater
        refine ⟨rewrites ++ rewrites', journal',
          List.forall_mem_append.mpr ⟨hvalid, hvalid'⟩, ?_, ?_⟩
        · rw [List.map_append]
          exact hsub.append hsub'
        · rw [hrun, ← rewritten_rewritten draft rewrites rewrites' journal journal', ← hrun']
          rfl

/-- The `withDefaults` pass rewrites calls of the script, in order. -/
theorem expandDefaults_run (draft : Draft) :
    ∃ rewrites journal, (∀ rewrite ∈ rewrites, rewrite.Valid draft.scan) ∧
      (rewrites.map Rewrite.index).Pairwise (· < ·) ∧
      draft.expandDefaults = ⟨draft.rewritten rewrites journal, none⟩ := by
  obtain ⟨rewrites, journal, hvalid, hsub, hrun⟩ :=
    draft.expandDefaultsFrom_run 0 (draft.scan.callOffsets MacroKind.withDefaults.name) fun _ hp => hp
  exact ⟨rewrites, journal, hvalid, (pairwise_callOffsetsFrom _ none 0 draft.scan.cells).sublist hsub, hrun⟩

/-! ## The other macros -/

/-- The draft after a call has been replaced and recorded. -/
def expanded (draft : Draft) (index : Nat) (call : MacroCall) (replacement : Text)
    (boundName : Option Text) (journal : Journal) : Draft :=
  { draft with
    edits := draft.edits ++ [⟨index, call.stop, replacement⟩]
    results := draft.results ++ [⟨call.kind, Text.trim call.arguments, boundName⟩]
    journal := journal }

/-- Replacing a call that meets no edit records it. -/
theorem replaceCall_run (draft : Draft) (index : Nat) (call : MacroCall)
    (hfree : draft.edits.overlaps index call.stop = false) (replacement : Text)
    (boundName : Option Text) :
    ∃ journal, draft.replaceCall call index replacement boundName =
      ⟨draft.expanded index call replacement boundName journal, none⟩ :=
  ⟨_, by rw [replaceCall, addEdit_of_free _ hfree]; rfl⟩

/-- The edit over a call leaves the calls after it as they are. -/
theorem nextCall?_expanded (draft : Draft) (index : Nat) (call : MacroCall) (replacement : Text)
    (boundName : Option Text) (journal : Journal) (name : Text) :
    (draft.expanded index call replacement boundName journal).nextCall? name (call.stop + 1) =
      draft.nextCall? name (call.stop + 1) := by
  unfold nextCall? expanded
  refine congrArg (List.find? · _) (funext fun p => ?_)
  rw [EditList.covers_append]
  by_cases hp : (call.stop : Int) + 1 ≤ p
  · have hafter : ¬ (p : Int) ≤ call.stop := by omega
    simp [hp, hafter]
  · simp [hp]

/-- After a call has been expanded, the next one of its macro is an error in strict mode and a message
otherwise. -/
theorem reportRepeated_expanded (draft : Draft) (index : Nat) (call : MacroCall) (replacement : Text)
    (boundName : Option Text) (journal : Journal) :
    (draft.strict = true ∧ ∃ p, draft.nextCall? call.kind.name (call.stop + 1) = some p ∧
      (draft.expanded index call replacement boundName journal).reportRepeated call =
        ⟨draft.expanded index call replacement boundName journal, some (.duplicate call.kind p)⟩) ∨
    (draft.strict = true → draft.nextCall? call.kind.name (call.stop + 1) = none) ∧
      ∃ journal', (draft.expanded index call replacement boundName journal).reportRepeated call =
        ⟨draft.expanded index call replacement boundName journal', none⟩ := by
  have hstrict : (draft.expanded index call replacement boundName journal).strict = draft.strict := rfl
  rw [reportRepeated, nextCall?_expanded]
  cases hnext : draft.nextCall? call.kind.name (call.stop + 1) with
  | none => exact .inr ⟨fun _ => rfl, journal, rfl⟩
  | some p =>
    dsimp only
    rw [reportDuplicate, hstrict]
    by_cases hmode : draft.strict
    · rw [if_pos hmode]
      exact .inl ⟨hmode, p, rfl, rfl⟩
    · rw [if_neg hmode]
      exact .inr ⟨fun h => absurd h hmode, _, rfl⟩

/-- Where there is no definition yet, that of the call is taken. -/
theorem expandPropsCall_of_undefined (hprops : draft.props = none)
    (hfree : draft.edits.overlaps index call.stop = false) :
    ∃ replacement boundName journal, draft.expandPropsCall index call =
      ({ draft with props := some (call.definition "\x7b\x7d") }.expanded index call replacement
        boundName journal).reportRepeated call := by
  rw [expandPropsCall, if_neg (by simp [hprops])]
  cases hbefore : draft.declarationBefore? index with
  | some declaration =>
    let bound := if declaration.isPattern then none else some declaration.target
    obtain ⟨journal, hrun⟩ := replaceCall_run
      { draft with props := some (call.definition "\x7b\x7d") } index call hfree
      draft.settings.propsParam bound
    exact ⟨draft.settings.propsParam, bound, journal, by simp only [Outcome.andThen, hbefore, bound, hrun]⟩
  | none =>
    let replacement := draft.bareReplacement index MacroKind.defineProps.name
    obtain ⟨journal, hrun⟩ := replaceCall_run
      { draft with props := some (call.definition "\x7b\x7d") } index call hfree replacement none
    exact ⟨replacement, none, journal, by simp only [Outcome.andThen, hbefore, replacement, hrun]⟩

/-- Where there is a definition already, the call is reported, and then expanded as if there were
none. -/
theorem expandPropsCall_of_defined (hprops : draft.props.isSome) :
    (draft.strict = true ∧
      draft.expandPropsCall index call = ⟨draft, some (.duplicate .defineProps index)⟩) ∨
    ¬ draft.strict = true ∧ ∃ journal, draft.expandPropsCall index call =
      { draft with props := none, journal := journal }.expandPropsCall index call := by
  rw [expandPropsCall, if_pos hprops, reportDuplicate]
  by_cases hstrict : draft.strict
  · exact .inl ⟨hstrict, by rw [if_pos hstrict]; rfl⟩
  · rw [if_neg hstrict]
    exact .inr ⟨hstrict, _, rfl⟩

/-- A `defineProps` call that may be expanded is refused in strict mode where there is a definition
already; otherwise its definition is taken, whether there is one already or not. -/
theorem expandPropsCall_run (hfree : draft.edits.overlaps index call.stop = false) :
    (draft.strict = true ∧ draft.props.isSome ∧
      draft.expandPropsCall index call = ⟨draft, some (.duplicate .defineProps index)⟩) ∨
    ¬ (draft.strict = true ∧ draft.props.isSome) ∧ ∃ replacement boundName journal,
      draft.expandPropsCall index call =
        ({ draft with props := some (call.definition "\x7b\x7d") }.expanded index call replacement
          boundName journal).reportRepeated call := by
  by_cases hprops : draft.props.isSome
  · rcases expandPropsCall_of_defined hprops with ⟨hstrict, hrun⟩ | ⟨hstrict, journal, hrun⟩
    · exact .inl ⟨hstrict, hprops, hrun⟩
    · refine .inr ⟨fun h => hstrict h.1, ?_⟩
      rw [hrun]
      exact expandPropsCall_of_undefined rfl hfree
  · exact .inr ⟨fun h => hprops h.2,
      expandPropsCall_of_undefined (Option.not_isSome_iff_eq_none.mp hprops) hfree⟩

/-- A `defineEmits` call that may be expanded gives the events. -/
theorem expandEmitsCall_run (hfree : draft.edits.overlaps index call.stop = false) :
    ∃ replacement boundName journal, draft.expandEmitsCall index call =
      ({ draft with emits := some (call.definition "[]") }.expanded index call replacement boundName
        journal).reportRepeated call := by
  unfold expandEmitsCall
  dsimp only
  split
  · obtain ⟨journal, hrun⟩ := replaceCall_run { draft with emits := some (call.definition "[]") } index
      call hfree draft.settings.emitParam _
    exact ⟨_, _, journal, by rw [hrun]; rfl⟩
  · obtain ⟨journal, hrun⟩ := replaceCall_run { draft with emits := some (call.definition "[]") } index
      call hfree ("const emit = " ++ draft.settings.emitParam) _
    exact ⟨_, _, journal, by rw [hrun]; rfl⟩

/-- A `defineExpose` call that may be expanded gives what is exposed. -/
theorem expandExposeCall_run (hfree : draft.edits.overlaps index call.stop = false) :
    ∃ replacement boundName journal, draft.expandExposeCall index call =
      ⟨{ draft with expose := some (Text.trim call.arguments) }.expanded index call replacement boundName
        journal, none⟩ := by
  obtain ⟨journal, hrun⟩ := replaceCall_run { draft with expose := some (Text.trim call.arguments) } index
    call hfree (draft.bareReplacement index MacroKind.defineExpose.name) none
  exact ⟨_, _, journal, hrun⟩

/-! ## Whole passes -/

/-- The `defineProps` pass has no call to work on, is refused, or expands a call. -/
theorem expandProps_cases (draft : Draft) :
    (draft.firstCall? .defineProps = none ∧
      ∃ journal, draft.expandProps = ⟨{ draft with journal := journal }, none⟩) ∨
    ∃ index call, draft.firstCall? .defineProps = some (index, call) ∧
      (draft.strict = true ∧ draft.props.isSome ∧
        draft.expandProps = ⟨draft, some (.duplicate .defineProps index)⟩ ∨
      ¬ (draft.strict = true ∧ draft.props.isSome) ∧ ∃ replacement boundName journal error,
        draft.expandProps = ⟨{ draft with props := some (call.definition "\x7b\x7d") }.expanded index call
          replacement boundName journal, error⟩ ∧
        (draft.strict = true ∧ (∃ p, draft.nextCall? MacroKind.defineProps.name (call.stop + 1) = some p ∧
            error = some (.duplicate .defineProps p)) ∨
          (draft.strict = true → draft.nextCall? MacroKind.defineProps.name (call.stop + 1) = none) ∧
            error = none)) := by
  refine (draft.onFirstCall_cases .defineProps expandPropsCall).imp id ?_
  rintro ⟨index, call, hfirst, hrun⟩
  obtain ⟨-, -, hkind, hcall⟩ := of_firstCall? hfirst
  refine ⟨index, call, hfirst, ?_⟩
  rw [show draft.expandProps = draft.expandPropsCall index call from hrun]
  refine (expandPropsCall_run hcall.free).imp id ?_
  rintro ⟨hmay, replacement, boundName, journal, hexpand⟩
  refine ⟨hmay, replacement, boundName, ?_⟩
  rw [hexpand]
  rcases reportRepeated_expanded { draft with props := some (call.definition "\x7b\x7d") } index call
    replacement boundName journal with ⟨hstrict, p, hp, hreport⟩ | ⟨hnone, journal', hreport⟩
  · exact ⟨journal, _, hreport, .inl ⟨hstrict, p, hkind ▸ hp, by rw [hkind]⟩⟩
  · exact ⟨journal', _, hreport, .inr ⟨fun h => hkind ▸ hnone h, rfl⟩⟩

/-- The `defineEmits` pass has no call to work on, or expands a call. -/
theorem expandEmits_cases (draft : Draft) :
    (draft.firstCall? .defineEmits = none ∧
      ∃ journal, draft.expandEmits = ⟨{ draft with journal := journal }, none⟩) ∨
    ∃ index call, draft.firstCall? .defineEmits = some (index, call) ∧
      ∃ replacement boundName journal error,
        draft.expandEmits = ⟨{ draft with emits := some (call.definition "[]") }.expanded index call
          replacement boundName journal, error⟩ ∧
        (draft.strict = true ∧ (∃ p, draft.nextCall? MacroKind.defineEmits.name (call.stop + 1) = some p ∧
            error = some (.duplicate .defineEmits p)) ∨
          (draft.strict = true → draft.nextCall? MacroKind.defineEmits.name (call.stop + 1) = none) ∧
            error = none) := by
  refine (draft.onFirstCall_cases .defineEmits expandEmitsCall).imp id ?_
  rintro ⟨index, call, hfirst, hrun⟩
  obtain ⟨-, -, hkind, hcall⟩ := of_firstCall? hfirst
  obtain ⟨replacement, boundName, journal, hexpand⟩ := expandEmitsCall_run hcall.free
  refine ⟨index, call, hfirst, replacement, boundName, ?_⟩
  rw [show draft.expandEmits = draft.expandEmitsCall index call from hrun, hexpand]
  rcases reportRepeated_expanded { draft with emits := some (call.definition "[]") } index call
    replacement boundName journal with ⟨hstrict, p, hp, hreport⟩ | ⟨hnone, journal', hreport⟩
  · exact ⟨journal, _, hreport, .inl ⟨hstrict, p, hkind ▸ hp, by rw [hkind]⟩⟩
  · exact ⟨journal', _, hreport, .inr ⟨fun h => hkind ▸ hnone h, rfl⟩⟩

/-- The `defineExpose` pass has no call to work on, or expands a call. -/
theorem expandExpose_cases (draft : Draft) :
    (draft.firstCall? .defineExpose = none ∧
      ∃ journal, draft.expandExpose = ⟨{ draft with journal := journal }, none⟩) ∨
    ∃ index call, draft.firstCall? .defineExpose = some (index, call) ∧
      ∃ replacement boundName journal, draft.expandExpose =
        ⟨{ draft with expose := some (Text.trim call.arguments) }.expanded index call replacement boundName
          journal, none⟩ := by
  refine (draft.onFirstCall_cases .defineExpose expandExposeCall).imp id ?_
  rintro ⟨index, call, hfirst, hrun⟩
  obtain ⟨-, -, -, hcall⟩ := of_firstCall? hfirst
  obtain ⟨replacement, boundName, journal, hexpand⟩ := expandExposeCall_run hcall.free
  exact ⟨index, call, hfirst, replacement, boundName, journal, hrun.trans hexpand⟩

/-- The `defineExpose` pass is never refused. -/
theorem error_expandExpose (draft : Draft) : draft.expandExpose.error = none := by
  rcases draft.expandExpose_cases with ⟨-, _, hrun⟩ | ⟨index, call, -, _, _, _, hrun⟩
  · rw [hrun]
  · rw [hrun]

/-! ## The stages of a compilation -/

/-- Recording what is hoisted defines nothing. -/
theorem hoistAll_definitions (items : List (Nat × Hoisted)) (draft : Draft) :
    (draft.hoistAll items).props = draft.props ∧ (draft.hoistAll items).emits = draft.emits ∧
      (draft.hoistAll items).expose = draft.expose := by
  induction items generalizing draft with
  | nil => exact ⟨rfl, rfl, rfl⟩
  | cons item rest ih =>
    have hstep : (draft.hoist item.2).props = draft.props ∧ (draft.hoist item.2).emits = draft.emits ∧
        (draft.hoist item.2).expose = draft.expose := by
      cases item.2 <;> exact ⟨rfl, rfl, rfl⟩
    obtain ⟨hprops, hemits, hexpose⟩ := ih (draft.hoist item.2)
    exact ⟨hprops.trans hstep.1, hemits.trans hstep.2.1, hexpose.trans hstep.2.2⟩

section Stages

variable (settings : Settings) (source : Text) (name : Option Text) (strict : Option Bool)

/-- The draft of a script whose imports have been hoisted. -/
def hoisted : Draft := (announced settings source name strict).hoistImports.draft

/-- The draft on which the `defineProps` pass runs. -/
def beforeProps : Draft := (hoisted settings source name strict).expandDefaults.draft

/-- The draft on which the `defineEmits` pass runs. -/
def beforeEmits : Draft := (beforeProps settings source name strict).expandProps.draft

variable {settings source}

/-- Where no import is refused, hoisting leaves a sound draft in which nothing is defined yet. -/
theorem hoisted_facts (name : Option Text) (strict : Option Bool)
    (h : ¬ Entangled settings.componentExtension source) :
    (announced settings source name strict).hoistImports = ⟨hoisted settings source name strict, none⟩ ∧
    SameScript (Draft.start settings source name strict) (hoisted settings source name strict) ∧
    (hoisted settings source name strict).Sound ∧ (hoisted settings source name strict).results = [] ∧
    (hoisted settings source name strict).props = none ∧
    (hoisted settings source name strict).emits = none ∧
    (hoisted settings source name strict).expose = none := by
  have hquiet : Quiet (Draft.start settings source name strict) (announced settings source name strict) :=
    quiet_note _ _ _
  have hsound := (sound_start settings source name strict).of_quiet hquiet
  have hrefused := (hoistImports_refused_iff (announced settings source name strict) rfl rfl).not.mpr h
  obtain ⟨herror, hsame, hsound'⟩ := (hoistImports_cases hsound).resolve_left hrefused
  obtain ⟨news, items, message, -, -, -, -, hrun⟩ := (hoistImports_run hsound).resolve_left hrefused
  obtain ⟨-, -, hresults, -⟩ := hoistAll_frame items
    { announced settings source name strict with
      edits := (announced settings source name strict).edits ++ news }
  obtain ⟨hprops, hemits, hexpose⟩ := hoistAll_definitions items
    { announced settings source name strict with
      edits := (announced settings source name strict).edits ++ news }
  have hdraft : hoisted settings source name strict = _ := congrArg Outcome.draft hrun
  refine ⟨by rw [hdraft, hrun], hquiet.toSameScript.trans hsame, hsound', ?_, ?_, ?_, ?_⟩
  · rw [hdraft]; exact hresults
  · rw [hdraft]; exact hprops
  · rw [hdraft]; exact hemits
  · rw [hdraft]; exact hexpose

/-- An edit that hoisting makes is that of an import statement in code. -/
theorem exists_mem_of_mem_hoisted {name : Option Text} {strict : Option Bool}
    (h : ¬ Entangled settings.componentExtension source) {edit : Edit}
    (hedit : edit ∈ (hoisted settings source name strict).edits) :
    ∃ found ∈ importMatches settings.componentExtension source,
      (Scan.ofText source).isCode found.start ∧ edit.start = found.start ∧ edit.stop = found.stop - 1 := by
  have hedits : (hoisted settings source name strict).edits =
      (announced settings source name strict).afterImports.edits :=
    (hoistImports_of_not_entangled _ rfl rfl h).2
  rw [hedits] at hedit
  obtain ⟨found, hfound, hcode, rfl⟩ := exists_mem_of_mem_afterImports rfl hedit
  exact ⟨found, hfound, hcode, rfl, rfl⟩

/-- Before the `defineProps` pass, `withDefaults` calls of the script have been rewritten, in order. -/
theorem beforeProps_run (settings : Settings) (source : Text) (name : Option Text)
    (strict : Option Bool) :
    ∃ rewrites journal, (∀ rewrite ∈ rewrites,
        rewrite.Valid (hoisted settings source name strict).scan) ∧
      (rewrites.map Rewrite.index).Pairwise (· < ·) ∧
      (hoisted settings source name strict).expandDefaults =
        ⟨beforeProps settings source name strict, none⟩ ∧
      beforeProps settings source name strict =
        (hoisted settings source name strict).rewritten rewrites journal := by
  obtain ⟨rewrites, journal, hvalid, hsorted, hrun⟩ :=
    (hoisted settings source name strict).expandDefaults_run
  have hdraft : beforeProps settings source name strict = _ := congrArg Outcome.draft hrun
  exact ⟨rewrites, journal, hvalid, hsorted, by rw [hdraft, hrun], hdraft⟩

/-- Where no import is refused, both drafts are sound and of the script. -/
theorem stages_sound (h : ¬ Entangled settings.componentExtension source) :
    (SameScript (Draft.start settings source name strict) (beforeProps settings source name strict) ∧
      (beforeProps settings source name strict).Sound) ∧
    SameScript (Draft.start settings source name strict) (beforeEmits settings source name strict) ∧
      (beforeEmits settings source name strict).Sound := by
  obtain ⟨-, hsame, hsound, -⟩ := hoisted_facts name strict h
  have hdefaults := kept_expansion hsound .defaults rfl
  have hprops := kept_expansion hdefaults.sound .props rfl
  exact ⟨⟨hsame.trans hdefaults.same, hdefaults.sound⟩,
    (hsame.trans hdefaults.same).trans hprops.same, hprops.sound⟩

/-- A script that calls no unsupported macro, and in which no import is refused, goes through the
three passes that follow the `withDefaults` pass. -/
theorem expandScript_stages (hcalls : ¬ CallsUnsupported source)
    (h : ¬ Entangled settings.componentExtension source) :
    expandScript settings source name strict =
      ((beforeProps settings source name strict).expandProps.andThen expandEmits).andThen
        expandExpose := by
  have hsupported := ((announced settings source name strict).refuseUnsupported_cases rfl).resolve_left
    fun hrefused => hcalls hrefused.1
  obtain ⟨rewrites, journal, -, -, hdefaults, -⟩ := beforeProps_run settings source name strict
  rw [expandScript, hsupported.2]
  change ((announced settings source name strict).hoistImports).andThen _ = _
  rw [(hoisted_facts name strict h).1, Outcome.andThen_assoc]
  simp only [MacroRegistry.builtin, runAll, Outcome.andThen_done]
  rw [Outcome.andThen, hdefaults]
  rfl

/-- A compilation ends with the error of its passes. -/
theorem compileScript_eq_error_iff {name : Option Text} {strict : Option Bool} {error : CompileError} :
    (compileScript settings source name strict).value = .error error ↔
      (expandScript settings source name strict).error = some error := by
  rw [compileScript_value]
  cases (expandScript settings source name strict).error with
  | none => simp
  | some failed => simp

/-- A compilation has an output just when its passes succeed. -/
theorem compileScript_ok_iff {name : Option Text} {strict : Option Bool} :
    (∃ output, (compileScript settings source name strict).value = .ok output) ↔
      (expandScript settings source name strict).error = none := by
  rw [compileScript_value]
  cases (expandScript settings source name strict).error with
  | none => simp
  | some failed => simp

/-- Without strict mode a script compiles if it calls no unsupported macro and no import in it is
refused. -/
theorem exists_output {name : Option Text} {strict : Option Bool} (hcalls : ¬ CallsUnsupported source)
    (h : ¬ Entangled settings.componentExtension source)
    (hstrict : strict.getD settings.strictMode = false) :
    ∃ output, (compileScript settings source name strict).value = .ok output := by
  rcases expandScript_cases settings source name strict with
    ⟨hcalls', -⟩ | ⟨-, h', -⟩ | ⟨-, -, -, -, herror | ⟨hstrict', -⟩⟩
  · exact absurd hcalls' hcalls
  · exact absurd h' h
  · exact compileScript_ok_iff.mpr herror
  · rw [hstrict] at hstrict'
    cases hstrict'

/-- A script that compiles goes through all passes, and its output is what their draft defines. -/
theorem stages_of_compiles {name : Option Text} {strict : Option Bool} {output : Output}
    (h : (compileScript settings source name strict).value = .ok output) :
    ¬ Entangled settings.componentExtension source ∧
      SameScript (Draft.start settings source name strict) (expandScript settings source name strict).draft ∧
      (expandScript settings source name strict).draft =
        (beforeEmits settings source name strict).expandEmits.draft.expandExpose.draft ∧
      output = (expandScript settings source name strict).draft.finish.1 := by
  rw [compileScript_value] at h
  split at h
  · cases h
  · next herror =>
    rcases expandScript_cases settings source name strict with ⟨-, kind, -, hfailed⟩ |
      ⟨-, -, range, hfailed⟩ | ⟨hcalls, hentangled, hsame, -⟩
    · rw [herror] at hfailed
      cases hfailed
    · rw [herror] at hfailed
      cases hfailed
    · refine ⟨hentangled, hsame, ?_, (Except.ok.inj h).symm⟩
      rw [expandScript_stages name strict hcalls hentangled] at herror ⊢
      obtain ⟨hemits, hlast⟩ := Outcome.andThen_of_ok herror
      obtain ⟨-, hmiddle⟩ := Outcome.andThen_of_ok hemits
      rw [hlast, hmiddle]
      rfl

end Stages

end Draft

end SetupScript
