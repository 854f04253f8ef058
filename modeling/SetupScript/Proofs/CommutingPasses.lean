import SetupScript.Proofs.ExpansionRuns

/-!
# Passes in either order

The `defineProps`, `defineEmits` and `defineExpose` passes each expand one call at most. Which call that
is depends on the edits so far, and what becomes of it on the script alone. An edit over a call of one
macro takes no call of another that stands apart from it, and meets none. So where the calls of two
macros stand apart, each pass expands the call that it would expand if the other had not run, and both
orders record the same.
-/

namespace SetupScript

/-! ## Adding two edits -/

namespace EditList

/-- An edit that was added first is applied before those that start with it or after it. -/
theorem mergeSort_cons_eq (edit : Edit) (edits : EditList) :
    List.mergeSort (edit :: edits) (fun a b => a.start ≤ b.start) =
      (edits.mergeSort fun a b => a.start ≤ b.start).takeWhile (fun other => other.start < edit.start) ++
        edit :: (edits.mergeSort fun a b => a.start ≤ b.start).dropWhile
          (fun other => other.start < edit.start) := by
  obtain ⟨earlier, later, hsorted, hrest, hearlier⟩ :=
    List.mergeSort_cons Edit.start_le_trans Edit.start_le_total edit edits
  have hbefore : ∀ other ∈ earlier, decide (other.start < edit.start) = true := by
    simpa using hearlier
  have hafter : ∀ other ∈ later, edit.start ≤ other.start := by
    have hordered := pairwise_start (edit :: edits)
    rw [hsorted, List.pairwise_append, List.pairwise_cons] at hordered
    exact hordered.2.1.1
  rw [hsorted, hrest, List.takeWhile_append_of_pos hbefore, List.dropWhile_append_of_pos hbefore]
  cases later with
  | nil => simp
  | cons next later =>
    have hnext : decide (next.start < edit.start) = false := by
      simpa using hafter next List.mem_cons_self
    rw [List.takeWhile_cons, List.dropWhile_cons, hnext]
    simp

/-- Two edits that start apart may be added in either order. -/
theorem apply_swap (edits : EditList) {a b : Edit} (h : a.start ≠ b.start) (source : Text) :
    apply (edits ++ [a, b]) source = apply (edits ++ [b, a]) source := by
  suffices hsorted : List.mergeSort (edits ++ [a, b]) (fun a b => a.start ≤ b.start) =
      List.mergeSort (edits ++ [b, a]) (fun a b => a.start ≤ b.start) by rw [apply, apply, hsorted]
  induction edits with
  | nil =>
    -- two edits with different starts have one order only
    refine List.Perm.eq_of_pairwise (fun x y hx hy hxy hyx => ?_) (pairwise_start _) (pairwise_start _) ?_
    · simp only [List.nil_append, List.mem_mergeSort, List.mem_cons, List.not_mem_nil, or_false] at hx hy
      rcases hx with rfl | rfl <;> rcases hy with rfl | rfl <;> first | rfl | omega
    · exact (List.mergeSort_perm _ _).trans ((List.Perm.swap b a []).trans (List.mergeSort_perm _ _).symm)
  | cons edit rest ih => rw [List.cons_append, List.cons_append, mergeSort_cons_eq, mergeSort_cons_eq, ih]

end EditList

/-! ## One pass -/

/-- The macro of which a pass expands one call at most. -/
def Pass.single? : Pass → Option MacroKind
  | .props => some .defineProps
  | .emits => some .defineEmits
  | .expose => some .defineExpose
  | .refuse | .hoist | .defaults => none

namespace Draft

variable {draft : Draft} {kind other : MacroKind} {index : Nat} {call : MacroCall}

/-- What takes the place of a call, and the name that is recorded for it. Both depend on the script
alone. -/
def replacementFor (draft : Draft) (kind : MacroKind) (index : Nat) : Text × Option Text :=
  match kind, draft.declarationBefore? index with
  | .defineProps, some declaration =>
    (draft.settings.propsParam, if declaration.isPattern then none else some declaration.target)
  | .defineEmits, some declaration =>
    (draft.settings.emitParam, if declaration.isPattern then none else some declaration.target)
  | .defineEmits, none => ("const emit = " ++ draft.settings.emitParam, some "emit")
  | _, _ => (draft.bareReplacement index kind.name, none)

/-- The draft with the definition that a call gives. -/
def define (draft : Draft) (kind : MacroKind) (call : MacroCall) : Draft :=
  match kind with
  | .defineProps => { draft with props := some (call.definition "\x7b\x7d") }
  | .defineEmits => { draft with emits := some (call.definition "[]") }
  | .defineExpose => { draft with expose := some (Text.trim call.arguments) }
  | _ => draft

/-- The draft after a pass that chose a call, or none. -/
def taken (draft : Draft) (kind : MacroKind) (journal : Journal) : Option (Nat × MacroCall) → Draft
  | none => { draft with journal := journal }
  | some (index, call) => (draft.define kind call).expanded index call
      (draft.replacementFor kind index).1 (draft.replacementFor kind index).2 journal

/-- Where repeated calls are tolerated, a call is replaced and at most a message is logged for the
next. -/
theorem replaceCall_reportRepeated (draft : Draft) (index : Nat) (call : MacroCall)
    (hstrict : draft.strict = false) (hfree : draft.edits.overlaps index call.stop = false)
    (replacement : Text) (boundName : Option Text) :
    ∃ journal, (draft.replaceCall call index replacement boundName).andThen (·.reportRepeated call) =
      ⟨draft.expanded index call replacement boundName journal, none⟩ := by
  obtain ⟨journal, hrun⟩ := draft.replaceCall_run index call hfree replacement boundName
  rcases draft.reportRepeated_expanded index call replacement boundName journal with
    ⟨hmode, -⟩ | ⟨-, journal', hreport⟩
  · rw [hstrict] at hmode
    cases hmode
  · exact ⟨journal', by rw [hrun]; exact hreport⟩

/-- Where repeated calls are tolerated, a `defineProps` call is expanded whether there is a definition
already or not. -/
theorem expandPropsCall_lenient (hstrict : draft.strict = false)
    (hfree : draft.edits.overlaps index call.stop = false) :
    ∃ journal, draft.expandPropsCall index call =
      ⟨draft.taken .defineProps journal (some (index, call)), none⟩ := by
  obtain ⟨before, hchecked⟩ : ∃ before,
      (if draft.props.isSome then draft.reportDuplicate .defineProps index else ⟨draft, none⟩) =
        (⟨{ draft with journal := before }, none⟩ : Outcome) := by
    split
    · exact ⟨_, by rw [reportDuplicate, if_neg (by simp [hstrict])]; rfl⟩
    · exact ⟨draft.journal, rfl⟩
  -- the message about the definition that is there already changes nothing that the expansion reads
  have hreplace := replaceCall_reportRepeated
    { draft with journal := before, props := some (call.definition "\x7b\x7d") } index call hstrict hfree
  have hsame : { draft with journal := before }.declarationBefore? index =
    draft.declarationBefore? index := rfl
  simp only [expandPropsCall, hchecked, Outcome.andThen, hsame, taken, replacementFor]
  cases draft.declarationBefore? index with
  | some declaration => exact hreplace _ _
  | none => exact hreplace _ _

/-- A `defineEmits` call is expanded likewise. -/
theorem expandEmitsCall_lenient (hstrict : draft.strict = false)
    (hfree : draft.edits.overlaps index call.stop = false) :
    ∃ journal, draft.expandEmitsCall index call =
      ⟨draft.taken .defineEmits journal (some (index, call)), none⟩ := by
  have hreplace := replaceCall_reportRepeated { draft with emits := some (call.definition "[]") } index
    call hstrict hfree
  simp only [expandEmitsCall, taken, replacementFor]
  cases draft.declarationBefore? index with
  | some declaration => exact hreplace _ _
  | none => exact hreplace _ _

/-- So is a `defineExpose` call, in strict mode, too. -/
theorem expandExposeCall_taken (hfree : draft.edits.overlaps index call.stop = false) :
    ∃ journal, draft.expandExposeCall index call =
      ⟨draft.taken .defineExpose journal (some (index, call)), none⟩ :=
  replaceCall_run (draft.define .defineExpose call) index call hfree _ _

/-- A pass takes the call that it works on, where its expansion takes every call that meets no edit. -/
theorem onFirstCall_taken {expand : Draft → Nat → MacroCall → Outcome}
    (h : ∀ {index : Nat} {call : MacroCall}, draft.edits.overlaps index call.stop = false →
      ∃ journal, expand draft index call = ⟨draft.taken kind journal (some (index, call)), none⟩) :
    ∃ journal, draft.onFirstCall kind expand =
      ⟨draft.taken kind journal (draft.firstCall? kind), none⟩ := by
  rcases draft.onFirstCall_cases kind expand with ⟨hnone, journal, hrun⟩ | ⟨index, call, hfirst, hrun⟩
  · exact ⟨journal, by rw [hrun, hnone]; rfl⟩
  · rw [hrun, hfirst]
    exact h (of_firstCall? hfirst).2.2.2.free

/-- Where repeated calls are tolerated, a pass that expands one call at most takes the one that it works
on. -/
theorem run_single {pass : Pass} (hpass : pass.single? = some kind) (hstrict : draft.strict = false) :
    ∃ journal, pass.run draft = ⟨draft.taken kind journal (draft.firstCall? kind), none⟩ := by
  cases pass with
  | props => cases hpass; exact onFirstCall_taken (expandPropsCall_lenient hstrict)
  | emits => cases hpass; exact onFirstCall_taken (expandEmitsCall_lenient hstrict)
  | expose => cases hpass; exact onFirstCall_taken expandExposeCall_taken
  | refuse | hoist | defaults => cases hpass

end Draft

/-! ## Calls that stand apart -/

namespace Scan

variable {scan : Scan} {kind other : MacroKind}

/-- A search for calls of the macro reports the offset. -/
def Reports (scan : Scan) (kind : MacroKind) (p : Nat) : Prop :=
  ∃ offset, scan.findCall? kind.name offset = some p

/-- No offset reported for the first macro lies in a well-formed call of the other. -/
def CallsOutside (scan : Scan) (kind other : MacroKind) : Prop :=
  ∀ p q call, scan.Reports kind p → scan.Reports other q → scan.callAt q other = .ok call →
    ¬ (q ≤ p ∧ p ≤ call.stop)

/-- Every offset at which the macro is called is reported by some search, and no other. -/
theorem reports_iff {p : Nat} : scan.Reports kind p ↔ p ∈ scan.callOffsets kind.name := by
  constructor
  · rintro ⟨offset, hfound⟩
    exact List.mem_of_find?_eq_some hfound
  · intro hmem
    have hordered : (scan.callOffsets kind.name).Pairwise (· < ·) := pairwise_callOffsetsFrom _ _ _ _
    obtain ⟨earlier, later, hcalls⟩ := List.append_of_mem hmem
    rw [hcalls, List.pairwise_append] at hordered
    refine ⟨p, ?_⟩
    rw [findCall?, hcalls, List.find?_append, List.find?_eq_none.mpr, Option.none_or,
      List.find?_cons_of_pos]
    · simp
    · intro q hq
      have hlt := hordered.2.2 q hq p List.mem_cons_self
      simp only [decide_eq_true_eq]
      omega

instance : Decidable (scan.CallsOutside kind other) :=
  decidable_of_iff ((scan.callOffsets other.name).all fun q => (scan.callAt q other).toOption.all fun call =>
      (scan.callOffsets kind.name).all fun p => !decide (q ≤ p ∧ p ≤ call.stop)) <| by
    simp only [CallsOutside, reports_iff, List.all_eq_true, Option.all_eq_true, Bool.not_eq_true',
      decide_eq_false_iff_not]
    constructor
    · intro h p q call hp hq hcall
      exact h q hq call (by rw [hcall]; rfl) p hp
    · intro h q hq call hcall p hp
      refine h p q call hp hq ?_
      cases hread : scan.callAt q other with
      | error fault => simp [hread, Except.toOption] at hcall
      | ok found => simpa [hread, Except.toOption] using hcall

end Scan

namespace Draft

variable {draft : Draft} {kind other : MacroKind}

/-- The edit over the call that a pass chose, if it chose one. -/
def chosenEdit (draft : Draft) (kind : MacroKind) (choice : Option (Nat × MacroCall)) : List Edit :=
  (choice.map fun chosen =>
    ⟨chosen.1, chosen.2.stop, (draft.replacementFor kind chosen.1).1⟩).toList

/-- The result of expanding the call that a pass chose, if it chose one. -/
def chosenResult (draft : Draft) (kind : MacroKind) (choice : Option (Nat × MacroCall)) :
    List MacroResult :=
  (choice.map fun chosen =>
    ⟨chosen.2.kind, Text.trim chosen.2.arguments, (draft.replacementFor kind chosen.1).2⟩).toList

section Taken

variable (draft : Draft) (kind : MacroKind) (journal : Journal) (choice : Option (Nat × MacroCall))

/-- A pass leaves the script as it is. -/
theorem sameScript_taken : SameScript draft (draft.taken kind journal choice) := by
  rcases choice with _ | ⟨index, call⟩
  · exact ⟨rfl, rfl, rfl, rfl, rfl⟩
  · cases kind <;> exact ⟨rfl, rfl, rfl, rfl, rfl⟩

/-- It adds one edit at most. -/
theorem edits_taken :
    (draft.taken kind journal choice).edits = draft.edits ++ draft.chosenEdit kind choice := by
  rcases choice with _ | ⟨index, call⟩
  · exact (List.append_nil _).symm
  · cases kind <;> rfl

/-- It adds one result at most. -/
theorem results_taken :
    (draft.taken kind journal choice).results = draft.results ++ draft.chosenResult kind choice := by
  rcases choice with _ | ⟨index, call⟩
  · exact (List.append_nil _).symm
  · cases kind <;> rfl

/-- Only `defineProps` gives the props. -/
theorem props_taken : (draft.taken kind journal choice).props =
    if kind = .defineProps then (choice.map (·.2.definition "\x7b\x7d")).or draft.props
    else draft.props := by
  rcases choice with _ | ⟨index, call⟩ <;> cases kind <;> rfl

/-- Only `defineEmits` gives the events. -/
theorem emits_taken : (draft.taken kind journal choice).emits =
    if kind = .defineEmits then (choice.map (·.2.definition "[]")).or draft.emits else draft.emits := by
  rcases choice with _ | ⟨index, call⟩ <;> cases kind <;> rfl

/-- Only `defineExpose` gives what is exposed. -/
theorem expose_taken : (draft.taken kind journal choice).expose =
    if kind = .defineExpose then (choice.map (Text.trim ·.2.arguments)).or draft.expose
    else draft.expose := by
  rcases choice with _ | ⟨index, call⟩ <;> cases kind <;> rfl

/-- What becomes of a call depends on the script alone. -/
theorem replacementFor_taken (other : MacroKind) (position : Nat) :
    (draft.taken kind journal choice).replacementFor other position =
      draft.replacementFor other position := by
  rcases choice with _ | ⟨index, call⟩
  · rfl
  · cases kind <;> rfl

end Taken

/-- One more edit leaves a search as it is where it takes no call. -/
theorem nextCall?_of_edit {next : Draft} {edit : Edit} {name : Text} (hscan : next.scan = draft.scan)
    (hedits : next.edits = draft.edits ++ [edit])
    (hmiss : ∀ p ∈ draft.scan.callOffsets name, ¬ (edit.start ≤ p ∧ p ≤ edit.stop)) (offset : Int) :
    next.nextCall? name offset = draft.nextCall? name offset := by
  rw [nextCall?, nextCall?, hscan, hedits, ← List.head?_filter, ← List.head?_filter]
  refine congrArg List.head? (List.filter_congr fun p hp => ?_)
  have hfree : (decide (edit.start ≤ p) && decide (p ≤ edit.stop)) = false := by
    simpa [imp_iff_not_or] using hmiss p hp
  rw [EditList.covers_append, hfree, Bool.or_false]

/-- It leaves a call as it is that it does not meet. -/
theorem holdsEdit_of_edit {next : Draft} {edit : Edit} {call : MacroCall}
    (hedits : next.edits = draft.edits ++ [edit])
    (hmiss : ¬ (call.start ≤ edit.stop ∧ edit.start ≤ call.stop)) :
    next.holdsEdit call = draft.holdsEdit call := by
  have hfree : (decide (call.start ≤ edit.stop) && decide (edit.start ≤ call.stop)) = false := by
    simpa [imp_iff_not_or] using hmiss
  rw [holdsEdit, holdsEdit, hedits, EditList.overlaps_append, hfree, Bool.or_false]

/-- The edit over the call of one macro takes no call of another macro that stands outside it, and meets
none. -/
theorem firstCall?_taken (hout : draft.scan.CallsOutside kind other)
    (hout' : draft.scan.CallsOutside other kind) (journal : Journal) :
    (draft.taken other journal (draft.firstCall? other)).firstCall? kind = draft.firstCall? kind := by
  cases hother : draft.firstCall? other with
  | none => rfl
  | some chosen =>
    obtain ⟨q, found⟩ := chosen
    obtain ⟨hq, hfound, -⟩ := firstCall?_eq_some.mp hother
    have hreported := Scan.reports_iff.mpr (of_nextCall? hq).1
    have hscan := (draft.sameScript_taken other journal (some (q, found))).scan
    have hedits := draft.edits_taken other journal (some (q, found))
    have hnext : (draft.taken other journal (some (q, found))).nextCall? kind.name 0 =
        draft.nextCall? kind.name 0 := by
      refine nextCall?_of_edit hscan hedits (fun p hp => ?_) 0
      have hfree := hout p q found (Scan.reports_iff.mpr hp) hreported hfound
      dsimp only
      omega
    refine Option.ext fun chosen => ?_
    obtain ⟨index, call⟩ := chosen
    rw [firstCall?_eq_some, firstCall?_eq_some, hnext, hscan]
    refine and_congr_right fun hindex => and_congr_right fun hcall => ?_
    -- if the two calls shared an offset, the name of one of them would stand inside the other
    have hmem := (of_nextCall? hindex).1
    have hstart : call.start = index := (Scan.callAt_eq_ok hmem hcall).2.1
    have hfree := hout index q found (Scan.reports_iff.mpr hmem) hreported hfound
    have hfree' := hout' q index call hreported (Scan.reports_iff.mpr hmem) hcall
    rw [holdsEdit_of_edit hedits]
    dsimp only
    omega

/-! ## Two passes -/

/-- Two drafts record the same, apart from the order in which they do and the messages. -/
structure SameRecords (a b : Draft) : Prop where
  props : a.props = b.props
  emits : a.emits = b.emits
  expose : a.expose = b.expose
  edits : a.edits.Perm b.edits
  results : a.results.Perm b.results
  edited : a.edited = b.edited

/-- Calls of two macros that start apart may be expanded in either order. -/
theorem sameRecords_taken (draft : Draft) (hne : kind ≠ other) {choice choice' : Option (Nat × MacroCall)}
    (hapart : ∀ chosen ∈ choice, ∀ chosen' ∈ choice', chosen.1 ≠ chosen'.1)
    (journal journal' last last' : Journal) :
    SameRecords ((draft.taken kind journal choice).taken other last choice')
      ((draft.taken other journal' choice').taken kind last' choice) := by
  have hedits : ((draft.taken kind journal choice).taken other last choice').edits =
      draft.edits ++ (draft.chosenEdit kind choice ++ draft.chosenEdit other choice') := by
    simp only [edits_taken, chosenEdit, replacementFor_taken, List.append_assoc]
  have hedits' : ((draft.taken other journal' choice').taken kind last' choice).edits =
      draft.edits ++ (draft.chosenEdit other choice' ++ draft.chosenEdit kind choice) := by
    simp only [edits_taken, chosenEdit, replacementFor_taken, List.append_assoc]
  refine ⟨?_, ?_, ?_, ?_, ?_, ?_⟩
  · simp only [props_taken]
    split <;> split <;> simp_all
  · simp only [emits_taken]
    split <;> split <;> simp_all
  · simp only [expose_taken]
    split <;> split <;> simp_all
  · rw [hedits, hedits']
    exact List.perm_append_comm.append_left _
  · simp only [results_taken, chosenResult, replacementFor_taken, List.append_assoc]
    exact List.perm_append_comm.append_left _
  · have hscript := (sameScript_taken draft kind journal choice).trans
      (sameScript_taken _ other last choice')
    have hscript' := (sameScript_taken draft other journal' choice').trans
      (sameScript_taken _ kind last' choice)
    rw [edited, edited, hedits, hedits', hscript.source, hscript'.source]
    rcases choice with _ | chosen <;> rcases choice' with _ | chosen'
    · rfl
    · rfl
    · rfl
    · refine EditList.apply_swap draft.edits (fun hstart => ?_) draft.source
      exact hapart chosen rfl chosen' rfl (Int.ofNat_inj.mp hstart)

/-- After one pass the other one expands the call that it would have expanded alone. -/
theorem run_andThen_run {first second : Pass} (hfirst : first.single? = some kind)
    (hsecond : second.single? = some other) (hstrict : draft.strict = false)
    (hout : draft.scan.CallsOutside kind other) (hout' : draft.scan.CallsOutside other kind) :
    (first.run draft).draft.firstCall? other = draft.firstCall? other ∧
    ∃ journal last, (first.run draft).andThen second.run =
      ⟨(draft.taken kind journal (draft.firstCall? kind)).taken other last (draft.firstCall? other),
        none⟩ := by
  obtain ⟨journal, hrun⟩ := run_single hfirst hstrict
  have hfirstCall := firstCall?_taken hout' hout journal
  obtain ⟨last, hlast⟩ := run_single hsecond ((sameScript_taken draft kind journal _).strict.trans hstrict)
  rw [hfirstCall] at hlast
  rw [hrun]
  exact ⟨hfirstCall, journal, last, hlast⟩

/-- The first calls of two macros start apart where neither macro is called inside a call of the
other. -/
theorem firstCall?_ne (hout : draft.scan.CallsOutside kind other) {chosen chosen' : Nat × MacroCall}
    (h : draft.firstCall? kind = some chosen) (h' : draft.firstCall? other = some chosen') :
    chosen.1 ≠ chosen'.1 := by
  obtain ⟨index, call⟩ := chosen
  obtain ⟨index', call'⟩ := chosen'
  obtain ⟨hmem, -⟩ := of_firstCall? h
  obtain ⟨hmem', -, -, hexpandable⟩ := of_firstCall? h'
  rintro rfl
  exact hout index index call' (Scan.reports_iff.mpr hmem) (Scan.reports_iff.mpr hmem')
    (firstCall?_eq_some.mp h').2.1 ⟨Nat.le_refl _, hexpandable.isCall.bounds.1⟩

/-- Where repeated calls are tolerated and neither of two macros is called inside a well-formed call of
the other, the passes for them may run in either order on any draft: each chooses the call that it would
choose alone, and the definitions, the edits, the results and the text are the same. -/
theorem passes_in_either_order {first second : Pass} {kind other : MacroKind}
    (hfirst : first.single? = some kind) (hsecond : second.single? = some other) (hne : first ≠ second)
    (draft : Draft) (hstrict : draft.strict = false) (hout : draft.scan.CallsOutside kind other)
    (hout' : draft.scan.CallsOutside other kind) :
    ((first.run draft).andThen second.run).error = none ∧
    ((second.run draft).andThen first.run).error = none ∧
    (first.run draft).draft.firstCall? other = draft.firstCall? other ∧
    (second.run draft).draft.firstCall? kind = draft.firstCall? kind ∧
    SameRecords ((first.run draft).andThen second.run).draft
      ((second.run draft).andThen first.run).draft := by
  have hkinds : kind ≠ other := by
    rintro rfl
    cases first <;> cases hfirst <;> cases second <;> cases hsecond <;> exact hne rfl
  obtain ⟨hchoice, journal, last, hrun⟩ := run_andThen_run hfirst hsecond hstrict hout hout'
  obtain ⟨hchoice', journal', last', hrun'⟩ := run_andThen_run hsecond hfirst hstrict hout' hout
  rw [hrun, hrun']
  refine ⟨rfl, rfl, hchoice, hchoice', sameRecords_taken draft hkinds ?_ _ _ _ _⟩
  exact fun chosen h chosen' h' => firstCall?_ne hout h h'

/-- A script that declares events and props and exposes a name. -/
def declaredApart : Text := "const e = defineEmits(['s'])\ndefineProps(['a'])\ndefineExpose(\x7be\x7d)"

theorem declaredApart_in_either_order :
    let draft := Draft.start {} declaredApart none (some false)
    let oneWay := ((Pass.props.run draft).andThen Pass.emits.run).draft
    let otherWay := ((Pass.emits.run draft).andThen Pass.props.run).draft
    SameRecords oneWay otherWay ∧ oneWay.props = some "['a']" ∧ oneWay.emits = some "['s']" ∧
      oneWay.edits.map (·.start) = [29, 10] ∧ otherWay.edits.map (·.start) = [10, 29] := by
  have hsame := @passes_in_either_order .props .emits _ _ rfl rfl (by simp)
    (Draft.start {} declaredApart none (some false)) rfl (by decide +kernel) (by decide +kernel)
  exact ⟨hsame.2.2.2.2, by decide +kernel⟩

end Draft

end SetupScript
