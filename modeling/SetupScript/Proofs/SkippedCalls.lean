import SetupScript.Proofs.CommutingPasses
import SetupScript.Proofs.Recompilation
import SetupScript.Proofs.RepeatedDeclarations

/-!
# Calls that are skipped

A call is skipped if it is malformed, or if it holds an expanded call. The `withDefaults` pass goes on after
a call that holds an expanded one, but ends at a malformed one. The other three passes look at one call
only, the first that no edit has taken. So a skipped call may hide a later one that could be expanded, and
then nothing is recorded of the macro.

Here the calls that a pass looks at are written out as a list. A macro is recorded just when one of them
expands, and a call that stands apart from the others is hidden just when the pass stops before it.
-/

namespace SetupScript

/-- The first argument of the call holds a declaration of the props. -/
def MacroCall.wrapsProps (call : MacroCall) : Bool :=
  (propsDefinition? ((Scan.ofText call.arguments).arguments.headD [])).isSome

namespace Draft

variable {draft : Draft} {kind : MacroKind} {q : Nat}

/-! ## The calls that a pass looks at -/

/-- Of the calls at the given offsets those that the `withDefaults` pass looks at: it passes over calls
that an edit has taken and calls inside one that it has looked at, and ends at a malformed one. -/
def visitedFrom (draft : Draft) (resume : Nat) : List Nat → List Nat
  | [] => []
  | index :: later =>
    if index < resume || draft.edits.covers index then draft.visitedFrom resume later
    else
      match draft.scan.callAt index .withDefaults with
      | .error _ => [index]
      | .ok call => index :: draft.visitedFrom (call.stop + 1) later

/-- The calls that the pass of a macro looks at. -/
def lookedAt (draft : Draft) : MacroKind → List Nat
  | .withDefaults => draft.visitedFrom 0 (draft.scan.callOffsets MacroKind.withDefaults.name)
  | kind => (draft.nextCall? kind.name 0).toList

/-- The other passes look at one call at most. -/
theorem lookedAt_of_ne (hkind : kind ≠ .withDefaults) :
    draft.lookedAt kind = (draft.nextCall? kind.name 0).toList := by
  cases kind with
  | withDefaults => exact absurd rfl hkind
  | _ => rfl

/-- The call is expanded if the pass looks at it. -/
def expands (draft : Draft) (kind : MacroKind) (q : Nat) : Bool :=
  match draft.scan.callAt q kind with
  | .error _ => false
  | .ok call => !draft.holdsEdit call && (kind != .withDefaults || call.wrapsProps)

/-- The pass looks at no further call after this one, and does not expand it. -/
def stops (draft : Draft) (kind : MacroKind) (q : Nat) : Bool :=
  match draft.scan.callAt q kind with
  | .error _ => true
  | .ok call => kind != .withDefaults && draft.holdsEdit call

theorem expands_of_ok {call : MacroCall} (h : draft.scan.callAt q kind = .ok call) :
    draft.expands kind q = (!draft.holdsEdit call && (kind != .withDefaults || call.wrapsProps)) := by
  rw [expands, h]

theorem stops_of_ok {call : MacroCall} (h : draft.scan.callAt q kind = .ok call) :
    draft.stops kind q = (kind != .withDefaults && draft.holdsEdit call) := by
  rw [stops, h]

theorem expands_of_error {fault : CallFault} (h : draft.scan.callAt q kind = .error fault) :
    draft.expands kind q = false := by
  rw [expands, h]

theorem stops_of_error {fault : CallFault} (h : draft.scan.callAt q kind = .error fault) :
    draft.stops kind q = true := by
  rw [stops, h]

/-- A pass does not stop at a call that it expands. -/
theorem stops_of_expands (h : draft.expands kind q) : draft.stops kind q = false := by
  cases hcall : draft.scan.callAt q kind with
  | error fault =>
    rw [expands_of_error hcall] at h
    cases h
  | ok call =>
    rw [expands_of_ok hcall, Bool.and_eq_true, Bool.not_eq_true'] at h
    rw [stops_of_ok hcall, h.1, Bool.and_false]

/-- A pass that looks at one call expands it or stops there. -/
theorem expands_or_stops (hkind : kind ≠ .withDefaults) (draft : Draft) (q : Nat) :
    draft.expands kind q ∨ draft.stops kind q := by
  have hother : (kind != .withDefaults) = true := bne_iff_ne.mpr hkind
  cases hcall : draft.scan.callAt q kind with
  | error fault => exact .inr (stops_of_error hcall)
  | ok call =>
    rw [expands_of_ok hcall, stops_of_ok hcall, hother]
    cases draft.holdsEdit call with
    | true => exact .inr rfl
    | false => exact .inl rfl

/-- A call that stands apart from the edits, and from other calls of its macro before it, and that has what
it needs to be expanded. -/
def StandsOut (draft : Draft) (kind : MacroKind) (p : Nat) : Prop :=
  p ∈ draft.scan.callOffsets kind.name ∧ ∃ call ∈ (draft.scan.callAt p kind).toOption,
    (kind = .withDefaults → call.wrapsProps) ∧
    (∀ edit ∈ draft.edits, edit.stop < p ∨ call.stop < edit.start) ∧
    ∀ q ∈ draft.scan.callOffsets kind.name, ∀ other ∈ (draft.scan.callAt q kind).toOption,
      q < p → other.stop < p

instance (draft : Draft) (kind : MacroKind) (p : Nat) : Decidable (draft.StandsOut kind p) :=
  inferInstanceAs (Decidable (p ∈ draft.scan.callOffsets kind.name ∧ _))

/-- The pass stops before the call, and expands no call before it does. -/
def Hides (draft : Draft) (kind : MacroKind) (p : Nat) : Prop :=
  ∃ q ∈ draft.lookedAt kind, q < p ∧ draft.stops kind q ∧
    ∀ r ∈ draft.lookedAt kind, r < q → draft.expands kind r = false

instance (draft : Draft) (kind : MacroKind) (p : Nat) : Decidable (draft.Hides kind p) :=
  inferInstanceAs (Decidable (∃ q ∈ draft.lookedAt kind, _))

/-! ## The `withDefaults` pass -/

section Visits

variable {resume : Nat} {offsets : List Nat}

theorem visitedFrom_subset (draft : Draft) (resume : Nat) (offsets : List Nat) :
    draft.visitedFrom resume offsets ⊆ offsets := by
  induction offsets generalizing resume with
  | nil => exact List.Subset.refl _
  | cons index later ih =>
    rw [visitedFrom]
    split
    · exact List.subset_cons_of_subset index (ih resume)
    split
    · exact List.cons_subset_cons index (List.nil_subset later)
    · exact List.cons_subset_cons index (ih _)

/-- The pass looks at no call after a malformed one. -/
theorem le_of_malformed (hsorted : offsets.Pairwise (· < ·)) {r : Nat} {fault : CallFault}
    (hq : q ∈ draft.visitedFrom resume offsets) (hr : r ∈ draft.visitedFrom resume offsets)
    (hmalformed : draft.scan.callAt q .withDefaults = .error fault) : r ≤ q := by
  induction offsets generalizing resume with
  | nil => cases hq
  | cons index later ih =>
    obtain ⟨hfirst, hlater⟩ := List.pairwise_cons.mp hsorted
    rw [visitedFrom] at hq hr
    split at hq
    · rw [if_pos ‹_›] at hr
      exact ih hlater hq hr
    rw [if_neg ‹_›] at hr
    split at hq
    · next hcall =>
      rw [hcall] at hr
      rw [List.mem_singleton.mp hq, List.mem_singleton.mp hr]
    · next call hcall =>
      rw [hcall] at hr
      rcases List.mem_cons.mp hq with rfl | hqlater
      · rw [hcall] at hmalformed
        cases hmalformed
      · rcases List.mem_cons.mp hr with rfl | hrlater
        · exact Nat.le_of_lt (hfirst q (visitedFrom_subset draft _ later hqlater))
        · exact ih hlater hqlater hrlater

/-- A free call outside the other ones is looked at, unless a malformed one comes before it. -/
theorem mem_visitedFrom (hsorted : offsets.Pairwise (· < ·)) {p : Nat} (hp : p ∈ offsets) (hresume : resume ≤ p)
    (hfree : draft.edits.covers p = false)
    (houtside : ∀ q ∈ offsets, ∀ other, draft.scan.callAt q .withDefaults = .ok other → q < p → other.stop < p) :
    p ∈ draft.visitedFrom resume offsets ∨
      ∃ q ∈ draft.visitedFrom resume offsets, q < p ∧ draft.stops .withDefaults q := by
  induction offsets generalizing resume with
  | nil => cases hp
  | cons index later ih =>
    obtain ⟨hfirst, hlater⟩ := List.pairwise_cons.mp hsorted
    obtain ⟨hindex, hrest⟩ := List.forall_mem_cons.mp houtside
    rw [visitedFrom]
    rcases List.mem_cons.mp hp with rfl | hmem
    · -- the call itself is not passed over
      rw [if_neg (by simp [hfree, Nat.not_lt.mpr hresume])]
      split
      · exact .inl List.mem_cons_self
      · exact .inl List.mem_cons_self
    · have hlt := hfirst p hmem
      split
      · exact ih hlater hmem hresume hrest
      split
      · next hcall => exact .inr ⟨index, List.mem_singleton_self _, hlt, stops_of_error hcall⟩
      · next call hcall =>
        have hstop := hindex call hcall hlt
        rcases ih hlater hmem hstop hrest with hvisited | ⟨q, hq, hstops⟩
        · exact .inl (List.mem_cons_of_mem _ hvisited)
        · exact .inr ⟨q, List.mem_cons_of_mem _ hq, hstops⟩

variable {rewrites : List Rewrite}

/-- Calls that were rewritten before an offset take no call after it. -/
theorem covers_rewritten (hbefore : ∀ rewrite ∈ rewrites, rewrite.call.stop < resume) (journal : Journal)
    {index : Nat} (hindex : resume ≤ index) :
    (draft.rewritten rewrites journal).edits.covers index = draft.edits.covers index := by
  have hnew : EditList.covers (rewrites.map (Rewrite.edit draft.settings)) index = false := by
    refine EditList.covers_eq_false.mpr fun edit hedit => ?_
    obtain ⟨rewrite, hrewrite, rfl⟩ := List.mem_map.mp hedit
    have hstop := hbefore rewrite hrewrite
    simp only [Rewrite.edit]
    omega
  unfold EditList.covers at hnew ⊢
  rw [rewritten, List.any_append, hnew, Bool.or_false]

/-- Nor do they stand inside such a call. -/
theorem holdsEdit_rewritten (hbefore : ∀ rewrite ∈ rewrites, rewrite.call.stop < resume) (journal : Journal)
    {call : MacroCall} (hcall : (resume : Int) ≤ call.start) :
    (draft.rewritten rewrites journal).holdsEdit call = draft.holdsEdit call := by
  have hnew : EditList.overlaps (rewrites.map (Rewrite.edit draft.settings)) call.start call.stop = false := by
    refine Bool.eq_false_iff.mpr fun hoverlap => ?_
    obtain ⟨edit, hedit, hstart, -⟩ := EditList.overlaps_eq_true.mp hoverlap
    obtain ⟨rewrite, hrewrite, rfl⟩ := List.mem_map.mp hedit
    have hstop := hbefore rewrite hrewrite
    simp only [Rewrite.edit] at hstart
    omega
  unfold holdsEdit EditList.overlaps at *
  rw [rewritten, List.any_append, hnew, Bool.or_false]

/-- What the pass does with a well-formed call that it looks at. -/
def lookAt (draft : Draft) (index : Nat) (call : MacroCall) : Outcome :=
  if draft.holdsEdit call then ⟨draft.noteHeld call, none⟩ else draft.expandDefaultsCall index call

/-- The pass goes on after the call. -/
theorem lookAt_andThen (draft : Draft) (index : Nat) (call : MacroCall) (later : List Nat) :
    (if draft.holdsEdit call then (draft.noteHeld call).expandDefaultsFrom (call.stop + 1) later
      else (draft.expandDefaultsCall index call).andThen fun next =>
        next.expandDefaultsFrom (call.stop + 1) later) =
      (draft.lookAt index call).andThen fun next => next.expandDefaultsFrom (call.stop + 1) later := by
  unfold lookAt
  split
  · rfl
  · rfl

/-- A call after those that were rewritten is rewritten just when it expands on the draft before the
pass. -/
theorem lookAt_rewritten (hbefore : ∀ rewrite ∈ rewrites, rewrite.call.stop < resume) (journal : Journal)
    {index : Nat} (hindex : index ∈ draft.scan.callOffsets MacroKind.withDefaults.name) (hresume : resume ≤ index)
    {call : MacroCall} (hcall : draft.scan.callAt index .withDefaults = .ok call) :
    ∃ step journal', (draft.rewritten rewrites journal).lookAt index call =
        ⟨draft.rewritten (rewrites ++ step) journal', none⟩ ∧
      step.map Rewrite.index = (if draft.expands .withDefaults index then [index] else []) ∧
      ∀ rewrite ∈ step, rewrite.call.stop < call.stop + 1 := by
  have hstart : call.start = index := (Scan.callAt_eq_ok hindex hcall).2.1
  have hholds : (draft.rewritten rewrites journal).holdsEdit call = draft.holdsEdit call :=
    holdsEdit_rewritten hbefore journal (by omega)
  rw [lookAt, hholds, expands_of_ok hcall]
  cases hedit : draft.holdsEdit call with
  | true => exact ⟨[], _, by rw [List.append_nil]; rfl, rfl, by simp⟩
  | false =>
    have hfree : ¬ (draft.rewritten rewrites journal).holdsEdit call := by
      rw [hholds, hedit]
      exact Bool.false_ne_true
    have hcalled : index ∈ (draft.rewritten rewrites journal).scan.callOffsets MacroKind.withDefaults.name := hindex
    rcases expandDefaultsCall_cases hcalled hcall hfree with ⟨hnone, journal', hrun⟩ |
      ⟨definition, journal', hsome, hrun⟩
    · rw [rewritten_rewritten] at hrun
      exact ⟨[], journal', hrun, by rw [MacroCall.wrapsProps, hnone]; rfl, by simp⟩
    · rw [rewritten_rewritten] at hrun
      refine ⟨[⟨index, call, definition⟩], journal', hrun, by rw [MacroCall.wrapsProps, hsome]; rfl, ?_⟩
      intro rewrite hrewrite
      rw [List.mem_singleton.mp hrewrite]
      exact Nat.lt_succ_self _

/-- The pass rewrites those of the calls that it looks at which expand. -/
theorem expandDefaultsFrom_visits (draft : Draft) (journal : Journal)
    (hoffsets : ∀ p ∈ offsets, p ∈ draft.scan.callOffsets MacroKind.withDefaults.name)
    (hbefore : ∀ rewrite ∈ rewrites, rewrite.call.stop < resume) :
    ∃ news journal', (draft.rewritten rewrites journal).expandDefaultsFrom resume offsets =
        ⟨draft.rewritten (rewrites ++ news) journal', none⟩ ∧
      ∀ q, q ∈ news.map Rewrite.index ↔
        q ∈ draft.visitedFrom resume offsets ∧ draft.expands .withDefaults q := by
  -- the edits that the pass makes lie before the calls that it has still to look at
  induction offsets generalizing rewrites resume journal with
  | nil => exact ⟨[], journal, by rw [List.append_nil]; rfl, by simp [visitedFrom]⟩
  | cons index later ih =>
    obtain ⟨hindex, hlater⟩ := List.forall_mem_cons.mp hoffsets
    have hskips : (decide (index < resume) || (draft.rewritten rewrites journal).edits.covers index) =
        (decide (index < resume) || draft.edits.covers index) := by
      by_cases hlt : index < resume
      · simp [hlt]
      · rw [covers_rewritten hbefore journal (Nat.not_lt.mp hlt)]
    have hscan : (draft.rewritten rewrites journal).scan = draft.scan := rfl
    rw [expandDefaultsFrom, visitedFrom, hskips, hscan]
    by_cases hskip : (decide (index < resume) || draft.edits.covers index) = true
    · rw [if_pos hskip, if_pos hskip]
      exact ih journal hlater hbefore
    rw [if_neg hskip, if_neg hskip]
    have hresume : resume ≤ index := by
      by_contra hlt
      exact hskip (by simp [Nat.not_le.mp hlt])
    cases hcall : draft.scan.callAt index .withDefaults with
    | error fault =>
      refine ⟨[], _, by rw [List.append_nil]; rfl, fun q => ?_⟩
      simp only [List.map_nil, List.not_mem_nil, List.mem_singleton, false_iff, not_and]
      rintro rfl
      rw [expands_of_error hcall]
      exact Bool.false_ne_true
    | ok call =>
      obtain ⟨step, last, hstep, hmap, hstops⟩ := lookAt_rewritten hbefore journal hindex hresume hcall
      have hbounds := (Scan.callAt_eq_ok hindex hcall).2.2.bounds
      have hbefore' : ∀ rewrite ∈ rewrites ++ step, rewrite.call.stop < call.stop + 1 := by
        refine List.forall_mem_append.mpr ⟨fun rewrite hrewrite => ?_, hstops⟩
        have hstop := hbefore rewrite hrewrite
        omega
      obtain ⟨news, journal', hrun, hnews⟩ := ih last hlater hbefore'
      refine ⟨step ++ news, journal', ?_, fun q => ?_⟩
      · dsimp only
        rw [lookAt_andThen, hstep, ← List.append_assoc]
        exact hrun
      · rw [List.map_append, hmap, List.mem_append, hnews, List.mem_cons]
        by_cases hexpands : draft.expands .withDefaults index = true
        · rw [if_pos hexpands, List.mem_singleton]
          constructor
          · rintro (rfl | ⟨hq, hq'⟩)
            · exact ⟨.inl rfl, hexpands⟩
            · exact ⟨.inr hq, hq'⟩
          · rintro ⟨rfl | hq, hq'⟩
            · exact .inl rfl
            · exact .inr ⟨hq, hq'⟩
        · rw [if_neg hexpands]
          constructor
          · rintro (hnil | ⟨hq, hq'⟩)
            · cases hnil
            · exact ⟨.inr hq, hq'⟩
          · rintro ⟨rfl | hq, hq'⟩
            · exact absurd hq' hexpands
            · exact .inr ⟨hq, hq'⟩

end Visits

/-- Rewriting nothing and logging nothing changes nothing. -/
theorem rewritten_self (draft : Draft) : draft.rewritten [] draft.journal = draft :=
  (congrArg Outcome.draft (draft.rewritten_nil draft.journal)).symm

/-- The calls that the whole pass rewrites. -/
theorem expandDefaults_visits (draft : Draft) :
    ∃ rewrites journal, draft.expandDefaults = ⟨draft.rewritten rewrites journal, none⟩ ∧
      ∀ q, q ∈ rewrites.map Rewrite.index ↔
        q ∈ draft.lookedAt .withDefaults ∧ draft.expands .withDefaults q := by
  obtain ⟨news, journal, hrun, hnews⟩ := @expandDefaultsFrom_visits 0
    (draft.scan.callOffsets MacroKind.withDefaults.name) [] draft draft.journal (fun p hp => hp) (by simp)
  rw [rewritten_self] at hrun
  exact ⟨news, journal, hrun, hnews⟩

/-! ## The other passes -/

/-- A result of the macro is recorded. -/
def Recorded (results : List MacroResult) (kind : MacroKind) : Prop := ∃ result ∈ results, result.kind = kind

theorem recorded_append {results later : List MacroResult} :
    Recorded (results ++ later) kind ↔ Recorded results kind ∨ Recorded later kind := by
  simp only [Recorded, List.mem_append, or_and_right, exists_or]

/-- A pass that looks at one call has one to work on just when that one expands. -/
theorem exists_firstCall?_iff (hkind : kind ≠ .withDefaults) :
    (∃ index call, draft.firstCall? kind = some (index, call)) ↔
      ∃ q ∈ draft.lookedAt kind, draft.expands kind q := by
  have hother : (kind != .withDefaults) = true := bne_iff_ne.mpr hkind
  rw [lookedAt_of_ne hkind]
  constructor
  · rintro ⟨index, call, hfirst⟩
    obtain ⟨hnext, hcall, hfree⟩ := firstCall?_eq_some.mp hfirst
    refine ⟨index, by rw [hnext]; exact List.mem_singleton_self _, ?_⟩
    rw [expands_of_ok hcall, hfree, hother]
    rfl
  · rintro ⟨q, hq, hexpands⟩
    have hnext := Option.mem_toList.mp hq
    cases hcall : draft.scan.callAt q kind with
    | error fault =>
      rw [expands_of_error hcall] at hexpands
      cases hexpands
    | ok call =>
      rw [expands_of_ok hcall, Bool.and_eq_true, Bool.not_eq_true'] at hexpands
      exact ⟨q, call, firstCall?_eq_some.mpr ⟨hnext, hcall, hexpands.1⟩⟩

/-- It records a result just when that call expands, and of its own macro only. -/
theorem recorded_chosenResult {other : MacroKind} (hkind : kind ≠ .withDefaults) :
    Recorded (draft.chosenResult kind (draft.firstCall? kind)) other ↔
      kind = other ∧ ∃ q ∈ draft.lookedAt kind, draft.expands kind q := by
  rw [← exists_firstCall?_iff hkind]
  cases hfirst : draft.firstCall? kind with
  | none => simp [Recorded, chosenResult]
  | some chosen =>
    obtain ⟨index, call⟩ := chosen
    have hcallKind := (of_firstCall? hfirst).2.2.1
    simp [Recorded, chosenResult, hcallKind]

/-- What a pass that looks at one call adds to the results. -/
theorem results_run_single {pass : Pass} (hpass : pass.single? = some kind) (hstrict : draft.strict = false) :
    (pass.run draft).draft.results = draft.results ++ draft.chosenResult kind (draft.firstCall? kind) ∧
      (pass.run draft).draft.strict = false := by
  obtain ⟨journal, hrun⟩ := run_single hpass hstrict
  rw [hrun]
  exact ⟨results_taken draft kind journal _, (sameScript_taken draft kind journal _).strict.trans hstrict⟩

/-- What the three passes add to the results. -/
theorem results_expandExpose {beforeProps beforeEmits beforeExpose : Draft} (hstrict : beforeProps.strict = false)
    (hprops : beforeEmits = beforeProps.expandProps.draft) (hemits : beforeExpose = beforeEmits.expandEmits.draft) :
    beforeExpose.expandExpose.draft.results = beforeProps.results ++
      (beforeProps.chosenResult .defineProps (beforeProps.firstCall? .defineProps) ++
        (beforeEmits.chosenResult .defineEmits (beforeEmits.firstCall? .defineEmits) ++
          beforeExpose.chosenResult .defineExpose (beforeExpose.firstCall? .defineExpose))) := by
  have hfirst := @results_run_single beforeProps _ .props rfl hstrict
  rw [Pass.run, ← hprops] at hfirst
  have hsecond := @results_run_single beforeEmits _ .emits rfl hfirst.2
  rw [Pass.run, ← hemits] at hsecond
  have hthird := @results_run_single beforeExpose _ .expose rfl hsecond.2
  rw [Pass.run] at hthird
  rw [hthird.1, hsecond.1, hfirst.1, List.append_assoc, List.append_assoc]

/-! ## Whole compilations -/

/-- The draft on which the `defineExpose` pass runs. -/
def beforeExpose (settings : Settings) (source : Text) (name : Option Text) (strict : Option Bool) : Draft :=
  (beforeEmits settings source name strict).expandEmits.draft

/-- The draft on which the pass of a macro runs. -/
def passDraft (settings : Settings) (source : Text) (name : Option Text) (strict : Option Bool) :
    MacroKind → Draft
  | .defineProps => beforeProps settings source name strict
  | .defineEmits => beforeEmits settings source name strict
  | .defineExpose => beforeExpose settings source name strict
  | _ => hoisted settings source name strict

variable {settings : Settings} {source : Text} {name : Option Text} {strict : Option Bool}

/-- The results of a compilation, pass by pass. -/
theorem results_of_compiles (hlenient : strict.getD settings.strictMode = false) {output : Output}
    (h : (compileScript settings source name strict).value = .ok output) :
    ∃ rewrites : List Rewrite,
      (∀ q, q ∈ rewrites.map Rewrite.index ↔
        q ∈ (hoisted settings source name strict).lookedAt .withDefaults ∧
          (hoisted settings source name strict).expands .withDefaults q) ∧
      output.results = rewrites.map (Rewrite.result (hoisted settings source name strict)) ++
        ((beforeProps settings source name strict).chosenResult .defineProps
            ((beforeProps settings source name strict).firstCall? .defineProps) ++
          ((beforeEmits settings source name strict).chosenResult .defineEmits
              ((beforeEmits settings source name strict).firstCall? .defineEmits) ++
            (beforeExpose settings source name strict).chosenResult .defineExpose
              ((beforeExpose settings source name strict).firstCall? .defineExpose))) := by
  obtain ⟨hentangled, -, hdraft, houtput⟩ := stages_of_compiles h
  obtain ⟨-, -, -, hnone, -⟩ := hoisted_facts name strict hentangled
  obtain ⟨rewrites, journal, hdefaults, hrewrites⟩ := (hoisted settings source name strict).expandDefaults_visits
  have hstart : (beforeProps settings source name strict).results =
      rewrites.map (Rewrite.result (hoisted settings source name strict)) := by
    rw [beforeProps, hdefaults, rewritten, hnone, List.nil_append]
  have hstrict : (beforeProps settings source name strict).strict = false :=
    (stages_sound name strict hentangled).1.1.strict.trans hlenient
  have hlast : output.results = (beforeExpose settings source name strict).expandExpose.draft.results := by
    rw [houtput, beforeExpose, ← hdraft]
    rfl
  have hprops : beforeEmits settings source name strict =
      (beforeProps settings source name strict).expandProps.draft := rfl
  have hemits : beforeExpose settings source name strict =
      (beforeEmits settings source name strict).expandEmits.draft := rfl
  exact ⟨rewrites, hrewrites, by rw [hlast, results_expandExpose hstrict hprops hemits, hstart]⟩

/-- Rewritten calls are recorded as `withDefaults` calls, if there are any. -/
theorem recorded_rewrites (draft : Draft) (rewrites : List Rewrite) :
    Recorded (rewrites.map (Rewrite.result draft)) kind ↔
      kind = .withDefaults ∧ ∃ q, q ∈ rewrites.map Rewrite.index := by
  constructor
  · rintro ⟨result, hresult, rfl⟩
    obtain ⟨rewrite, hrewrite, rfl⟩ := List.mem_map.mp hresult
    exact ⟨rfl, rewrite.index, List.mem_map_of_mem hrewrite⟩
  · rintro ⟨rfl, q, hq⟩
    obtain ⟨rewrite, hrewrite, -⟩ := List.mem_map.mp hq
    exact ⟨rewrite.result draft, List.mem_map_of_mem hrewrite, rfl⟩

/-- A macro is recorded just when its pass looks at a call that expands. -/
theorem recorded_iff_expands (hlenient : strict.getD settings.strictMode = false) {output : Output}
    (h : (compileScript settings source name strict).value = .ok output) (hkind : kind.isSupported) :
    Recorded output.results kind ↔ ∃ q ∈ (passDraft settings source name strict kind).lookedAt kind,
      (passDraft settings source name strict kind).expands kind q := by
  obtain ⟨rewrites, hrewrites, hresults⟩ := results_of_compiles hlenient h
  rw [hresults, recorded_append, recorded_append, recorded_append, recorded_rewrites,
    recorded_chosenResult (by decide), recorded_chosenResult (by decide), recorded_chosenResult (by decide)]
  cases kind with
  | withDefaults =>
    simp only [hrewrites, reduceCtorEq, false_and, or_false, true_and]
    rfl
  | defineProps =>
    simp only [reduceCtorEq, false_and, or_false, false_or, true_and]
    rfl
  | defineEmits =>
    simp only [reduceCtorEq, false_and, or_false, false_or, true_and]
    rfl
  | defineExpose =>
    simp only [reduceCtorEq, false_and, false_or, true_and]
    rfl
  | defineModel | defineSlots | defineOptions => cases hkind

/-! ## Hidden calls -/

/-- No call that the pass looks at comes after one at which it stops. -/
theorem le_of_stops {r : Nat} (hq : q ∈ draft.lookedAt kind) (hr : r ∈ draft.lookedAt kind)
    (hstops : draft.stops kind q) : r ≤ q := by
  by_cases hkind : kind = .withDefaults
  · subst hkind
    cases hcall : draft.scan.callAt q .withDefaults with
    | error fault => exact le_of_malformed (pairwise_callOffsetsFrom _ none 0 draft.scan.cells) hq hr hcall
    | ok call =>
      rw [stops_of_ok hcall] at hstops
      cases hstops
  · rw [lookedAt_of_ne hkind, Option.mem_toList] at hq hr
    rw [hq] at hr
    exact Nat.le_of_eq (Option.some.inj hr).symm

/-- A call that stands out is taken by no edit and expands. -/
theorem StandsOut.free {p : Nat} (h : draft.StandsOut kind p) :
    draft.edits.covers p = false ∧ draft.expands kind p := by
  obtain ⟨hp, call, hcall, hwraps, hapart, -⟩ := h
  have hread := mem_toOption_iff.mp hcall
  obtain ⟨-, hstart, hisCall⟩ := Scan.callAt_eq_ok hp hread
  have hbounds := hisCall.bounds
  constructor
  · refine EditList.covers_eq_false.mpr fun edit hedit => ?_
    have hedit := hapart edit hedit
    omega
  · have hholds : draft.holdsEdit call = false := by
      refine Bool.eq_false_iff.mpr fun hholds => ?_
      obtain ⟨edit, hedit, hstop, hstart'⟩ := EditList.overlaps_eq_true.mp hholds
      have hedit := hapart edit hedit
      omega
    rw [expands_of_ok hread, hholds, Bool.not_false, Bool.true_and, Bool.or_eq_true, bne_iff_ne]
    exact or_iff_not_imp_left.mpr fun hkind => hwraps (not_not.mp hkind)

/-- The pass looks at it, or at another call before it that expands or at which it stops. -/
theorem StandsOut.reached {p : Nat} (h : draft.StandsOut kind p) :
    p ∈ draft.lookedAt kind ∨
      ∃ q ∈ draft.lookedAt kind, q < p ∧ (draft.expands kind q ∨ draft.stops kind q) := by
  have hfree := h.free.1
  obtain ⟨hp, call, hcall, -, -, houtside⟩ := h
  have hsorted : (draft.scan.callOffsets kind.name).Pairwise (· < ·) := pairwise_callOffsetsFrom _ _ _ _
  by_cases hkind : kind = .withDefaults
  · subst hkind
    have hvisited := mem_visitedFrom hsorted hp (Nat.zero_le p) hfree fun q hq other hother =>
      houtside q hq other (mem_toOption_iff.mpr hother)
    refine hvisited.imp id ?_
    rintro ⟨q, hq, hlt, hstops⟩
    exact ⟨q, hq, hlt, .inr hstops⟩
  · -- the first call that is free is this one or comes before it
    rw [lookedAt_of_ne hkind]
    cases hnext : draft.nextCall? kind.name 0 with
    | none =>
      have hnone := List.find?_eq_none.mp hnext p hp
      simp [hfree] at hnone
    | some q =>
      have hle : q ≤ p := by
        obtain ⟨-, earlier, later, hcalls, hnot⟩ := List.find?_eq_some_iff_append.mp hnext
        rw [hcalls, List.mem_append, List.mem_cons] at hp
        rcases hp with hearlier | rfl | hlater
        · have hskipped := hnot p hearlier
          simp [hfree] at hskipped
        · exact Nat.le_refl _
        · rw [hcalls, List.pairwise_append, List.pairwise_cons] at hsorted
          exact Nat.le_of_lt (hsorted.2.1.1 p hlater)
      rcases Nat.eq_or_lt_of_le hle with rfl | hlt
      · exact .inl (List.mem_singleton_self _)
      · exact .inr ⟨q, List.mem_singleton_self _, hlt, expands_or_stops hkind draft q⟩

end Draft

/-- Without strict mode a macro is recorded just when its pass looks at a call that expands. So a call that
stands out, one that is well formed, apart from the edits and outside other calls of its macro, assures
that the macro is recorded just as long as the pass does not stop before it: at a malformed call, or, but
for `withDefaults`, at a call that holds an expanded one. -/
theorem recorded_iff_not_hidden (settings : Settings) (source : Text) (name : Option Text) (strict : Option Bool)
    (hlenient : strict.getD settings.strictMode = false) (output : Output)
    (hok : (compileScript settings source name strict).value = .ok output) (kind : MacroKind)
    (hkind : kind.isSupported) :
    (Draft.Recorded output.results kind ↔
      ∃ q ∈ (Draft.passDraft settings source name strict kind).lookedAt kind,
        (Draft.passDraft settings source name strict kind).expands kind q) ∧
    ∀ p, (Draft.passDraft settings source name strict kind).StandsOut kind p →
      (Draft.Recorded output.results kind ↔ ¬ (Draft.passDraft settings source name strict kind).Hides kind p) := by
  have hrecorded := Draft.recorded_iff_expands hlenient hok hkind
  refine ⟨hrecorded, fun p hp => ?_⟩
  rw [hrecorded]
  generalize Draft.passDraft settings source name strict kind = draft at hp
  constructor
  · rintro ⟨r, hr, hexpands⟩ ⟨q, hq, -, hstops, hnone⟩
    rcases Nat.eq_or_lt_of_le (Draft.le_of_stops hq hr hstops) with rfl | hlt
    · rw [Draft.stops_of_expands hexpands] at hstops
      cases hstops
    · rw [hnone r hr hlt] at hexpands
      cases hexpands
  · intro hnot
    rcases hp.reached with hlooked | ⟨q, hq, hlt, hexpands | hstops⟩
    · exact ⟨p, hlooked, hp.free.2⟩
    · exact ⟨q, hq, hexpands⟩
    · by_contra hnone
      refine hnot ⟨q, hq, hlt, hstops, fun r hr _ => ?_⟩
      exact Bool.eq_false_iff.mpr fun hexpands => hnone ⟨r, hr, hexpands⟩

/-- A call that wraps no declaration is skipped, and the next one is recorded. -/
theorem recorded_after_skipped_call :
    let source : Text := "withDefaults(x)\nwithDefaults(defineProps(['a']))"
    ∃ output, (compileScript {} source none (some false)).value = .ok output ∧
      (Draft.passDraft {} source none (some false) .withDefaults).StandsOut .withDefaults 16 ∧
      Draft.Recorded output.results .withDefaults := by
  intro source
  have hstands : (Draft.passDraft {} source none (some false) .withDefaults).StandsOut .withDefaults 16 := by
    decide +kernel
  have hseen : ¬ (Draft.passDraft {} source none (some false) .withDefaults).Hides .withDefaults 16 := by
    decide +kernel
  obtain ⟨output, hok, -⟩ := compileScript_of_plain source (some false)
    (by decide +kernel) (by decide +kernel) (by decide +kernel)
  have hrecorded := recorded_iff_not_hidden {} source none (some false) rfl output hok .withDefaults rfl
  exact ⟨output, hok, hstands, (hrecorded.2 16 hstands).mpr hseen⟩

/-- A call that holds an expanded one hides the next: nothing is recorded of the macro. -/
theorem call_hidden_by_enclosing_call :
    let source : Text := "defineEmits(defineProps(['a']))\ndefineEmits(['b'])"
    (Draft.passDraft {} source none (some false) .defineEmits).StandsOut .defineEmits 32 ∧
      ∃ output, (compileScript {} source none (some false)).value = .ok output ∧
        ¬ Draft.Recorded output.results .defineEmits := by
  intro source
  have hkinds : (plainRun source (some false)).draft.results.map MacroResult.kind = [.defineProps] := by
    decide +kernel
  obtain ⟨output, hok, -, hresults⟩ := compileScript_of_plain source (some false)
    (by decide +kernel) (by decide +kernel) (by decide +kernel)
  refine ⟨by decide +kernel, output, hok, ?_⟩
  rintro ⟨result, hresult, hkind⟩
  have hmem := List.mem_map_of_mem (f := MacroResult.kind) (hresults ▸ hresult)
  rw [hkinds, List.mem_singleton, hkind] at hmem
  cases hmem

end SetupScript
