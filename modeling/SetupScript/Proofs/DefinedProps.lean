import SetupScript.Proofs.ExpansionRuns
import SetupScript.Proofs.Recompilation

/-!
# The definition of the props

Two passes define the props. The `withDefaults` pass takes the definition that the first rewritten call
carries and keeps it. The `defineProps` pass takes that of the first call outside, whether or not there
is a definition already: without strict mode a repeated declaration is only reported, and the later pass
has the last word.
-/

namespace SetupScript

namespace Draft

variable {draft : Draft}

/-- The `defineProps` pass works on a call with another definition. -/
def Redeclares (draft : Draft) (first : Text) : Prop :=
  ∃ index call, draft.firstCall? .defineProps = some (index, call) ∧ call.definition "\x7b\x7d" ≠ first

/-! ## What each pass does to the props -/

/-- The `withDefaults` pass keeps a definition. -/
theorem props_expandDefaults {first : Text} (h : draft.props = some first) :
    draft.expandDefaults.draft.props = some first := by
  obtain ⟨rewrites, journal, -, -, hrun⟩ := draft.expandDefaults_run
  rw [hrun]
  simp only [rewritten, h, Option.some_or]

/-- Without strict mode the `defineProps` pass takes the definition of the call it works on. -/
theorem props_expandProps (hstrict : draft.strict = false) :
    draft.expandProps.draft.props =
      ((draft.firstCall? .defineProps).map fun found => found.2.definition "\x7b\x7d").or draft.props := by
  rcases draft.expandProps_cases with ⟨hnone, _, hrun⟩ |
    ⟨index, call, hfirst, ⟨hstrict', -⟩ | ⟨-, _, _, _, _, hrun, -⟩⟩
  · rw [hrun, hnone]
    rfl
  · rw [hstrict] at hstrict'
    cases hstrict'
  · rw [hrun, hfirst]
    rfl

/-- The `defineEmits` pass leaves the props alone. -/
theorem props_expandEmits (draft : Draft) : draft.expandEmits.draft.props = draft.props := by
  rcases draft.expandEmits_cases with ⟨-, _, hrun⟩ | ⟨index, call, -, _, _, _, _, hrun, -⟩
  · rw [hrun]
  · rw [hrun]
    rfl

/-- The `defineExpose` pass leaves the props alone. -/
theorem props_expandExpose (draft : Draft) : draft.expandExpose.draft.props = draft.props := by
  rcases draft.expandExpose_cases with ⟨-, _, hrun⟩ | ⟨index, call, -, _, _, _, hrun⟩
  · rw [hrun]
  · rw [hrun]
    rfl

/-- A definition taken over another one is the same one just when it is not declared anew. -/
theorem or_eq_some_iff_not_redeclares (draft : Draft) (first : Text) :
    ((draft.firstCall? .defineProps).map fun found => found.2.definition "\x7b\x7d").or (some first) =
      some first ↔ ¬ draft.Redeclares first := by
  cases hfirst : draft.firstCall? .defineProps with
  | none => simp [Redeclares, hfirst]
  | some found =>
    obtain ⟨index, call⟩ := found
    simp [Redeclares, hfirst]

/-! ## The calls that are rewritten -/

/-- What is recorded of the rewritten `withDefaults` calls. -/
def rewriteResults (results : List MacroResult) : List MacroResult :=
  results.filter fun result => result.kind = .withDefaults

/-- The call of another macro is none of them. -/
theorem rewriteResults_append {results : List MacroResult} {result : MacroResult}
    (h : result.kind ≠ .withDefaults) : rewriteResults (results ++ [result]) = rewriteResults results := by
  simp [rewriteResults, List.filter_append, h]

/-- The passes that come after the `withDefaults` pass rewrite no such call. -/
theorem rewriteResults_later (draft : Draft) :
    rewriteResults draft.expandProps.draft.results = rewriteResults draft.results ∧
      rewriteResults draft.expandEmits.draft.results = rewriteResults draft.results ∧
      rewriteResults draft.expandExpose.draft.results = rewriteResults draft.results := by
  have hother {kind : MacroKind} {index : Nat} {call : MacroCall} (hkind : kind ≠ .withDefaults)
      (hfirst : draft.firstCall? kind = some (index, call)) : call.kind ≠ .withDefaults := by
    rw [(of_firstCall? hfirst).2.2.1]
    exact hkind
  refine ⟨?_, ?_, ?_⟩
  · rcases draft.expandProps_cases with ⟨-, _, hrun⟩ |
      ⟨index, call, hfirst, ⟨-, -, hrun⟩ | ⟨-, _, _, _, _, hrun, -⟩⟩
    · rw [hrun]
    · rw [hrun]
    · rw [hrun]
      exact rewriteResults_append (hother (by decide) hfirst)
  · rcases draft.expandEmits_cases with ⟨-, _, hrun⟩ | ⟨index, call, hfirst, _, _, _, _, hrun, -⟩
    · rw [hrun]
    · rw [hrun]
      exact rewriteResults_append (hother (by decide) hfirst)
  · rcases draft.expandExpose_cases with ⟨-, _, hrun⟩ | ⟨index, call, hfirst, _, _, _, hrun⟩
    · rw [hrun]
    · rw [hrun]
      exact rewriteResults_append (hother (by decide) hfirst)

/-- A rewritten call is recorded as one. -/
theorem rewriteResults_map (draft : Draft) (rewrites : List Rewrite) :
    rewriteResults (rewrites.map (Rewrite.result draft)) = rewrites.map (Rewrite.result draft) := by
  rw [rewriteResults, List.filter_eq_self]
  intro result hresult
  obtain ⟨rewrite, -, rfl⟩ := List.mem_map.mp hresult
  simp [Rewrite.result]

/-! ## Whole compilations -/

variable {settings : Settings} {source : Text} {name : Option Text} {strict : Option Bool}

/-- The props of a compilation without strict mode are those of the first `defineProps` call that is
left after the `withDefaults` pass, or else those of the first `withDefaults` call that was rewritten. -/
theorem props_of_compiles (hlenient : strict.getD settings.strictMode = false) {output : Output}
    (h : (compileScript settings source name strict).value = .ok output) :
    ∃ rewrites : List Rewrite, (∀ rewrite ∈ rewrites, rewrite.Valid (Scan.ofText source)) ∧
      (rewrites.map Rewrite.index).Pairwise (· < ·) ∧
      rewriteResults output.results =
        rewrites.map (Rewrite.result (hoisted settings source name strict)) ∧
      output.props = (((beforeProps settings source name strict).firstCall? .defineProps).map
        fun found => found.2.definition "\x7b\x7d").or (rewrites.head?.map Rewrite.definition) := by
  obtain ⟨hentangled, -, hdraft, houtput⟩ := stages_of_compiles h
  obtain ⟨-, hsame, -, hresults, hprops, -⟩ := hoisted_facts name strict hentangled
  obtain ⟨rewrites, journal, hvalid, hsorted, -, hbefore⟩ := beforeProps_run settings source name strict
  have hscan : (hoisted settings source name strict).scan = Scan.ofText source := hsame.scan
  have hstrict : (beforeProps settings source name strict).strict = false :=
    (stages_sound name strict hentangled).1.1.strict.trans hlenient
  rw [hscan] at hvalid
  refine ⟨rewrites, hvalid, hsorted, ?_, ?_⟩
  · have hoverall : output.results =
        (beforeEmits settings source name strict).expandEmits.draft.expandExpose.draft.results := by
      rw [houtput, ← hdraft]
      rfl
    calc rewriteResults output.results
        = rewriteResults (beforeProps settings source name strict).results := by
          rw [hoverall, (rewriteResults_later _).2.2, (rewriteResults_later _).2.1, beforeEmits,
            (rewriteResults_later _).1]
      _ = rewriteResults (rewrites.map (Rewrite.result (hoisted settings source name strict))) := by
          rw [hbefore, rewritten, hresults, List.nil_append]
      _ = _ := rewriteResults_map _ rewrites
  · have hoverall : output.props =
        (beforeEmits settings source name strict).expandEmits.draft.expandExpose.draft.props := by
      rw [houtput, ← hdraft]
      rfl
    have hdefined : (beforeProps settings source name strict).props =
        rewrites.head?.map Rewrite.definition := by
      rw [hbefore, rewritten, hprops, Option.none_or]
    rw [hoverall, props_expandExpose, props_expandEmits, beforeEmits, props_expandProps hstrict, hdefined]

end Draft

/-- Without strict mode a pass that expands calls keeps a definition of the props, but for the
`defineProps` pass where it works on a call with another definition. So the props of a compilation are
those of the first rewritten `withDefaults` call just when they are not declared anew by a `defineProps`
call that is left after these calls. -/
theorem first_props_kept_iff_not_redeclared (settings : Settings) (source : Text) (name : Option Text)
    (strict : Option Bool) (hlenient : strict.getD settings.strictMode = false) :
    (∀ draft : Draft, draft.strict = false → ∀ first, draft.props = some first →
      ∀ pass : Pass, pass.isExpansion →
        ((pass.run draft).draft.props = some first ↔ ¬ (pass = .props ∧ draft.Redeclares first))) ∧
    ∀ output, (compileScript settings source name strict).value = .ok output →
      ∃ rewrites : List Rewrite, (∀ rewrite ∈ rewrites, rewrite.Valid (Scan.ofText source)) ∧
        (rewrites.map Rewrite.index).Pairwise (· < ·) ∧
        Draft.rewriteResults output.results =
          rewrites.map (Rewrite.result (Draft.hoisted settings source name strict)) ∧
        output.props =
          (((Draft.beforeProps settings source name strict).firstCall? .defineProps).map
            fun found => found.2.definition "\x7b\x7d").or (rewrites.head?.map Rewrite.definition) ∧
        ∀ first ∈ rewrites.head?, (output.props = some first.definition ↔
          ¬ (Draft.beforeProps settings source name strict).Redeclares first.definition) := by
  refine ⟨fun draft hstrict first hfirst pass hpass => ?_, fun output hok => ?_⟩
  · cases pass with
    | refuse => cases hpass
    | hoist => cases hpass
    | defaults => exact iff_of_true (Draft.props_expandDefaults hfirst) (by simp)
    | props =>
      rw [Pass.run, Draft.props_expandProps hstrict, hfirst, draft.or_eq_some_iff_not_redeclares]
      simp
    | emits => exact iff_of_true (draft.props_expandEmits.trans hfirst) (by simp)
    | expose => exact iff_of_true (draft.props_expandExpose.trans hfirst) (by simp)
  · obtain ⟨rewrites, hvalid, hsorted, hresults, hprops⟩ := Draft.props_of_compiles hlenient hok
    refine ⟨rewrites, hvalid, hsorted, hresults, hprops, fun first hfirst => ?_⟩
    rw [hprops, Option.mem_def.mp hfirst]
    exact Draft.or_eq_some_iff_not_redeclares _ _

/-- A call outside overrides the definition that a rewritten call carries. -/
theorem props_overridden_by_later_call :
    let source : Text := "withDefaults(defineProps(['a']), \x7b\x7d)\ndefineProps(['b'])"
    ∃ output, (compileScript {} source none (some false)).value = .ok output ∧
      output.results.map MacroResult.kind = [.withDefaults, .defineProps] ∧
      output.props = some "['b']" := by
  intro source
  have hkinds : (plainRun source (some false)).draft.results.map MacroResult.kind =
      [.withDefaults, .defineProps] := by decide +kernel
  have hdefined : (plainRun source (some false)).draft.props = some "['b']" := by decide +kernel
  obtain ⟨output, hok, hprops, hresults⟩ := compileScript_of_plain source (some false)
    (by decide +kernel) (by decide +kernel) (by decide +kernel)
  exact ⟨output, hok, by rw [hresults, hkinds], hprops.trans hdefined⟩

/-- Of two rewritten calls the first one defines the props. -/
theorem props_kept_after_second_rewrite :
    let source : Text := "withDefaults(defineProps(['a']), \x7b\x7d)\n" ++
      "withDefaults(defineProps(['b']), \x7b\x7d)"
    ∃ output, (compileScript {} source none (some false)).value = .ok output ∧
      output.props = some "['a']" ∧
      ∃ first : Rewrite, first.Valid (Scan.ofText source) ∧ output.props = some first.definition := by
  intro source
  have hcount : (Draft.rewriteResults (plainRun source (some false)).draft.results).length = 2 := by
    decide +kernel
  have hdefined : (plainRun source (some false)).draft.props = some "['a']" := by decide +kernel
  have hnone : (Draft.beforeProps {} source none (some false)).firstCall? .defineProps = none :=
    Option.isNone_iff_eq_none.mp (by decide +kernel)
  obtain ⟨output, hok, hprops, hresults⟩ := compileScript_of_plain source (some false)
    (by decide +kernel) (by decide +kernel) (by decide +kernel)
  refine ⟨output, hok, hprops.trans hdefined, ?_⟩
  obtain ⟨rewrites, hvalid, -, hrewritten, -, hkept⟩ :=
    (first_props_kept_iff_not_redeclared {} source none (some false) rfl).2 output hok
  cases rewrites with
  | nil =>
    rw [← hresults, hrewritten] at hcount
    cases hcount
  | cons first rest =>
    refine ⟨first, hvalid first (by simp), (hkept first (by simp)).mpr ?_⟩
    rintro ⟨index, call, hfirst, -⟩
    rw [hnone] at hfirst
    cases hfirst

end SetupScript
