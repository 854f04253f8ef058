import SetupScript.Proofs.ExpansionRuns
import SetupScript.Proofs.WrittenNames

/-!
# Returned names and framework names

The import statements that are hoisted share no character, so sorting them by where they start puts
them in the order of the source. The names that those of the framework module add to the scope are
recorded along with them, each once, at its first occurrence; no later pass touches them. What the
setup function returns are the declared names without its own parameters and without these.
-/

namespace SetupScript

/-- The import that is hoisted, unless it is one of a component file. -/
def Hoisted.record? : Hoisted → Option ImportRecord
  | .module record => some record
  | .component _ => none

/-- The names that imports of the framework module add to the scope of a script. -/
def frameworkLocals (settings : Settings) (imports : List ImportRecord) : List Text :=
  (imports.filter fun record => record.path = settings.frameworkModule).flatMap ImportRecord.localNames

namespace Draft

/-! ## Adding names -/

/-- Adding names to names without repetitions leaves none. -/
theorem nodup_addNames {known : List Text} (h : known.Nodup) (new : List Text) :
    (addNames known new).Nodup := by
  induction new generalizing known with
  | nil => exact h
  | cons name rest ih =>
    rw [addNames]
    split
    · exact ih h
    · next hnew =>
      refine ih (List.nodup_append.mpr ⟨h, List.pairwise_singleton _ name, ?_⟩)
      intro a ha b hb heq
      rw [heq, List.mem_singleton.mp hb] at ha
      exact hnew ha

/-- Names are added one list after the other. -/
theorem addNames_append (known a b : List Text) :
    addNames known (a ++ b) = addNames (addNames known a) b := by
  induction a generalizing known with
  | nil => rfl
  | cons name rest ih => rw [List.cons_append, addNames, addNames, ih]

/-- What is added to names are the first occurrences of the others. -/
theorem addNames_eq_append (known new : List Text) :
    addNames known new = known ++ (new.filter fun name => !known.contains name).eraseDups := by
  induction new generalizing known with
  | nil => simp [addNames]
  | cons name rest ih =>
    rw [addNames, ih]
    by_cases hknown : name ∈ known
    · simp [hknown]
    · have hothers : (rest.filter fun other => !(known ++ [name]).contains other) =
          (rest.filter fun other => !known.contains other).filter fun other => !other == name := by
        rw [List.filter_filter]
        refine List.filter_congr fun other _ => ?_
        by_cases heq : other = name
        · simp [heq]
        · simp [heq]
      rw [if_neg hknown, hothers, List.append_assoc, List.singleton_append, ← List.eraseDups_cons,
        List.filter_cons_of_pos (by simpa using hknown)]

/-- Names added to none are the first occurrences. -/
theorem addNames_nil (new : List Text) : addNames [] new = new.eraseDups := by
  simp [addNames_eq_append]

/-! ## Statements that are hoisted -/

/-- A hoisted statement as it is recorded: where it starts, and what it hoists. -/
def hoistedItem (found : Text.Match Hoisted) : Nat × Hoisted := (found.start, found.value)

/-- Unless an edit is refused, claiming statements claims some of them, all in code, each with an edit
of its own. -/
theorem claimAll_statements (draft : Draft) (founds : List (Text.Match Hoisted))
    (h : (draft.claimAll founds).1.error = none) :
    ∃ claimed : List (Text.Match Hoisted), claimed.Sublist founds ∧
      (∀ found ∈ claimed, draft.scan.isCode found.start) ∧
      draft.claimAll founds =
        (⟨{ draft with
            edits := draft.edits ++ claimed.map fun found => draft.markerEdit found.start found.stop },
          none⟩, claimed.map hoistedItem) := by
  induction founds generalizing draft with
  | nil => exact ⟨[], List.Sublist.refl _, by simp, by simp [claimAll]⟩
  | cons found rest ih =>
    rcases draft.claim_cases found.start found.stop with ⟨-, hskip⟩ | ⟨-, -, hrefused⟩ |
      ⟨hmay, -, hclaimed⟩
    · simp only [claimAll, hskip] at h ⊢
      obtain ⟨claimed, hsub, hcode, hrun⟩ := ih draft h
      exact ⟨claimed, hsub.cons found, hcode, hrun⟩
    · simp only [claimAll, hrefused] at h
      cases h
    · simp only [claimAll, hclaimed] at h ⊢
      obtain ⟨claimed, hsub, hcode, hrun⟩ := ih _ h
      refine ⟨found :: claimed, hsub.cons_cons found, List.forall_mem_cons.mpr ⟨hmay.1, hcode⟩, ?_⟩
      rw [hrun]
      simp only [List.append_assoc, List.map_cons, List.singleton_append, if_true]
      rfl

/-- Hoisting on a draft without edits records statements in code that share no character, in the order of
the source. -/
theorem hoistImports_statements {draft : Draft} (hsound : draft.Sound) (hedits : draft.edits = [])
    (h : draft.hoistImports.error = none) :
    ∃ (statements : List (Text.Match Hoisted)) (edits : EditList) (message : Text),
      (∀ found ∈ statements, found ∈ importMatches draft.settings.componentExtension draft.source ∧
        draft.scan.isCode found.start) ∧
      statements.Pairwise (fun a b => a.stop ≤ b.start) ∧
      draft.hoistImports.draft =
        (hoistAll { draft with edits := edits } (statements.map hoistedItem)).note 2 message := by
  obtain ⟨claimed, hsub, hcode, hclaim⟩ := draft.claimAll_statements _ (Outcome.andThen_of_ok h).1
  obtain ⟨news, hdraft, hvalid, -⟩ := claimAll_cases draft _ hsound.importMatches_bounds hsound.valid
  obtain rfl : news = claimed.map fun found => draft.markerEdit found.start found.stop := by
    rw [hclaim] at hdraft
    exact (List.append_cancel_left (congrArg Draft.edits hdraft)).symm
  have hmem {found : Text.Match Hoisted}
      (hfound : found ∈ claimed.mergeSort fun a b => a.start ≤ b.start) : found ∈ claimed :=
    List.mem_mergeSort.mp hfound
  have hsorted : (claimed.map hoistedItem).mergeSort (fun a b => a.1 ≤ b.1) =
      (claimed.mergeSort fun a b => a.start ≤ b.start).map hoistedItem :=
    (List.map_mergeSort (f := hoistedItem) fun _ _ _ _ => rfl).symm
  obtain ⟨message, hrun⟩ : ∃ message, draft.hoistImports.draft =
      (hoistAll { draft with
          edits := draft.edits ++ claimed.map fun found => draft.markerEdit found.start found.stop }
        ((claimed.map hoistedItem).mergeSort fun a b => a.1 ≤ b.1)).note 2 message :=
    ⟨_, by rw [hoistImports, hclaim]; rfl⟩
  rw [hsorted] at hrun
  refine ⟨_, _, message, fun found hfound =>
    ⟨hsub.subset (hmem hfound), hcode found (hmem hfound)⟩, ?_, hrun⟩
  rw [hedits, List.nil_append] at hvalid
  have hordered := hvalid.pairwise_mergeSort
  rw [← List.map_mergeSort (r := fun a b => a.start ≤ b.start) fun a _ b _ => by simp [markerEdit],
    List.pairwise_map] at hordered
  refine hordered.imp fun {a b} hab => ?_
  simp only [markerEdit] at hab
  omega

/-- Recording what statements hoist adds their imports in order. -/
theorem imports_hoistAll (statements : List (Text.Match Hoisted)) (draft : Draft) :
    (draft.hoistAll (statements.map hoistedItem)).imports =
      draft.imports ++ statements.filterMap fun found => found.value.record? := by
  induction statements generalizing draft with
  | nil => exact (List.append_nil _).symm
  | cons found rest ih =>
    have hstep : draft.hoistAll ((found :: rest).map hoistedItem) =
        (draft.hoist found.value).hoistAll (rest.map hoistedItem) := rfl
    rw [hstep, ih]
    cases hvalue : found.value with
    | module record => simp [hoist, hvalue, Hoisted.record?]
    | component component => simp [hoist, hvalue, Hoisted.record?]

/-! ## Framework names -/

/-- The framework names of a draft are those that its imports of the framework module add to the scope,
each at its first occurrence. -/
def NamesInStep (draft : Draft) : Prop :=
  draft.frameworkNames = (frameworkLocals draft.settings draft.imports).eraseDups

namespace NamesInStep

variable {draft : Draft}

/-- Recording one thing keeps the framework names in step. -/
theorem hoist (h : draft.NamesInStep) (hoisted : Hoisted) : (draft.hoist hoisted).NamesInStep := by
  cases hoisted with
  | component component => exact h
  | module record =>
    have hlocals : frameworkLocals draft.settings (draft.imports ++ [record]) =
        frameworkLocals draft.settings draft.imports ++
          if record.path = draft.settings.frameworkModule then record.localNames else [] := by
      by_cases hpath : record.path = draft.settings.frameworkModule
      · simp [frameworkLocals, hpath]
      · simp [frameworkLocals, hpath]
    simp only [NamesInStep, Draft.hoist, hlocals, ← addNames_nil] at h ⊢
    rw [addNames_append, ← h]
    split
    · rfl
    · rfl

/-- Recording one thing after the other keeps the framework names in step. -/
theorem hoistAll (h : draft.NamesInStep) (items : List (Nat × Hoisted)) :
    (draft.hoistAll items).NamesInStep := by
  induction items generalizing draft with
  | nil => exact h
  | cons item rest ih => exact ih (h.hoist item.2)

end NamesInStep

/-! ## The passes after hoisting -/

/-- Neither the settings, the imports nor the framework names differ. -/
structure SameNames (a b : Draft) : Prop where
  settings : b.settings = a.settings
  imports : b.imports = a.imports
  frameworkNames : b.frameworkNames = a.frameworkNames

theorem SameNames.trans {a b c : Draft} (h : SameNames a b) (h' : SameNames b c) : SameNames a c :=
  ⟨h'.settings.trans h.settings, h'.imports.trans h.imports, h'.frameworkNames.trans h.frameworkNames⟩

/-- Framework names stay in step where neither they nor the imports change. -/
theorem NamesInStep.of_same {a b : Draft} (h : a.NamesInStep) (hsame : SameNames a b) : b.NamesInStep := by
  rw [NamesInStep, hsame.frameworkNames, hsame.settings, hsame.imports]
  exact h

/-- The expansions leave imports and framework names alone. -/
theorem sameNames_expansion (draft : Draft) (pass : Pass) (hpass : pass.isExpansion) :
    SameNames draft (pass.run draft).draft := by
  cases pass with
  | refuse => cases hpass
  | hoist => cases hpass
  | defaults =>
    obtain ⟨rewrites, journal, -, -, hrun⟩ := draft.expandDefaults_run
    rw [Pass.run, hrun]
    exact ⟨rfl, rfl, rfl⟩
  | props =>
    rw [Pass.run]
    rcases draft.expandProps_cases with ⟨-, _, hrun⟩ |
      ⟨index, call, -, ⟨-, -, hrun⟩ | ⟨-, _, _, _, _, hrun, -⟩⟩
    · rw [hrun]
      exact ⟨rfl, rfl, rfl⟩
    · rw [hrun]
      exact ⟨rfl, rfl, rfl⟩
    · rw [hrun]
      exact ⟨rfl, rfl, rfl⟩
  | emits =>
    rw [Pass.run]
    rcases draft.expandEmits_cases with ⟨-, _, hrun⟩ | ⟨index, call, -, _, _, _, _, hrun, -⟩
    · rw [hrun]
      exact ⟨rfl, rfl, rfl⟩
    · rw [hrun]
      exact ⟨rfl, rfl, rfl⟩
  | expose =>
    rw [Pass.run]
    rcases draft.expandExpose_cases with ⟨-, _, hrun⟩ | ⟨index, call, -, _, _, _, hrun⟩
    · rw [hrun]
      exact ⟨rfl, rfl, rfl⟩
    · rw [hrun]
      exact ⟨rfl, rfl, rfl⟩

section

variable {settings : Settings} {source : Text} {name : Option Text} {strict : Option Bool}
  {output : Output}

/-- The draft of a script that compiles has the names that hoisting left. -/
theorem sameNames_of_compiles (h : (compileScript settings source name strict).value = .ok output) :
    SameNames (hoisted settings source name strict) (expandScript settings source name strict).draft := by
  obtain ⟨-, -, hdraft, -⟩ := stages_of_compiles h
  have hprops : SameNames (hoisted settings source name strict)
      (beforeEmits settings source name strict) :=
    (sameNames_expansion _ .defaults rfl).trans (sameNames_expansion _ .props rfl)
  rw [hdraft]
  exact (hprops.trans (sameNames_expansion _ .emits rfl)).trans (sameNames_expansion _ .expose rfl)

/-- The imports and framework names of a script that compiles are those that hoisting left. -/
theorem imports_eq_hoisted (h : (compileScript settings source name strict).value = .ok output) :
    output.imports = (hoisted settings source name strict).imports ∧
      output.frameworkNames = (hoisted settings source name strict).frameworkNames := by
  have hsame := sameNames_of_compiles h
  obtain ⟨-, -, -, rfl⟩ := stages_of_compiles h
  exact ⟨hsame.imports, hsame.frameworkNames⟩

/-- Where one statement is claimed, and it is no import of a component file, its import is recorded. -/
theorem imports_hoisted_of_single (hfree : ¬ Entangled settings.componentExtension source)
    {record : ImportRecord} {start : Nat}
    (hclaimed : ((announced settings source name strict).claimAll
      (importMatches settings.componentExtension source)).2 = [(start, .module record)]) :
    (hoisted settings source name strict).imports = [record] := by
  have hrun : ((announced settings source name strict).claimAll
      (importMatches settings.componentExtension source)).1 =
        ⟨(announced settings source name strict).afterImports, none⟩ :=
    claimAll_of_not_entangled rfl rfl hfree
  have hsettings : (announced settings source name strict).settings = settings := rfl
  have hsource : (announced settings source name strict).source = source := rfl
  simp only [hoisted, hoistImports, hsettings, hsource, hrun, hclaimed, Outcome.andThen,
    List.mergeSort_singleton]
  rfl

/-- The imports of a script that compiles are those of statements in code, in the order of the source,
and the framework names are in step with them. -/
theorem imports_of_compiles (h : (compileScript settings source name strict).value = .ok output) :
    (∃ statements : List (Text.Match Hoisted),
      (∀ found ∈ statements, found ∈ importMatches settings.componentExtension source ∧
        (Scan.ofText source).isCode found.start) ∧
      statements.Pairwise (fun a b => a.stop ≤ b.start) ∧
      output.imports = statements.filterMap fun found => found.value.record?) ∧
    output.frameworkNames = (frameworkLocals settings output.imports).eraseDups := by
  obtain ⟨hentangled, -⟩ := stages_of_compiles h
  obtain ⟨himports, hnames⟩ := imports_eq_hoisted h
  have hsound : (announced settings source name strict).Sound :=
    (sound_start settings source name strict).of_quiet (quiet_note _ _ _)
  obtain ⟨hrun, hscript, -⟩ := hoisted_facts name strict hentangled
  obtain ⟨statements, edits, message, hfound, hordered, hdraft⟩ :=
    hoistImports_statements hsound rfl (congrArg Outcome.error hrun)
  have hhoisted : hoisted settings source name strict = _ := hdraft
  rw [himports, hnames]
  constructor
  · refine ⟨statements, hfound, hordered, ?_⟩
    rw [hhoisted]
    exact imports_hoistAll statements _
  · have hempty : NamesInStep { announced settings source name strict with edits := edits } := rfl
    have hstep : (hoisted settings source name strict).NamesInStep := by
      rw [hhoisted]
      exact hempty.hoistAll _
    have hsettings : (hoisted settings source name strict).settings = settings := hscript.settings
    rw [NamesInStep, hsettings] at hstep
    exact hstep

end

end Draft

/-! ## Returned names -/

/-- An identifier is an ASCII letter, an underscore or a dollar sign with word characters and dollar
signs after it. -/
theorem Text.isIdentifier_iff {name : Text} :
    Text.isIdentifier name ↔ ∃ c rest, name = c :: rest ∧ (c.isAlpha ∨ c = '_' ∨ c = '$') ∧
      ∀ d ∈ rest, Text.isWordChar d ∨ d = '$' := by
  cases name with
  | nil => simp [Text.isIdentifier]
  | cons c rest =>
    simp only [Text.isIdentifier, Text.isNameStart, Text.isNameChar, Bool.and_eq_true, Bool.or_eq_true,
      beq_iff_eq, List.all_eq_true, List.cons.injEq]
    constructor
    · rintro ⟨hfirst, hrest⟩
      exact ⟨c, rest, ⟨rfl, rfl⟩, by tauto, fun d hd => (hrest d hd).symm⟩
    · rintro ⟨_, _, ⟨rfl, rfl⟩, hfirst, hrest⟩
      exact ⟨by tauto, fun d hd => (hrest d hd).symm⟩

/-- The names that a script declares have no repetitions, and the parameters of the setup function are
not among them. -/
theorem Bindings.collect_own (settings : Settings) (edited : Text) :
    (Bindings.collect settings edited).1.Nodup ∧
      ∀ bound ∈ (Bindings.collect settings edited).1,
        bound ≠ settings.propsParam ∧ bound ≠ settings.emitParam := by
  refine ⟨Draft.nodup_addNames List.nodup_nil _, fun bound hbound => ?_⟩
  simp only [Bindings.collect] at hbound
  obtain ⟨-, hown⟩ := List.mem_filter.mp ((Bindings.mem_addNames.mp hbound).resolve_left List.not_mem_nil)
  simpa using hown

/-- What a draft returns are the declared names that are no framework names. -/
theorem Draft.bindings_finish (draft : Draft) :
    draft.finish.1.bindings = (Bindings.collect draft.settings draft.edited).1.filter fun bound =>
      !draft.finish.1.frameworkNames.contains bound := rfl

/-- The names that a script returns are distinct identifiers, none of them a parameter of the setup
function or a name imported from the framework module. The framework names are distinct, and are what the
hoisted imports of the framework module add to the scope, in the order of first occurrence in the
source. -/
theorem returned_names_wellFormed {settings : Settings} {source : Text} {name : Option Text}
    {strict : Option Bool} {output : Output}
    (h : (compileScript settings source name strict).value = .ok output) :
    output.bindings.Nodup ∧
    (∀ bound ∈ output.bindings,
      (∃ c rest, bound = c :: rest ∧ (c.isAlpha ∨ c = '_' ∨ c = '$') ∧
        ∀ d ∈ rest, Text.isWordChar d ∨ d = '$') ∧
      bound ≠ settings.propsParam ∧ bound ≠ settings.emitParam ∧
      ∀ record ∈ output.imports, record.path = settings.frameworkModule → bound ∉ record.localNames) ∧
    output.frameworkNames.Nodup ∧
    (∃ statements : List (Text.Match Hoisted),
      (∀ found ∈ statements, found ∈ importMatches settings.componentExtension source ∧
        (Scan.ofText source).isCode found.start) ∧
      statements.Pairwise (fun a b => a.stop ≤ b.start) ∧
      output.imports = statements.filterMap fun found => found.value.record?) ∧
    output.frameworkNames = (frameworkLocals settings output.imports).eraseDups := by
  obtain ⟨himports, hnames⟩ := Draft.imports_of_compiles h
  obtain ⟨-, hscript, -, houtput⟩ := Draft.stages_of_compiles h
  have hsettings : (expandScript settings source name strict).draft.settings = settings := hscript.settings
  have hbindings := (expandScript settings source name strict).draft.bindings_finish
  rw [hsettings, ← houtput] at hbindings
  obtain ⟨hnodup, hown⟩ := Bindings.collect_own settings
    (expandScript settings source name strict).draft.edited
  refine ⟨?_, fun bound hbound => ?_, ?_, himports, hnames⟩
  · rw [hbindings]
    exact hnodup.filter _
  · rw [hbindings] at hbound
    obtain ⟨hdeclared, hforeign⟩ := List.mem_filter.mp hbound
    obtain ⟨hprops, hemit⟩ := hown bound hdeclared
    refine ⟨Text.isIdentifier_iff.mp (Bindings.isIdentifier_of_mem_collect hdeclared), hprops, hemit, ?_⟩
    intro record hrecord hpath hlocal
    have hmem : bound ∈ output.frameworkNames := by
      rw [hnames, List.mem_eraseDups]
      exact List.mem_flatMap.mpr ⟨record, List.mem_filter.mpr ⟨hrecord, by simpa using hpath⟩, hlocal⟩
    simp [hmem] at hforeign
  · rw [hnames, ← Draft.addNames_nil]
    exact Draft.nodup_addNames List.nodup_nil _

/-- A script that imports a name of the framework module twice and declares a name of its own. -/
def refScript : Text := "import \x7b ref, ref as r \x7d from 'vue'\nconst r = 1, a = ref(0)"

/-- The framework names of the script are the two imported names, and neither is returned. -/
theorem returned_names_refScript :
    ∃ output, (compileScript {} refScript none none).value = .ok output ∧
      output.frameworkNames = ["ref", "r"] ∧ ("r" : Text) ∉ output.bindings := by
  obtain ⟨output, hcompiles⟩ : ∃ output, (compileScript {} refScript none none).value = .ok output :=
    Draft.exists_output (by decide +kernel) (by decide +kernel) rfl
  have himports : output.imports = [⟨.named ["ref", "ref: r"], "vue"⟩] := by
    rw [(Draft.imports_eq_hoisted hcompiles).1]
    exact Draft.imports_hoisted_of_single (by decide +kernel) rfl
  obtain ⟨-, hbound, -, -, hnames⟩ := returned_names_wellFormed hcompiles
  rw [himports] at hnames
  refine ⟨output, hcompiles, hnames.trans (by decide +kernel), fun hmem => ?_⟩
  refine (hbound _ hmem).2.2.2 ⟨.named ["ref", "ref: r"], "vue"⟩ ?_ rfl (by decide +kernel)
  rw [himports]
  exact List.mem_singleton_self _

end SetupScript
