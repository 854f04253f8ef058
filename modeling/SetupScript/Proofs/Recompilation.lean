import Mathlib.Data.List.Infix
import SetupScript.Proofs.EmbeddedText
import SetupScript.Proofs.ModuleShape
import SetupScript.Proofs.TextLines

/-!
# Compiling generated code again

A generated module that holds no macro call, no import statement and no marker line is a script with
nothing to do: it stands wrapped in braces, so it declares nothing at statement level and waits for
nothing there. Compiling it puts it as it is into a module around it, and that module is of the same
kind, so the same holds in every further round.
-/

namespace SetupScript

/-! ## Scripts without calls and imports -/

/-- The script calls no macro and holds no import statement in code. -/
structure Uneventful (source : Text) : Prop where
  /-- No macro is called in code. -/
  calls : ∀ kind ∈ MacroKind.all, (Scan.ofText source).callOffsets kind.name = []
  /-- No import statement starts in code. -/
  imports : ∀ found ∈ importMatches ({} : Settings).componentExtension source,
    (Scan.ofText source).isCode found.start = false

namespace Draft

/-- Statements outside code are not claimed. -/
theorem claimAll_of_not_code (draft : Draft) {founds : List (Text.Match Hoisted)}
    (h : ∀ found ∈ founds, draft.scan.isCode found.start = false) :
    draft.claimAll founds = (⟨draft, none⟩, []) := by
  induction founds with
  | nil => rfl
  | cons found rest ih =>
    obtain ⟨hfound, hrest⟩ := List.forall_mem_cons.mp h
    simp [claimAll, claim, hfound, ih hrest]

/-- The draft with the message that ends the hoisting of imports. -/
def noteHoisted (draft : Draft) : Draft :=
  draft.note 2 ("Hoisted " ++ Text.ofNat draft.imports.length ++ " imports, " ++
    Text.ofNat draft.components.length ++ " components")

/-- Hoisting from a script without import statements in code only logs. -/
theorem hoistImports_of_not_code (draft : Draft)
    (h : ∀ found ∈ importMatches draft.settings.componentExtension draft.source,
      draft.scan.isCode found.start = false) :
    draft.hoistImports = ⟨draft.noteHoisted, none⟩ := by
  rw [hoistImports, claimAll_of_not_code draft h]
  simp only [Outcome.andThen, List.mergeSort_nil, List.foldl_nil]
  rfl

/-- A macro that is not called is not expanded. -/
theorem onFirstCall_of_not_called {draft : Draft} {kind : MacroKind}
    (h : draft.scan.callOffsets kind.name = []) (expand : Draft → Nat → MacroCall → Outcome) :
    draft.onFirstCall kind expand = ⟨draft, none⟩ := by
  simp only [onFirstCall, nextCall?, h, List.find?_nil]

/-- Nothing is expanded where no macro is called. -/
theorem runAll_of_not_called {draft : Draft}
    (h : ∀ kind ∈ MacroKind.all, draft.scan.callOffsets kind.name = []) :
    draft.runAll MacroRegistry.builtin = ⟨draft, none⟩ := by
  have hdefaults : draft.expandDefaults = ⟨draft, none⟩ := by
    rw [expandDefaults, h .withDefaults (by decide)]
    rfl
  have hprops : draft.expandProps = ⟨draft, none⟩ :=
    onFirstCall_of_not_called (h .defineProps (by decide)) _
  have hemits : draft.expandEmits = ⟨draft, none⟩ :=
    onFirstCall_of_not_called (h .defineEmits (by decide)) _
  have hexpose : draft.expandExpose = ⟨draft, none⟩ :=
    onFirstCall_of_not_called (h .defineExpose (by decide)) _
  simp only [MacroRegistry.builtin, runAll, hdefaults, hprops, hemits, hexpose, Outcome.andThen]

end Draft

section Passes

variable {source : Text} (name : Option Text) (strict : Option Bool)

/-- The passes over a supported script without import statements in code expand its macros. -/
theorem expandScript_of_not_code (hcalls : ¬ CallsUnsupported source)
    (h : ∀ found ∈ importMatches ({} : Settings).componentExtension source,
      (Scan.ofText source).isCode found.start = false) :
    expandScript {} source name strict =
      (Draft.announced {} source name strict).noteHoisted.runAll MacroRegistry.builtin := by
  rcases (Draft.announced {} source name strict).refuseUnsupported_cases rfl with
    ⟨hrefused, -⟩ | ⟨-, hsupported⟩
  · exact absurd hrefused hcalls
  have hhoisted := (Draft.announced {} source name strict).hoistImports_of_not_code h
  simp only [expandScript, hsupported, Outcome.andThen, hhoisted]

/-- The passes over an uneventful script only log. -/
theorem expandScript_of_uneventful (h : Uneventful source) :
    expandScript {} source name strict =
      ⟨(Draft.announced {} source name strict).noteHoisted, none⟩ := by
  have hcalls : ¬ CallsUnsupported source := fun ⟨kind, hkind, _, hcalled⟩ =>
    hcalled (h.calls kind hkind)
  rw [expandScript_of_not_code name strict hcalls h.imports]
  exact Draft.runAll_of_not_called h.calls

end Passes

/-- What the passes leave of a script that imports nothing. -/
def plainRun (source : Text) (strict : Option Bool) : Outcome :=
  (Draft.announced {} source none strict).noteHoisted.runAll MacroRegistry.builtin

/-- A script that imports nothing, and whose passes succeed, compiles to what their draft defines. -/
theorem compileScript_of_plain (source : Text) (strict : Option Bool)
    (hcalls : ¬ CallsUnsupported source)
    (himports : ∀ found ∈ importMatches ({} : Settings).componentExtension source,
      (Scan.ofText source).isCode found.start = false)
    (herror : (plainRun source strict).error.isNone) :
    ∃ output, (compileScript {} source none strict).value = .ok output ∧
      output.props = (plainRun source strict).draft.props ∧
      output.results = (plainRun source strict).draft.results := by
  have hrun : expandScript {} source none strict = plainRun source strict :=
    expandScript_of_not_code none strict hcalls himports
  refine ⟨(plainRun source strict).draft.finish.1, ?_, rfl, rfl⟩
  rw [compileScript_value, hrun, Option.isNone_iff_eq_none.mp herror]

/-! ## Statement level -/

/-- The words that a search at statement level starts with. -/
def statementStarts : List Text := ["const", "let", "var", "function", "await"]

/-- No word that is searched for at statement level stands in the lead of a module. -/
theorem staysOut_moduleLead : ∀ word ∈ statementStarts, StaysOut word moduleLead := by
  decide

/-- The reader takes only texts that start with a word that is searched for at statement level. -/
def ReadsStatement {α : Type} (reader : Reader α) : Prop :=
  ∀ t value left, reader t = some (value, left) → ∃ word ∈ statementStarts, word <+: t

/-- Declarations start with one of three words. -/
theorem readsStatement_declarationWord : ReadsStatement Reader.declarationWord := by
  intro t value left h
  obtain ⟨word, middle, hword, -⟩ := Reader.bind_eq_some.mp h
  obtain ⟨hmem, rfl⟩ := Reader.oneOf_eq_some hword
  have hstarts : ∀ word ∈ (["const", "let", "var"] : List Text), word ∈ statementStarts := by decide
  exact ⟨word, hstarts word hmem, List.prefix_append _ _⟩

/-- A literal that is searched for is read at its own place only. -/
theorem readsStatement_literal {word : Text} (h : word ∈ statementStarts) :
    ReadsStatement (Reader.literal word) := by
  intro t value left hread
  rw [Reader.literal_eq_some.mp hread]
  exact ⟨word, h, List.prefix_append _ _⟩

/-- A composed reader starts as its first part does. -/
theorem ReadsStatement.bind {α β : Type} {first : Reader α} (h : ReadsStatement first)
    (second : α → Reader β) : ReadsStatement (first >>= second) := by
  intro t value left hread
  obtain ⟨a, middle, hfirst, -⟩ := Reader.bind_eq_some.mp hread
  exact h t a middle hfirst

/-- A search for statements finds none at the statement level of a module. -/
theorem Wrapped.filter_findAll {code : Text} (h : Wrapped code) {α : Type} {reader : Reader α}
    (hreader : ReadsStatement reader) (admits : Option Char → Bool) {found : Text.Match α}
    (hfound : found ∈ Text.findAll admits reader code) :
    (Scan.ofText code).isTopLevel found.start = false := by
  by_contra htop
  have hlt := h.lt_of_isTopLevel (by simpa using htop)
  obtain ⟨left, -, hread, -⟩ := Text.mem_findAll hfound
  obtain ⟨word, hword, hprefix⟩ := hreader _ _ _ hread
  obtain ⟨inner, rfl, -⟩ := h
  rw [List.drop_append_of_le_length (Nat.le_of_lt hlt)] at hprefix
  exact (staysOut_moduleLead word hword).not_starts hlt _ hprefix

/-- A module binds nothing at statement level. -/
theorem Wrapped.collect_eq_nil {code : Text} (h : Wrapped code) (settings : Settings) :
    Bindings.collect settings code = ([], []) := by
  have hbare := h.bareText
  rw [← withoutComments_ofText] at hbare
  have htext : (Scan.ofText (Scan.ofText code).withoutComments).text =
      (Scan.ofText code).withoutComments := map_char_labelFrom _ _
  have hpatterns (opener : Char) :
      Bindings.patternNames settings (Scan.ofText (Scan.ofText code).withoutComments) opener =
        ([], []) := by
    have hnone : (Text.findAll Text.outsideMember Reader.patternDeclaration
        (Scan.ofText code).withoutComments).filter (fun found => found.value == opener &&
          (Scan.ofText (Scan.ofText code).withoutComments).isTopLevel found.start) = [] := by
      refine List.filter_eq_nil_iff.mpr fun found hfound => ?_
      simp [hbare.filter_findAll (readsStatement_declarationWord.bind _) _ hfound]
    simp only [Bindings.patternNames, htext, hnone, List.map_nil, List.flatMap_nil]
  have hplain : Bindings.plainNames (Scan.ofText (Scan.ofText code).withoutComments) = [] := by
    rw [Bindings.plainNames, htext, List.map_eq_nil_iff, List.filter_eq_nil_iff]
    intro found hfound
    simp [hbare.filter_findAll (readsStatement_declarationWord.bind _) _ hfound]
  have hfunctions : Bindings.functionNames (Scan.ofText (Scan.ofText code).withoutComments) = [] := by
    rw [Bindings.functionNames, htext, List.map_eq_nil_iff, List.filter_eq_nil_iff]
    intro found hfound
    simp [hbare.filter_findAll ((readsStatement_literal (by decide)).bind _) _ hfound]
  simp only [Bindings.collect, hpatterns, hplain, hfunctions, List.append_nil, List.filter_nil]
  rfl

/-- A module waits for nothing at statement level. -/
theorem Wrapped.hasTopLevelWord_eq_false {code : Text} (h : Wrapped code) :
    (Scan.ofText code).hasTopLevelWord ({} : Settings).suspendKeyword = false := by
  have htext : (Scan.ofText code).text = code := map_char_labelFrom _ _
  rw [Scan.hasTopLevelWord, htext, List.any_eq_false]
  intro found hfound
  simp [h.filter_findAll ((readsStatement_literal (by decide)).bind _) _ hfound]

/-! ## One round -/

/-- What an edited text of a draft compiles to. -/
def Draft.outputOn (draft : Draft) (edited : Text) : Output :=
  let body := draft.body edited
  let names := (Bindings.collect draft.settings edited).1.filter fun name =>
    !draft.frameworkNames.contains name
  let isAsync := (Scan.ofText body).hasTopLevelWord draft.settings.suspendKeyword
  { code := draft.moduleText body names isAsync
    componentName := draft.componentName
    props := draft.props
    emits := draft.emits
    expose := draft.expose.filter (!·.isEmpty)
    imports := draft.imports
    components := draft.components
    bindings := names
    frameworkNames := draft.frameworkNames
    isAsync := isAsync
    results := draft.results }

/-- The output of a draft is that of its edited text. -/
theorem Draft.finish_eq (draft : Draft) : draft.finish.1 = draft.outputOn draft.edited := rfl

/-- The name that a module is given: the one that is asked for, or else the usual one. -/
def usedName (name : Option Text) : Text := (Draft.start {} [] name none).componentName

/-- The module around a text that is a script of its own. -/
def embed (name : Option Text) (code : Text) : Text :=
  (Draft.start {} code name none).moduleText code [] false

/-- What stands before an embedded text. -/
def embedLead (name : Text) : Text :=
  moduleLead ++ ("  name: \x22" ++ name ++ "\x22,\n") ++ Draft.setupHead false ++ "\n"

/-- What stands after an embedded text. -/
def embedTail : Text := "\n\n" ++ Draft.returnText [] ++ "  \x7d\n" ++ ['}']

/-- The module around a text puts it between two texts, of which the first holds the name. -/
theorem embed_eq (name : Option Text) (code : Text) :
    embed name code = embedLead (usedName name) ++ (code ++ embedTail) := by
  -- regrouped over variables, so that the fixed texts are never evaluated
  have hshape (a b c d e f g h i j : Text) :
      a ++ (((b ++ (c ++ d)) ++ ([] ++ ([] ++ ([] ++ (e ++ ([] ++ ([] ++ ((f ++ (code ++ g)) ++
        ([] ++ (h ++ i)))))))))) ++ j) = (a ++ (b ++ c ++ d) ++ e ++ f) ++ (code ++ (g ++ h ++ i ++ j)) := by
    simp only [List.append_assoc, List.nil_append]
  exact (Draft.moduleText_eq rfl code [] false).trans (hshape _ _ _ _ _ _ _ _ _ _)

/-- What stands in a module between the quoted name and an embedded text. -/
def embedHead : Text := ",\n" ++ Draft.setupHead false ++ "\n"

/-- Before an embedded text the name stands between quotes. -/
theorem embedLead_eq (name : Text) :
    embedLead name = (moduleLead ++ "  name: ") ++ ('\x22' :: (name ++ ('\x22' :: embedHead))) := by
  have hshape {a b b' c c' d e : Text} {q : Char} (hb : b = b' ++ [q]) (hc : c = q :: c') :
      a ++ (b ++ name ++ c) ++ d ++ e = (a ++ b') ++ (q :: (name ++ (q :: (c' ++ d ++ e)))) := by
    rw [hb, hc]
    simp only [List.append_assoc, List.cons_append, List.nil_append]
  exact hshape (by decide) (by decide)

/-- A module that is a script with nothing to do. -/
structure Settled (code : Text) : Prop extends Uneventful code where
  /-- It is the lead of a module, a steady text and the closing brace. -/
  wrapped : Wrapped code
  /-- None of its lines is a marker. -/
  markers : ∀ line ∈ Text.lines code, ({} : Settings).isMarker line = false

/-- The body of a script that is settled is the script. -/
theorem Settled.body_eq {code : Text} (h : Settled code) {draft : Draft} (hsettings : draft.settings = {}) :
    draft.body code = code := by
  have hlines : (Text.lines code).filter (!draft.settings.isMarker ·) = Text.lines code := by
    refine List.filter_eq_self.mpr fun line hline => ?_
    rw [hsettings, h.markers line hline]
    rfl
  obtain ⟨inner, hcode, -⟩ := h.wrapped
  rw [Draft.body, hlines, Text.joinWith_lines]
  refine Text.trim_of_ends ?_ ?_
  · rw [hcode]
    rfl
  · rw [hcode, ← List.append_assoc, List.getLast?_concat]
    rfl

/-- Edits that were recorded in the order of their starts need no sorting. -/
theorem Draft.edited_of_sorted {draft : Draft} (h : draft.edits.Pairwise fun a b => a.start ≤ b.start) :
    draft.edited = EditList.applyFrom draft.source 0 draft.edits := by
  rw [edited, EditList.apply, List.mergeSort_of_pairwise]
  exact h.imp fun hle => decide_eq_true hle

/-- Without edits the edited text is the source. -/
theorem Draft.edited_of_edits_nil {draft : Draft} (h : draft.edits = []) :
    draft.edited = draft.source := by
  rw [edited_of_sorted (by simp [h]), h, EditList.applyFrom]
  exact (Text.slice_natCast _ 0 _).trans (List.take_length)

/-- What compiling a settled text gives: the module around it and nothing else. -/
def embeddedOutput (name : Option Text) (code : Text) : Output where
  code := embed name code
  componentName := usedName name
  props := none
  emits := none
  expose := none
  imports := []
  components := []
  bindings := []
  frameworkNames := []
  isAsync := false
  results := []

/-- A settled text compiles to the module around it. -/
theorem Settled.compileScript_eq {code : Text} (h : Settled code) (name : Option Text)
    (strict : Option Bool) : (compileScript {} code name strict).value = .ok (embeddedOutput name code) := by
  rw [compileScript_value, expandScript_of_uneventful name strict h.toUneventful]
  have hedited : (Draft.announced {} code name strict).noteHoisted.edited = code :=
    Draft.edited_of_edits_nil rfl
  have hbody : (Draft.announced {} code name strict).noteHoisted.body code = code :=
    h.body_eq rfl
  have hnames : Bindings.collect (Draft.announced {} code name strict).noteHoisted.settings code =
      ([], []) := h.wrapped.collect_eq_nil _
  have hasync : (Scan.ofText code).hasTopLevelWord
      (Draft.announced {} code name strict).noteHoisted.settings.suspendKeyword = false :=
    h.wrapped.hasTopLevelWord_eq_false
  rw [Draft.finish_eq, hedited]
  simp only [Draft.outputOn, hbody, hnames, hasync, List.filter_nil]
  rfl

/-- A component name that can be given to a later round: it can be quoted; it stands on one line, since
a further line of it could be a marker; and it holds no `import`, which could take the quotes and the
text after them for the rest of a statement, so that one in code is found which was taken for the rest
of another before. -/
structure Unobtrusive (name : Text) : Prop where
  quotable : isQuotable name
  line : '\n' ∉ name
  imports : ¬ ("import" : Text) <:+: name

instance (name : Text) : Decidable (Unobtrusive name) :=
  decidable_of_iff (isQuotable name ∧ '\n' ∉ name ∧ ¬ ("import" : Text) <:+: name)
    ⟨fun h => ⟨h.1, h.2.1, h.2.2⟩, fun h => ⟨h.quotable, h.line, h.imports⟩⟩

/-- The usual name is unobtrusive, so that only a name that is asked for has to be. -/
theorem unobtrusive_usedName {name : Option Text} (h : ∀ asked ∈ name, Unobtrusive asked) :
    Unobtrusive (usedName name) := by
  have husual : Unobtrusive ({} : Settings).componentName := by decide +kernel
  cases name with
  | none => exact husual
  | some asked =>
    cases asked with
    | nil => exact husual
    | cons c rest => exact h (c :: rest) rfl

section Embedding

variable {code name : Text}

/-- What stands before an embedded text ends in code. -/
theorem after_embedLead (h : isQuotable name) : Context.code.after (embedLead name) = .code := by
  rw [embedLead_eq]
  exact (block_quoted (b := 1) (by decide) (by decide : Block 0 (moduleLead ++ "  name: ") 1) (by decide)
    (by decide) h (by decide : Block 1 embedHead 2)).1.1

/-- What stands before an embedded text ends with a line break. -/
theorem getLast?_embedLead (name : Text) : (embedLead name).getLast? = some '\n' := by
  rw [embedLead, List.getLast?_append, show ("\n" : Text).getLast? = some '\n' by decide]
  rfl

/-- An embedded module is read as on its own. -/
theorem Wrapped.readsAlone (h : Wrapped code) (hname : isQuotable name) :
    ReadsAlone (embedLead name) code embedTail := by
  have hlast : (embedLead name).getLast? ≠ some '/' := by
    rw [getLast?_embedLead]
    decide
  have hseam : ¬ SlashMeets (labelFrom .code code) embedTail := by
    rintro ⟨-, hhead⟩
    exact absurd hhead (by decide)
  rw [ReadsAlone, (labelFrom_append (after_embedLead hname) (not_slashMeets_of_last hlast _)).1,
    (labelFrom_append h.steady.1 hseam).1]

/-- No macro name starts in the code before an embedded text. -/
theorem startsNowhere_embedLead (hname : isQuotable name) {kind : MacroKind} (hkind : kind ∈ MacroKind.all) :
    StartsNowhere kind.name (embedLead name) := by
  have hfixed : ∀ kind ∈ MacroKind.all, '\x22' ∉ kind.name ∧
      StaysOut kind.name (moduleLead ++ "  name: ") ∧ StaysOut kind.name embedHead := by decide +kernel
  obtain ⟨hquote, hfront, hhead⟩ := hfixed kind hkind
  have hfree (c : Char) (hc : c ∈ name) : isDelicate c = false := by
    simpa using List.all_eq_true.mp hname c hc
  rw [embedLead_eq]
  exact .quoted hquote hfront (by decide) (by decide) (fun hc => absurd (hfree _ hc) (by decide))
    (fun hc => absurd (hfree _ hc) (by decide)) hhead

/-- No `import` stands before an embedded text. -/
theorem Unobtrusive.staysOut_embedLead (h : Unobtrusive name) : StaysOut "import" (embedLead name) := by
  rw [embedLead_eq]
  exact .quoted (by decide) (by decide) (by decide) h.imports (by decide)

/-- The line with the component name is no marker. -/
theorem not_isMarker_nameLine (t : Text) : ({} : Settings).isMarker ("  name: \x22" ++ t) = false := by
  have htrim (t : Text) : Text.trim (' ' :: ' ' :: 'n' :: t) = 'n' :: Text.trimEnd t :=
    Text.trimEnd_append_cons (by decide) [] t
  exact congrArg (({} : Settings).markerLead.isPrefixOf ·) (htrim ("ame: \x22" ++ t))

/-- None of the lines before an embedded text is a marker. -/
theorem Unobtrusive.not_isMarker_embedLead (h : Unobtrusive name) :
    ∃ front, embedLead name = front ++ ['\n'] ∧
      ∀ line ∈ Text.lines front, ({} : Settings).isMarker line = false := by
  have hshape {a a' b c c' d e : Text} (ha : a = a' ++ ['\n']) (hc : c = c' ++ ['\n']) (he : e = ['\n']) :
      a ++ (b ++ name ++ c) ++ d ++ e = (a' ++ '\n' :: ((b ++ (name ++ c')) ++ '\n' :: d)) ++ ['\n'] := by
    rw [ha, hc, he]
    simp only [List.append_assoc, List.cons_append, List.nil_append]
  refine ⟨"module.exports = \x7b" ++ '\n' :: (("  name: \x22" ++ (name ++ "\x22,")) ++
    '\n' :: Draft.setupHead false), hshape (by decide) (by decide) (by decide), ?_⟩
  -- the name stands on one line, after its key
  have hline : Text.lines ("  name: \x22" ++ (name ++ "\x22,")) = ["  name: \x22" ++ (name ++ "\x22,")] := by
    have hname : name.all (fun c => !c == '\n') := List.all_eq_true.mpr fun c hc => by
      simpa using fun hbreak : c = '\n' => h.line (hbreak ▸ hc)
    refine Text.cutAt_of_solid ?_
    rw [List.all_append, List.all_append, hname]
    decide
  have hfixed : ∀ line ∈ Text.lines "module.exports = \x7b" ++ Text.lines (Draft.setupHead false),
      ({} : Settings).isMarker line = false := by decide
  intro line hmem
  rw [Text.lines_append_break, Text.lines_append_break, hline] at hmem
  simp only [List.mem_append, List.mem_singleton] at hmem hfixed
  rcases hmem with hmem | rfl | hmem
  · exact hfixed line (.inl hmem)
  · exact not_isMarker_nameLine _
  · exact hfixed line (.inr hmem)

end Embedding

/-- The module around a module is one. -/
theorem Wrapped.embed {code : Text} (h : Wrapped code) {name : Option Text}
    (hname : isQuotable (usedName name)) : Wrapped (embed name code) := by
  have hwritable : (Draft.start {} code name none).Writable := by
    refine ⟨rfl, hname, ?_, ?_, ?_, ?_, ?_⟩
    all_goals
      intro _ hmem
      cases hmem
  have hbody : Steady 0 (code ++ ['\n']) 0 :=
    h.steady.append (by decide) (by simp [SlashMeets])
  exact hwritable.wrapped_moduleText hbody (fun _ hmem => absurd hmem (List.not_mem_nil)) false

/-- The module around a settled text is settled. -/
theorem Settled.embed {code : Text} (h : Settled code) {name : Option Text}
    (hname : Unobtrusive (usedName name)) : Settled (embed name code) := by
  have hreads := h.wrapped.readsAlone hname.quotable
  refine { toUneventful := ⟨?_, ?_⟩, wrapped := h.wrapped.embed hname.quotable, markers := ?_ }
  · intro kind hkind
    have hfixed : ∀ kind ∈ MacroKind.all, StaysOut kind.name embedTail ∧ '}' ∉ kind.name := by
      decide +kernel
    obtain ⟨htail, hbrace⟩ := hfixed kind hkind
    obtain ⟨inner, -, -, hcells⟩ := h.wrapped.cells
    have hlast : (labelFrom .code code).getLast? = some ⟨'}', .code⟩ := by
      rw [hcells, ← List.append_assoc, List.getLast?_concat]
    rw [embed_eq]
    exact callOffsets_embedded hreads (startsNowhere_embedLead hname.quotable hkind) htail
      (by rw [getLast?_embedLead]; decide) hlast hbrace (by decide) (h.calls kind hkind)
  · intro found hfound
    rw [embed_eq] at hfound ⊢
    obtain ⟨found', hfound', hstart⟩ := mem_importMatches_embedded (by decide) hname.staysOut_embedLead
      (by rw [getLast?_embedLead]; decide) (by decide) (by decide) hfound
    have hbounds := importMatches_bounds hfound'
    rw [hstart, Nat.add_comm, hreads.isCode (by omega)]
    exact h.imports found' hfound'
  · obtain ⟨front, hfront, hmarkers⟩ := hname.not_isMarker_embedLead
    have htail : embedTail = '\n' :: embedTail.tail := by decide
    have hfixed : ∀ line ∈ Text.lines embedTail.tail, ({} : Settings).isMarker line = false := by decide
    intro line hline
    rw [embed_eq, hfront, htail, List.append_assoc, List.singleton_append, Text.lines_append_break,
      Text.lines_append_break] at hline
    simp only [List.mem_append] at hline
    rcases hline with hline | hline | hline
    · exact hmarkers line hline
    · exact h.markers line hline
    · exact hfixed line hline

-- A name that holds an import frees a statement that was taken for the rest of another one.
example :
    let code : Text := "module.exports = \x7b\n  name: \x22A\x22,\n  setup: function(__props__, __ctx__) \x7b\n" ++
      "let x = \x7b\x7d from 'import \x7b a'\nimport \x7b b \x7d from 'z'\n  \x7d\n\x7d"
    let inert (t : Text) := (importMatches ({} : Settings).componentExtension t).all fun found =>
      !(Scan.ofText t).isCode found.start
    inert code ∧ inert (embed (some "Card") code) ∧ ¬ inert (embed (some "import \x7b") code) := by
  decide +kernel

/-! ## Any number of rounds -/

/-- A round of compiling: the component name and the strictness that are asked for. -/
structure Round where
  name : Option Text := none
  strict : Option Bool := none

/-- The code after a list of rounds, each of which compiles the code of the one before. -/
def roundsCode (code : Text) : List Round → Except CompileError Text
  | [] => .ok code
  | round :: rest =>
    (compileScript {} code round.name round.strict).value.bind fun output => roundsCode output.code rest

/-- Every round over a settled text succeeds and leaves a settled text. -/
theorem Settled.roundsCode_eq {code : Text} (h : Settled code) {rounds : List Round}
    (hnames : ∀ round ∈ rounds, ∀ name ∈ round.name, Unobtrusive name) :
    ∃ previous, roundsCode code rounds = .ok previous ∧ Settled previous := by
  induction rounds generalizing code with
  | nil => exact ⟨code, rfl, h⟩
  | cons round rest ih =>
    obtain ⟨hname, hrest⟩ := List.forall_mem_cons.mp hnames
    obtain ⟨previous, hprevious, hsettled⟩ := ih (h.embed (unobtrusive_usedName hname)) hrest
    refine ⟨previous, ?_, hsettled⟩
    rw [roundsCode, h.compileScript_eq]
    exact hprevious

/-- A name as an import statement hoists it: a word, or two with a colon between them. -/
def IsHoistedName (name : Text) : Prop :=
  name.all Text.isNameChar ∨
    ∃ x y : Text, name = x ++ (": " : Text) ++ y ∧ x.all Text.isNameChar ∧ y.all Text.isNameChar

/-- The script body that a compilation puts into the module. -/
def cleanedBody (source : Text) (name : Option Text) (strict : Option Bool) : Text :=
  let draft := (expandScript {} source name strict).draft
  draft.body draft.edited

/-- A script compiles when its passes succeed. They leave a sound draft of the script, and the output
is that of the draft. -/
theorem expandScript_of_compiles {source : Text} {name : Option Text} {strict : Option Bool}
    {output : Output} (h : (compileScript {} source name strict).value = .ok output) :
    (expandScript {} source name strict).error = none ∧
      output = (expandScript {} source name strict).draft.outputOn
        (expandScript {} source name strict).draft.edited ∧
      Draft.SameScript (Draft.start {} source name strict) (expandScript {} source name strict).draft ∧
      (expandScript {} source name strict).draft.Sound := by
  have hpassed : (expandScript {} source name strict).error = none ∧
      output = (expandScript {} source name strict).draft.outputOn
        (expandScript {} source name strict).draft.edited := by
    rw [compileScript_value] at h
    split at h
    · cases h
    · next herror => exact ⟨herror, (Except.ok.inj h).symm⟩
  refine ⟨hpassed.1, hpassed.2, ?_⟩
  rcases expandScript_cases {} source name strict with
    ⟨-, kind, -, hrefused⟩ | ⟨-, -, range, hrefused⟩ | ⟨-, -, hsame, hsound, -⟩
  · rw [hpassed.1] at hrefused
    cases hrefused
  · rw [hpassed.1] at hrefused
    cases hrefused
  · exact ⟨hsame, hsound⟩

/-- What makes an output with this cleaned body fit to be compiled again. -/
structure Recompilable (body : Text) (output : Output) : Prop where
  /-- The component name holds no quote and no backslash. -/
  name : isQuotable output.componentName
  /-- Imported names are plain or renamed, and the paths hold no backslash. -/
  imports : ∀ record ∈ output.imports,
    (∀ name ∈ record.clause.names, IsHoistedName name) ∧ '\\' ∉ record.path
  /-- So it is with component files. -/
  components : ∀ file ∈ output.components, IsHoistedName file.name ∧ '\\' ∉ file.path
  /-- The cleaned body with the line break after it is steady. -/
  body : Steady 0 (body ++ ['\n']) 0
  /-- So are the definitions that the module holds. -/
  definitions : ∀ definition, some definition ∈ [output.props, output.emits, output.expose] →
    Steady 0 definition 0
  /-- No macro is called and nothing is imported in the code of the module. -/
  uneventful : Uneventful output.code
  /-- No line of the module is a marker. -/
  markers : ∀ line ∈ Text.lines output.code, ({} : Settings).isMarker line = false

/-- A class without delicate characters can be quoted. -/
theorem isQuotable_of_class {p : Char → Bool} (hp : p '\x22' = false ∧ p '\\' = false) {t : Text}
    (h : t.all p) : isQuotable t := by
  refine List.all_eq_true.mpr fun c hc => ?_
  have hclass := List.all_eq_true.mp h c hc
  by_contra hdelicate
  simp only [isDelicate, Bool.not_eq_true', Bool.or_eq_false_iff, beq_eq_false_iff_ne, not_and_or,
    not_not] at hdelicate
  rcases hdelicate with rfl | rfl
  · rw [hp.1] at hclass
    cases hclass
  · rw [hp.2] at hclass
    cases hclass

/-- A hoisted name means nothing to a scan, and it can be quoted. -/
theorem IsHoistedName.inert {name : Text} (h : IsHoistedName name) :
    name.all isInert ∧ isQuotable name := by
  have hword {t : Text} (ht : t.all Text.isNameChar) : t.all isInert ∧ isQuotable t :=
    ⟨all_isInert_of_word ht, isQuotable_of_class (by decide) ht⟩
  rcases h with hplain | ⟨x, y, rfl, hx, hy⟩
  · exact hword hplain
  · simp only [isQuotable, List.all_append, Bool.and_eq_true]
    exact ⟨⟨⟨(hword hx).1, by decide⟩, (hword hy).1⟩, ⟨(hword hx).2, by decide⟩, (hword hy).2⟩

/-- A hoisted path without backslashes can be quoted. -/
theorem isQuotable_of_path {path : Text} (hquotes : path.all (!isPathQuote ·)) (h : '\\' ∉ path) :
    isQuotable path := by
  refine List.all_eq_true.mpr fun c hc => ?_
  have hquote := List.all_eq_true.mp hquotes c hc
  have hescape : c ≠ '\\' := fun heq => h (heq ▸ hc)
  simp_all [isDelicate, isPathQuote]

/-- What a module takes from a draft with a recompilable output can stand in it. -/
theorem Recompilable.writable {draft : Draft} {edited : Text} (hsettings : draft.settings = {})
    (hpaths : draft.HoistsOnly fun hoisted => hoisted.path.all (!isPathQuote ·))
    (h : Recompilable (draft.body edited) (draft.outputOn edited)) : draft.Writable where
  settings := hsettings
  name := h.name
  components file hfile :=
    ⟨(h.components file hfile).1.inert.2,
      isQuotable_of_path (hpaths.2 file hfile) (h.components file hfile).2⟩
  imports record hrecord :=
    ⟨fun name hname => ((h.imports record hrecord).1 name hname).inert.1,
      isQuotable_of_path (hpaths.1 record hrecord) (h.imports record hrecord).2⟩
  props definition hdefinition := h.definitions definition (by
    have hprops : draft.props = some definition := hdefinition
    simp [Draft.outputOn, hprops])
  emits definition hdefinition := h.definitions definition (by
    have hemits : draft.emits = some definition := hdefinition
    simp [Draft.outputOn, hemits])
  expose definition hdefinition hne := h.definitions definition (by
    have hexpose : draft.expose = some definition := hdefinition
    have hshown : (some definition).filter (!·.isEmpty) = some definition := by
      simp [Option.filter, hne]
    simp [Draft.outputOn, hexpose, hshown])

/-- The module of a recompilable output is settled. -/
theorem Recompilable.settled {source : Text} {name : Option Text} {strict : Option Bool}
    {output : Output} (hcompile : (compileScript {} source name strict).value = .ok output)
    (h : Recompilable (cleanedBody source name strict) output) : Settled output.code := by
  obtain ⟨herror, rfl, hsame, -⟩ := expandScript_of_compiles hcompile
  have hsettings : (expandScript {} source name strict).draft.settings = {} := hsame.settings
  have hpaths := expandScript_hoistsOnly herror (P := fun hoisted => hoisted.path.all (!isPathQuote ·))
    fun found hfound => importMatches_path (by decide) hfound
  refine { h.uneventful with wrapped := ?_, markers := h.markers }
  refine (Recompilable.writable hsettings hpaths h).wrapped_moduleText h.body (fun bound hbound => ?_) _
  exact all_isInert_of_isIdentifier
    (Bindings.isIdentifier_of_mem_collect (List.mem_filter.mp hbound).1)

/-- Compiling the code of a recompilable output again, any number of times, finds nothing: every round
succeeds and puts the code of the round before as it is into the module. A round may be given any name as
long as the rounds before it had unobtrusive ones. -/
theorem recompilation_inert {source : Text} {name : Option Text} {strict : Option Bool}
    {output : Output} (hcompile : (compileScript {} source name strict).value = .ok output)
    (hfit : Recompilable (cleanedBody source name strict) output) (rounds : List Round) (last : Round)
    (hnames : ∀ round ∈ rounds, ∀ name ∈ round.name, Unobtrusive name) :
    ∃ previous result, roundsCode output.code rounds = .ok previous ∧
      (compileScript {} previous last.name last.strict).value = .ok result ∧
      result.results = [] ∧ result.imports = [] ∧ result.components = [] ∧ result.bindings = [] ∧
      result.isAsync = false ∧ result.props = none ∧ result.emits = none ∧ result.expose = none ∧
      result.code =
        (Draft.start {} previous last.name last.strict).moduleText previous [] false ∧
      result.code = embedLead (usedName last.name) ++ (previous ++ embedTail) := by
  obtain ⟨previous, hprevious, hsettled⟩ := (hfit.settled hcompile).roundsCode_eq hnames
  exact ⟨previous, embeddedOutput last.name previous, hprevious,
    hsettled.compileScript_eq last.name last.strict,
    rfl, rfl, rfl, rfl, rfl, rfl, rfl, rfl, rfl, embed_eq last.name previous⟩

/-! ## Scripts without imports -/

/-- What the passes leave of a script that imports nothing. -/
def importlessDraft (source : Text) : Draft :=
  ((Draft.announced {} source none none).noteHoisted.runAll MacroRegistry.builtin).draft

/-- The text of such a script with the edits applied in the order in which they were recorded. -/
def importlessText (source : Text) : Text :=
  EditList.applyFrom (importlessDraft source).source 0 (importlessDraft source).edits

/-- The output for such a script. -/
def importlessOutput (source : Text) : Output := (importlessDraft source).outputOn (importlessText source)

/-- A script that imports nothing, whose passes succeed and record their edits in the order of the
source, compiles without any sorting. -/
theorem compileScript_of_importless (source : Text) (hcalls : ¬ CallsUnsupported source)
    (himports : ∀ found ∈ importMatches ({} : Settings).componentExtension source,
      (Scan.ofText source).isCode found.start = false)
    (herror : ((Draft.announced {} source none none).noteHoisted.runAll
      MacroRegistry.builtin).error.isNone)
    (hsorted : (importlessDraft source).edits.Pairwise fun a b => a.start ≤ b.start) :
    (compileScript {} source none none).value = .ok (importlessOutput source) ∧
      (expandScript {} source none none).draft = importlessDraft source ∧
      (importlessDraft source).edited = importlessText source ∧
      cleanedBody source none none = (importlessDraft source).body (importlessText source) := by
  have hpasses := expandScript_of_not_code none none hcalls himports
  have hdraft : (expandScript {} source none none).draft = importlessDraft source := by
    rw [hpasses]
    rfl
  have hedited : (importlessDraft source).edited = importlessText source := Draft.edited_of_sorted hsorted
  refine ⟨?_, hdraft, hedited, ?_⟩
  · rw [compileScript_value, hdraft, hpasses, Option.isNone_iff_eq_none.mp herror, Draft.finish_eq,
      hedited]
    rfl
  · rw [cleanedBody, hdraft, hedited]

/-- A script that declares props and an object. -/
def propsScript : Text := "const props = defineProps(['a'])\nlet b = \x7b c: 1 \x7d"

/-- Its output. -/
def propsOutput : Output := importlessOutput propsScript

/-- The script compiles to an output that is fit to be compiled again. -/
theorem recompilable_propsOutput :
    (compileScript {} propsScript none none).value = .ok propsOutput ∧
      Recompilable (cleanedBody propsScript none none) propsOutput := by
  obtain ⟨hcompile, -, -, hbody⟩ := compileScript_of_importless propsScript (by decide +kernel)
    (by decide +kernel) (by decide +kernel) (by decide +kernel)
  have himports : propsOutput.imports = [] := List.eq_nil_of_length_eq_zero (by decide +kernel)
  have hcomponents : propsOutput.components = [] := List.eq_nil_of_length_eq_zero (by decide +kernel)
  refine ⟨hcompile, ⟨by decide +kernel, ?_, ?_, ?_, ?_, ⟨by decide +kernel, by decide +kernel⟩,
    by decide +kernel⟩⟩
  · simp [himports]
  · simp [hcomponents]
  · rw [hbody]
    decide +kernel
  · have hdefinitions : [propsOutput.props, propsOutput.emits, propsOutput.expose] =
        [some ("['a']" : Text), none, none] := by decide +kernel
    intro definition hdefinition
    rw [hdefinitions] at hdefinition
    simp only [List.mem_cons, Option.some.injEq, reduceCtorEq, List.not_mem_nil, or_false] at hdefinition
    subst hdefinition
    decide +kernel

/-- The third round over the script, under names of its own, finds nothing and holds the second as it
is. -/
theorem recompilation_inert_propsScript :
    ∃ previous result,
      roundsCode propsOutput.code [{}, { name := some "defineProps(1)" }] = .ok previous ∧
      (compileScript {} previous (some "Card") none).value = .ok result ∧
      result.results = [] ∧ result.imports = [] ∧ result.components = [] ∧ result.bindings = [] ∧
      result.isAsync = false ∧ result.props = none ∧ result.emits = none ∧ result.expose = none ∧
      result.code = (Draft.start {} previous (some "Card") none).moduleText previous [] false ∧
      result.code = embedLead "Card" ++ (previous ++ embedTail) := by
  refine recompilation_inert recompilable_propsOutput.1 recompilable_propsOutput.2
    [{}, { name := some "defineProps(1)" }] { name := some "Card" } ?_
  have hunobtrusive : Unobtrusive "defineProps(1)" := by decide +kernel
  simpa using hunobtrusive

end SetupScript
