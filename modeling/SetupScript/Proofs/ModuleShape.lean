import SetupScript.Compile
import SetupScript.Proofs.WrittenNames

/-!
# The shape of a generated module

A generated module is the export lead, one opening brace, text that is steady at any depth, and the
closing brace. So whatever the script holds, nothing in the module after its first line stands at
statement level, as long as the parts that come from the script are steady on their own.
-/

namespace SetupScript

/-- What every generated module starts with, up to the first line break inside its object. -/
def moduleLead : Text := "module.exports = \x7b\n"

/-- The text is a module: the lead, a steady text, and the closing brace. -/
def Wrapped (code : Text) : Prop := ∃ inner, code = moduleLead ++ (inner ++ ['}']) ∧ Steady 0 inner 0

/-- What a module takes from a draft can stand in it. -/
structure Draft.Writable (draft : Draft) : Prop where
  /-- The names of the generated code are the usual ones. -/
  settings : draft.settings = {}
  /-- The component name can be quoted. -/
  name : isQuotable draft.componentName
  /-- Names and paths of component files can be quoted. -/
  components : ∀ file ∈ draft.components, isQuotable file.name ∧ isQuotable file.path
  /-- Imported names mean nothing to a scan, and paths can be quoted. -/
  imports : ∀ record ∈ draft.imports,
    (∀ name ∈ record.clause.names, name.all isInert) ∧ isQuotable record.path
  /-- The props definition is steady. -/
  props : ∀ definition ∈ draft.props, Steady 0 definition 0
  /-- The emits definition is steady. -/
  emits : ∀ definition ∈ draft.emits, Steady 0 definition 0
  /-- What is exposed is steady. -/
  expose : ∀ definition ∈ draft.expose, definition ≠ [] → Steady 0 definition 0

/-- A quoted text between blocks. -/
theorem block_quoted {a b c : Int} {s t u : Text} (hb : 0 ≤ b) (hs : Block a s b)
    (hlast : s.getLast? ≠ some '/') (hne : s ≠ []) (ht : isQuotable t) (hu : Block b u c) :
    Block a (s ++ ('\x22' :: (t ++ ('\x22' :: u)))) c := by
  have h := hs.enclose hlast hne (steady_of_isQuotable hb ht) hu
  simpa using h

/-- The entries of a component file stand at the depth of the components map. -/
theorem block_entry {file : ComponentImport} (h : isQuotable file.name ∧ isQuotable file.path) :
    Block 1 (file.entry "vueEsmRuntime") 1 := by
  have hload {u : Text} (hu : Block 1 u 1) :
      Block 1 ((": vueEsmRuntime(" : Text) ++ ('\x22' :: (file.path ++ ('\x22' :: u)))) 1 :=
    block_quoted (by decide) (by decide) (by decide) (by decide) h.2 hu
  have hlower {u : Text} (hu : Block 1 u 1) : Block 1 (("),\n    " : Text) ++
      ('\x22' :: (Text.lower file.name ++ ('\x22' :: u)))) 1 :=
    block_quoted (by decide) (by decide) (by decide) (by decide) (isQuotable_lower h.1) hu
  have hname {u : Text} (hu : Block 1 u 1) :
      Block 1 (("    " : Text) ++ ('\x22' :: (file.name ++ ('\x22' :: u)))) 1 :=
    block_quoted (by decide) (by decide) (by decide) (by decide) h.1 hu
  have hentry := hname (hload (hlower (hload (by decide : Block 1 (")" : Text) 1))))
  unfold ComponentImport.entry
  simp only [List.append_assoc, String.reduceToList, List.cons_append, List.nil_append] at hentry ⊢
  exact hentry

/-- The binding of an import stands at the depth of the setup function. -/
theorem block_binding {record : ImportRecord}
    (h : (∀ name ∈ record.clause.names, name.all isInert) ∧ isQuotable record.path) :
    Block 1 record.binding 1 := by
  have hrequire : Block 1 ((" = require(" : Text) ++ ('\x22' :: (record.path ++ ('\x22' ::
      (");\n" : Text))))) 1 :=
    block_quoted (b := 1) (by decide) (by decide) (by decide) (by decide) h.2
      (by decide)
  have hvar {target : Text} (htarget : Block 1 target 1) :
      Block 1 (("    var " : Text) ++ (target ++ ((" = require(" : Text) ++ ('\x22' ::
        (record.path ++ ('\x22' :: (");\n" : Text))))))) 1 :=
    Block.append (by decide : Block 1 ("    var " : Text) 1) (htarget.append hrequire)
  unfold ImportRecord.binding
  cases hclause : record.clause with
  | whole name =>
    have hname : name.all isInert := h.1 name (by simp [hclause, ImportClause.names])
    have hbinding := hvar (Block.of_inert (by decide) hname)
    simp only [List.append_assoc, String.reduceToList, List.cons_append, List.nil_append] at hbinding ⊢
    exact hbinding
  | named names =>
    have hnames : Block 2 (Text.joinWith ", " names) 2 := by
      refine Block.joinWith (by decide) (by decide) fun name hname => ?_
      exact Block.of_inert (by decide) (h.1 name (by simpa [hclause, ImportClause.names] using hname))
    have hpattern : Block 1 (("\x7b " : Text) ++ (Text.joinWith ", " names ++ (" \x7d" : Text))) 1 :=
      Block.append (by decide : Block 1 ("\x7b " : Text) 2)
        (hnames.append (by decide))
    have hbinding := hvar hpattern
    simp only [List.append_assoc, String.reduceToList, List.cons_append, List.nil_append] at hbinding ⊢
    exact hbinding

/-- A definition that is steady stands on a line of the definition object. -/
theorem block_definitionLine {key : Text} {definition : Option Text} (hkey : key.all isInert)
    (h : ∀ text ∈ definition, Steady 0 text 0) : Block 0 (definitionLine key definition) 0 := by
  cases definition with
  | none => exact Block.nil (by decide)
  | some text =>
    have hkeyed : Block 0 (("  " : Text) ++ key) 0 :=
      Block.append (by decide : Block 0 ("  " : Text) 0) (Block.of_inert (by decide) hkey)
    have hlead : Block 0 (("  " : Text) ++ key ++ (": " : Text)) 0 :=
      hkeyed.append (by decide)
    have hlast : (("  " : Text) ++ key ++ (": " : Text)).getLast? ≠ some '/' := by
      rw [List.getLast?_append, show (": " : Text).getLast? = some ' ' by decide]
      simp
    have hline := hlead.enclose hlast (by simp) (h text rfl)
      (by decide : Block 0 (",\n" : Text) 0)
    unfold definitionLine
    simp only [List.append_assoc] at hline ⊢
    exact hline

namespace Draft

variable {draft : Draft}

/-- The components map stands at the depth of the definition object. -/
theorem Writable.block_componentsText (h : draft.Writable) : Block 0 draft.componentsText 0 := by
  unfold componentsText
  split
  · exact Block.nil (by decide)
  · have hentries : Block 1 (Text.joinWith ",\n"
        (draft.components.map (·.entry draft.settings.runtimeLoader))) 1 := by
      refine Block.joinWith (by decide) (by decide) fun entry hentry => ?_
      obtain ⟨file, hfile, rfl⟩ := List.mem_map.mp hentry
      rw [h.settings]
      exact block_entry (h.components file hfile)
    exact Block.append (Block.append (Block.append (by decide) hentries) (by decide))
      (by decide : Block 1 ("  \x7d,\n" : Text) 0)

/-- What is exposed stands at the depth of the setup function. -/
theorem Writable.block_exposeText (h : draft.Writable) : Block 1 draft.exposeText 1 := by
  unfold exposeText
  split
  · next c rest hexpose =>
    rw [h.settings]
    have hsteady : Steady 1 (c :: rest) 1 :=
      (h.expose (c :: rest) hexpose (by simp)).lift (by decide : (0 : Int) ≤ 1)
    have hlead : Block 1 (("    " : Text) ++ ({} : Settings).contextParam ++ (".expose(" : Text)) 1 := by
      decide
    have hline := hlead.enclose (by decide) (by decide) hsteady
      (by decide : Block 1 (");\n" : Text) 1)
    simp only [List.append_assoc] at hline ⊢
    exact hline
  · exact Block.nil (by decide)

/-- The object that setup returns stands at the depth of the setup function. -/
theorem block_returnText {names : List Text} (h : ∀ name ∈ names, name.all isInert) :
    Block 1 (returnText names) 1 := by
  have hentries : Block 2 (Text.joinWith ",\n"
      (names.map fun name => ("      " : Text) ++ name ++ (": " : Text) ++ name)) 2 := by
    refine Block.joinWith (by decide) (by decide) fun entry hentry => ?_
    obtain ⟨name, hname, rfl⟩ := List.mem_map.mp hentry
    have hblock : Block 2 name 2 := Block.of_inert (by decide) (h name hname)
    exact Block.append (Block.append (Block.append (by decide) hblock) (by decide)) hblock
  have hbreak : Block 2 (if names.isEmpty then [] else "\n" : Text) 2 := by
    split
    · exact Block.nil (by decide)
    · decide
  unfold returnText
  exact Block.append (Block.append (Block.append (by decide) hentries) hbreak)
    (by decide)

/-- The helper for defaults stands at the depth of the setup function. -/
theorem block_defaultsHelperText : Block 1 (defaultsHelperText {}) 1 := by decide +kernel

/-- The head of the setup function, with its first line. -/
def setupHead (isAsync : Bool) : Text :=
  "  setup: " ++ (if isAsync then "async " else [] : Text) ++
    "function(" ++ ({} : Settings).propsParam ++ ", " ++ ({} : Settings).contextParam ++ ") \x7b\n" ++
    "    var " ++ ({} : Settings).emitParam ++ " = " ++ ({} : Settings).contextParam ++ ".emit;\n"

/-- The head of the setup function opens one brace. -/
theorem block_setupHead (isAsync : Bool) : Block 0 (setupHead isAsync) 1 := by
  cases isAsync <;> decide

/-- The script body stands at the depth of the setup function when it is steady together with the
line break after it. -/
theorem block_body {body : Text} (h : Steady 0 (body ++ ['\n']) 0) :
    Block 1 (("\n" : Text) ++ (body ++ ("\n\n" : Text))) 1 := by
  have hsteady : Steady 1 (body ++ ['\n']) 1 := h.lift (by decide : (0 : Int) ≤ 1)
  have hblock := (by decide : Block 1 ("\n" : Text) 1).enclose (by decide) (by decide) hsteady
    (by decide : Block 1 ("\n" : Text) 1)
  simpa using hblock

/-- The line with the component name stands at the depth of the definition object. -/
theorem Writable.block_nameLine (h : draft.Writable) :
    Block 0 (("  name: \x22" : Text) ++ (draft.componentName ++ ("\x22,\n" : Text))) 0 := by
  have hline : Block 0 (("  name: " : Text) ++ ('\x22' :: (draft.componentName ++ ('\x22' ::
      (",\n" : Text))))) 0 :=
    block_quoted (b := 0) (by decide) (by decide) (by decide) (by decide) h.name
      (by decide)
  simp only [String.reduceToList, List.cons_append, List.nil_append] at hline ⊢
  exact hline

/-- What stands in a module between its lead and its closing brace. -/
def moduleInner (draft : Draft) (body : Text) (names : List Text) (isAsync : Bool) : Text :=
  ("  name: \x22" ++ (draft.componentName ++ "\x22,\n")) ++ (draft.componentsText ++
    (definitionLine "props" draft.props ++ (definitionLine "emits" draft.emits ++
      (setupHead isAsync ++ ((if draft.defaultsUsed then defaultsHelperText {} else []) ++
        (draft.imports.flatMap ImportRecord.binding ++ (("\n" ++ (body ++ "\n\n")) ++
          (draft.exposeText ++ (returnText names ++ "  \x7d\n")))))))))

/-- A module is its lead, what stands in it, and the closing brace. -/
theorem moduleText_eq (hsettings : draft.settings = {}) (body : Text) (names : List Text)
    (isAsync : Bool) : draft.moduleText body names isAsync =
      moduleLead ++ (draft.moduleInner body names isAsync ++ ['}']) := by
  have hlead (t : Text) : ("module.exports = " : Text) ++ (("\x7b\n" : Text) ++ t) =
      moduleLead ++ t := by
    rw [← List.append_assoc]
    rfl
  unfold moduleText moduleInner setupHead
  rw [hsettings]
  simp only [List.append_assoc, hlead]
  rfl

/-- A module written from what can stand in it is wrapped. -/
theorem Writable.wrapped_moduleText (h : draft.Writable) {body : Text} {names : List Text}
    (hbody : Steady 0 (body ++ ['\n']) 0) (hnames : ∀ name ∈ names, name.all isInert)
    (isAsync : Bool) : Wrapped (draft.moduleText body names isAsync) := by
  have hprops : Block 0 (definitionLine "props" draft.props) 0 :=
    block_definitionLine (by decide) h.props
  have hemits : Block 0 (definitionLine "emits" draft.emits) 0 :=
    block_definitionLine (by decide) h.emits
  have hhelper : Block 1 (if draft.defaultsUsed then defaultsHelperText {} else []) 1 := by
    split
    · exact block_defaultsHelperText
    · exact Block.nil (by decide)
  have himports : Block 1 (draft.imports.flatMap ImportRecord.binding) 1 :=
    Block.flatMap (by decide) fun record hrecord => block_binding (h.imports record hrecord)
  have hinner : Block 0 (draft.moduleInner body names isAsync) 0 :=
    h.block_nameLine.append (h.block_componentsText.append (hprops.append (hemits.append
      ((block_setupHead isAsync).append (hhelper.append (himports.append ((block_body hbody).append
        (h.block_exposeText.append ((block_returnText hnames).append
          (by decide : Block 1 ("  \x7d\n" : Text) 0))))))))))
  exact ⟨_, moduleText_eq h.settings body names isAsync, hinner.1⟩

end Draft

/-! ## Statement level in a module -/

/-- The cells of a module are those of its lead, of what stands in it, and the closing brace. -/
theorem Wrapped.cells {code : Text} (h : Wrapped code) :
    ∃ inner, code = moduleLead ++ (inner ++ ['}']) ∧ Steady 0 inner 0 ∧
      labelFrom .code code =
        labelFrom .code moduleLead ++ (labelFrom .code inner ++ [⟨'}', .code⟩]) := by
  obtain ⟨inner, rfl, hinner⟩ := h
  have hlead := labelFrom_append (b := inner ++ ['}']) (by decide : Context.code.after moduleLead = .code)
    (not_slashMeets_of_last (by decide) _)
  have hbrace : ¬ SlashMeets (labelFrom .code inner) ['}'] := by simp [SlashMeets]
  refine ⟨inner, rfl, hinner, ?_⟩
  rw [hlead.1, (labelFrom_append hinner.1 hbrace).1]
  rfl

/-- A module is steady itself. -/
theorem Wrapped.steady {code : Text} (h : Wrapped code) : Steady 0 code 0 := by
  obtain ⟨inner, rfl, hinner⟩ := h
  have hlifted : Steady 1 inner 1 := hinner.lift (by decide : (0 : Int) ≤ 1)
  exact (Block.enclose (by decide : Block 0 moduleLead 1) (by decide) (by decide) hlifted
    (by decide)).1

/-- A module without its comments is one still. -/
theorem Wrapped.bareText {code : Text} (h : Wrapped code) : Wrapped (bareText .code code) := by
  obtain ⟨inner, -, hinner, hcells⟩ := h.cells
  refine ⟨SetupScript.bareText .code inner, ?_, hinner.bareText⟩
  have hlead : (bareCells (labelFrom .code moduleLead)).map Cell.char = moduleLead := by decide
  rw [SetupScript.bareText, hcells, bareCells_append, bareCells_append, List.map_append,
    List.map_append, hlead]
  rfl

/-- Only the lead of a module stands at statement level. -/
theorem Wrapped.lt_of_isTopLevel {code : Text} (h : Wrapped code) {p : Nat}
    (htop : (Scan.ofText code).isTopLevel p) : p < moduleLead.length := by
  obtain ⟨inner, -, hinner, hcells⟩ := h.cells
  by_contra hp
  simp only [Scan.isTopLevel, Bool.and_eq_true, beq_iff_eq] at htop
  obtain ⟨hcode, hdepth⟩ := htop
  have hlt : p < (labelFrom .code code).length := by
    by_contra hlt
    rw [Scan.isCode, List.getElem?_eq_none (by simpa [Scan.ofText] using hlt)] at hcode
    cases hcode
  obtain ⟨k, rfl⟩ : ∃ k, p = moduleLead.length + k := ⟨p - moduleLead.length, by omega⟩
  have hk : k ≤ (labelFrom .code inner).length := by
    rw [hcells] at hlt
    simp only [List.length_append, length_labelFrom, List.length_singleton] at hlt ⊢
    omega
  -- inside the braces the depth is one more than that of the text between them
  have htake : (labelFrom .code code).take (moduleLead.length + k) =
      labelFrom .code moduleLead ++ (labelFrom .code inner).take k := by
    rw [hcells, List.take_append, length_labelFrom, Nat.add_sub_cancel_left,
      List.take_of_length_le (by simp), List.take_append_of_le_length hk]
  have hlow : 0 ≤ braceTotal ((labelFrom .code inner).take k) := by
    have hmem := List.mem_of_getElem? (depthsFrom_getElem? 0 hk)
    have := hinner.2.1 _ hmem
    omega
  have hlead : braceTotal (labelFrom .code moduleLead) = 1 := by decide
  have hat := depthsFrom_getElem? 0 (Nat.le_of_lt hlt)
  rw [htake, braceTotal_append, hlead] at hat
  have hvalue : (Scan.ofText code).depthAt (moduleLead.length + k : Nat) =
      0 + (1 + braceTotal ((labelFrom .code inner).take k)) := by
    have hmin : min (moduleLead.length + k) (labelFrom .code code).length = moduleLead.length + k := by
      omega
    simp only [Scan.depthAt, Scan.ofText, Int.toNat_natCast, hmin]
    rw [List.getD_eq_getElem?_getD, hat]
    rfl
  omega

end SetupScript
