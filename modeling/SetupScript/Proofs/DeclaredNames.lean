import SetupScript.Proofs.CallForms
import SetupScript.Proofs.DeclarationForms
import SetupScript.Proofs.StatementLevel

/-!
# Names of a declaration

The names of a script are collected from its text without comments. After whole statements with
balanced brackets a declaration of a plain name binds that name, whatever it is assigned. The
declaration of a pattern binds the names of the pattern, as it reads without its comments, unless it is
assigned the props parameter.
-/

namespace SetupScript

/-! ## Without comments -/

/-- Taking comments out of cells keeps the surplus of brackets and adds none on the way. -/
theorem surplus_bareCells {o c : Char} (ho : o ≠ '\n') (hc : c ≠ '\n') (cells : List Cell) :
    (∀ j, ∃ k, surplus [o] [c] ((bareCells cells).take j) = surplus [o] [c] (cells.take k)) ∧
      surplus [o] [c] (bareCells cells) = surplus [o] [c] cells := by
  induction cells with
  | nil => exact ⟨fun j => ⟨j, by simp [bareCells]⟩, rfl⟩
  | cons cell rest ih =>
    obtain ⟨htake, htotal⟩ := ih
    -- a cell that stays moves the count as before
    have hstays {kept : Cell} (hkept : bareCells (cell :: rest) = kept :: bareCells rest)
        (hstep : kept.delimiterStep [o] [c] = cell.delimiterStep [o] [c]) :
        (∀ j, ∃ k, surplus [o] [c] ((bareCells (cell :: rest)).take j) =
          surplus [o] [c] ((cell :: rest).take k)) ∧
        surplus [o] [c] (bareCells (cell :: rest)) = surplus [o] [c] (cell :: rest) := by
      rw [hkept]
      refine ⟨fun j => ?_, by rw [surplus_cons, surplus_cons, hstep, htotal]⟩
      cases j with
      | zero => exact ⟨0, rfl⟩
      | succ j =>
        obtain ⟨k, hk⟩ := htake j
        exact ⟨k + 1, by rw [List.take_succ_cons, List.take_succ_cons, surplus_cons, surplus_cons, hstep, hk]⟩
    obtain ⟨d, mode⟩ := cell
    cases hmode : mode.isComment with
    | false => exact hstays (bareCells_cons_of_not_comment hmode rest) rfl
    | true =>
      have hzero : Cell.delimiterStep [o] [c] ⟨d, mode⟩ = 0 := by
        cases mode <;> simp_all [Mode.isComment, Cell.delimiterStep, Cell.isDelimiter, Cell.isCode]
      by_cases hd : d = '\n'
      · subst hd
        refine hstays (bareCells_cons_break hmode rest) ?_
        rw [hzero]
        simp [Cell.delimiterStep, Cell.isDelimiter, ho, hc]
      · rw [bareCells_cons_of_comment hmode hd]
        refine ⟨fun j => ?_, by rw [surplus_cons, hzero, Int.zero_add, htotal]⟩
        obtain ⟨k, hk⟩ := htake j
        exact ⟨k + 1, by rw [List.take_succ_cons, surplus_cons, hzero, Int.zero_add, hk]⟩

/-- Without comments a lead still ends where a statement may start. -/
theorem EndsStatement.bareText {lead : Text} (h : EndsStatement lead)
    (hcode : Context.code.after lead = .code) : EndsStatement (bareText .code lead) := by
  have hlast {c : Char} (hchar : lead.getLast? = some c) :
      ∃ mode, (labelFrom .code lead).getLast? = some ⟨c, mode⟩ := by
    rw [← map_char_labelFrom .code lead, List.getLast?_map, Option.map_eq_some_iff] at hchar
    obtain ⟨⟨d, mode⟩, hcell, rfl⟩ := hchar
    exact ⟨mode, hcell⟩
  rcases h with rfl | hbreak | hsemicolon
  · exact .inl rfl
  · obtain ⟨mode, hcell⟩ := hlast hbreak
    exact .inr (.inl (getLast?_bareText hcell (by simp [Cell.survives])))
  · -- no comment closes with a semicolon
    obtain ⟨mode, hcell⟩ := hlast hsemicolon
    have hmode : mode.isComment = false := by
      by_contra hcomment
      have hcloses := closes_of_comment_last hcode hcell (by simpa using hcomment)
      simp at hcloses
    exact .inr (.inr (getLast?_bareText hcell (by simp [Cell.survives, hmode])))

/-- Without comments a region is still one. -/
theorem IsBracketed.bareText {opener : Char} {target : Text} (h : IsBracketed opener target) :
    IsBracketed opener (bareText .code target) := by
  obtain ⟨inner, hcells, hopen, hzero⟩ := h.cells
  have hbrackets : opener ≠ '\n' ∧ patternCloser opener ≠ '\n' := by
    rcases h.opens with rfl | rfl
    · decide
    · decide
  have hnonneg (k : Nat) : 0 ≤ surplus [opener] [patternCloser opener] (inner.take k) := by
    rcases Nat.le_total k inner.length with hle | hge
    · exact hopen k hle
    · rw [List.take_of_length_le hge]
      exact Int.le_of_eq hzero.symm
  obtain ⟨htake, htotal⟩ := surplus_bareCells hbrackets.1 hbrackets.2 inner
  have hbare : labelFrom .code (SetupScript.bareText .code target) =
      ⟨opener, .code⟩ :: (bareCells inner ++ [⟨patternCloser opener, .code⟩]) := by
    have hreads := (readsBare .code target).1
    rw [hcells, bareCells_cons_of_not_comment rfl, bareCells_append] at hreads
    exact hreads
  refine .of_cells h.opens hbare (fun j _ => ?_) (htotal.trans hzero)
  obtain ⟨k, hk⟩ := htake j
  rw [hk]
  exact hnonneg k

/-- Comments are taken out of a declaration part by part. -/
theorem IsTarget.bareText_eq {declaration : Declaration} (h : IsTarget declaration) {lead : Text}
    (hlead : EndsStatement lead) (hcode : Context.code.after lead = .code) (value : Text) :
    bareText .code (lead ++ (declarationText declaration.target ++ value)) =
      bareText .code lead ++ (declarationText (bareText .code declaration.target) ++ bareText .code value) := by
  obtain ⟨hafter, hslash⟩ := h.reads
  have hparts (target rest : Text) :
      declarationText target ++ rest = ("const " : Text) ++ (target ++ (" = " ++ rest)) := by
    simp only [declarationText, List.append_assoc]
  have hfixed : bareText .code "const " = ("const " : Text) ∧ bareText .code " = " = (" = " : Text) :=
    ⟨bareText_of_plain (by decide), bareText_of_plain (by decide)⟩
  rw [bareText_append hcode (hlead.not_slashMeets _), hparts, hparts,
    bareText_append (by decide) (not_slashMeets_of_last (by decide) _),
    bareText_append hafter (hslash _), bareText_append (by decide) (not_slashMeets_of_last (by decide) _),
    hfixed.1, hfixed.2]

/-! ## Statement level -/

/-- A declaration after a balanced lead stands at statement level. -/
theorem isTopLevel_declaration {lead : Text} (hlead : EndsStatement lead) (hbalanced : Balanced lead)
    (target rest : Text) :
    (Scan.ofText (bareText .code lead ++ (declarationText target ++ rest))).isTopLevel
      (bareText .code lead).length := by
  have hafter := after_bareText hbalanced.code
  have hends := hlead.bareText hbalanced.code
  refine Scan.isTopLevel_ofText.mpr ⟨isCode_declaration hends hafter target rest, ?_⟩
  have hcells : (Scan.ofText (bareText .code lead ++ (declarationText target ++ rest))).cells.take
      (bareText .code lead).length = bareCells (labelFrom .code lead) := by
    rw [Scan.ofText, (labelFrom_append hafter (hends.not_slashMeets _)).1,
      List.take_left' (length_labelFrom .code _)]
    exact (readsBare .code lead).1
  have hsurplus := (surplus_bareCells (o := '{') (c := '}') (by decide) (by decide) (labelFrom .code lead)).2
  rw [hbalanced.zero ('{', '}') (by decide), surplus_eq_counts (by decide)] at hsurplus
  rw [Scan.codeCount, Scan.codeCount, hcells]
  omega

/-! ## Plain names -/

/-- A character outside a class does not stand in a text of that class. -/
theorem Text.all_ne_of_class {p : Char → Bool} {c : Char} (hc : p c = false) {t : Text} (h : t.all p) :
    t.all (· != c) := by
  refine List.all_eq_true.mpr fun d hd => ?_
  rw [bne_iff_ne]
  rintro rfl
  rw [List.all_eq_true.mp h _ hd] at hc
  cases hc

namespace Reader

variable {t left name : Text}

/-- White space may follow the equals sign of an open declaration. -/
theorem OpenForm.append_blank {taken : Text} (h : OpenForm name taken) : OpenForm name (taken ++ [' ']) := by
  obtain ⟨word, gap, b₁, b₂, hmem, rfl, hgap, hname, hb₁, hb₂⟩ := h
  refine ⟨word, gap, b₁, b₂ ++ [' '], hmem, by simp, hgap, hname, hb₁, ?_⟩
  rw [List.all_append, hb₂]
  decide

/-- The declaration of a plain name ends with its only equals sign. -/
theorem of_nameDeclaration (h : nameDeclaration t = some (name, left)) :
    ∃ front, t = front ++ '=' :: left ∧ front.all (· != '=') ∧ OpenForm name (front ++ ['=']) := by
  simp only [nameDeclaration, bind_eq_some, identifier_eq_some, blanks_eq_some, literal_eq_some,
    pure_eq_some] at h
  obtain ⟨_, _, hword, name', _, ⟨rfl, hname, -⟩, _, _, ⟨b₁, rfl, hb₁, -⟩, _, _, rfl, rfl, rfl⟩ := h
  obtain ⟨word, gap, hmem, rfl, hgap⟩ := of_declarationWord hword
  refine ⟨word ++ (gap ++ (name' ++ b₁)), by simp, ?_, word, gap, b₁, [], hmem, by simp, ⟨hgap.1, hgap.2.1⟩,
    hname, hb₁, rfl⟩
  rw [List.all_append, List.all_append, List.all_append,
    Text.all_ne_of_class (by decide) (word_of_mem_declarationWords hmem).1,
    Text.all_ne_of_class (by decide) hgap.1,
    Text.all_ne_of_class (by decide) (Text.word_of_isIdentifier hname).1, Text.all_ne_of_class (by decide) hb₁]
  rfl

/-- Reading the declaration of a plain name takes at least one character. -/
theorem length_lt_of_nameDeclaration (t name left : Text) (h : nameDeclaration t = some (name, left)) :
    left.length < t.length := by
  obtain ⟨front, rfl, -⟩ := of_nameDeclaration h
  rw [List.length_append, List.length_cons]
  omega

/-- The declaration of a plain name is read wherever it is written. -/
theorem nameDeclaration_const (h : Text.isIdentifier name) (rest : Text) :
    nameDeclaration (declarationText name ++ rest) = some (name, ' ' :: rest) := by
  have hparts : declarationText name ++ rest =
      ("const " : Text) ++ (name ++ ([' '] ++ '=' :: ' ' :: rest)) := by
    rw [declarationText, List.append_assoc, List.append_assoc]
    rfl
  rw [hparts]
  simp only [nameDeclaration, bind_eq_some, identifier_eq_some, blanks_eq_some, literal_eq_some, pure_eq_some]
  exact ⟨(), _, declarationWord_const (head?_of_isIdentifier h _), name, _, ⟨rfl, h, rfl⟩, (), _,
    ⟨[' '], rfl, by decide, rfl⟩, (), ' ' :: rest, rfl, rfl, rfl⟩

end Reader

/-- The declaration of a plain name that starts in the lead ends in it if another follows the lead. -/
theorem EndsStatement.stop_le_of_nameDeclaration {lead : Text} (hlead : EndsStatement lead)
    {name other rest left : Text} (hname : Text.isIdentifier name) {start : Nat} (hstart : start < lead.length)
    (hread : Reader.nameDeclaration ((lead ++ (declarationText name ++ rest)).drop start) = some (other, left)) :
    start + (((lead ++ (declarationText name ++ rest)).drop start).length - left.length) ≤ lead.length := by
  by_contra hpast
  have hle := Nat.le_of_lt hstart
  obtain ⟨front, htaken, hfront, hform⟩ := Reader.of_nameDeclaration hread
  rw [htaken, List.length_append, List.length_cons] at hpast
  have hlong : (lead.drop start).length ≤ front.length := by
    rw [List.length_drop]
    omega
  have hparts : declarationText name ++ rest = (("const " : Text) ++ (name ++ [' '])) ++ '=' :: ' ' :: rest := by
    simp only [declarationText, List.append_assoc]
    rfl
  rw [List.drop_append_of_le_length hle, hparts] at htaken
  obtain ⟨more, rfl⟩ : lead.drop start <+: front :=
    List.prefix_of_prefix_length_le (List.prefix_append _ _) ⟨_, htaken.symm⟩ hlong
  rw [List.append_assoc (lead.drop start) more, List.append_cancel_left_eq] at htaken
  have hmore : more.all (· != '=') := by
    rw [List.all_append, Bool.and_eq_true] at hfront
    exact hfront.2
  have hdeclared : (("const " : Text) ++ (name ++ [' '])).all (· != '=') := by
    rw [List.all_append, List.all_append,
      Text.all_ne_of_class (by decide) (Text.word_of_isIdentifier hname).1]
    decide
  -- it would go on up to the equals sign of the declaration after the lead
  obtain ⟨rfl, -⟩ := Text.cut_unique hdeclared hmore rfl rfl htaken
  have hopen : (lead ++ declarationText name).drop start =
      lead.drop start ++ (("const " : Text) ++ (name ++ [' '])) ++ ['='] ++ [' '] := by
    rw [List.drop_append_of_le_length hle, declarationText]
    simp only [List.append_assoc]
    rfl
  exact hlead.not_openForm hname hstart (hopen ▸ hform.append_blank)

/-- The declaration of a plain name after the lead is found there. -/
theorem EndsStatement.mem_findAll_name {lead : Text} (hlead : EndsStatement lead) {name : Text}
    (hname : Text.isIdentifier name) (rest : Text) :
    ∃ found ∈ Text.findAll Text.outsideMember Reader.nameDeclaration
        (lead ++ (declarationText name ++ rest)), found.start = lead.length ∧ found.value = name := by
  have hread : Reader.nameDeclaration ((lead ++ (declarationText name ++ rest)).drop lead.length) =
      some (name, ' ' :: rest) := by
    rw [List.drop_left]
    exact Reader.nameDeclaration_const hname rest
  refine ⟨_, Text.mem_findAll_of_read Reader.length_lt_of_nameDeclaration (hlead.outsideMember _) hread
    fun found hmem hearlier => ?_, rfl, rfl⟩
  obtain ⟨left, -, hfound, hstop⟩ := Text.mem_findAll hmem
  exact hstop ▸ hlead.stop_le_of_nameDeclaration hname hearlier hfound

/-! ## Collected names -/

namespace Bindings

variable {settings : Settings} {lead name : Text} (hlead : EndsStatement lead)

include hlead

/-- A plain name that is declared after a balanced lead is collected. -/
theorem mem_collect_of_name (hbalanced : Balanced lead) (hname : Text.isIdentifier name)
    (hown : IsOwn settings name) (value : Text) :
    name ∈ (collect settings (lead ++ (declarationText name ++ value))).1 := by
  have htext := (IsTarget.name hname).bareText_eq hlead hbalanced.code value
  simp only [bareText_of_plain (all_isPlain_of_isIdentifier hname)] at htext
  rw [mem_collect, withoutComments_ofText, htext]
  refine ⟨hown, .inl ⟨_, isTopLevel_declaration hlead hbalanced name _, .inl ?_⟩⟩
  rw [Scan.text_ofText]
  exact (hlead.bareText hbalanced.code).mem_findAll_name hname _

/-- The names of a pattern that is declared at statement level are read, unless the pattern is assigned
the props parameter. -/
theorem mem_patternNames {opener : Char} {target value : Text} (h : IsBracketed opener target)
    (hcode : Context.code.after lead = .code)
    (htop : (Scan.ofText (lead ++ (declarationText target ++ value))).isTopLevel lead.length)
    (hvalue : Reader.assignmentOf settings.propsParam (" = " ++ value) = none)
    (hname : name ∈ Pattern.names target) :
    name ∈ (patternNames settings (Scan.ofText (lead ++ (declarationText target ++ value))) opener).1 := by
  have hfound := hlead.mem_findAll_pattern h.opens (target.tail ++ (" = " ++ value))
  have htext : ("const " : Text) ++ opener :: (target.tail ++ (" = " ++ value)) =
      declarationText target ++ value := by
    rw [declarationText, ← List.cons_append, ← h.first, List.append_assoc, List.append_assoc]
  rw [htext] at hfound
  have hregion := h.balanced?_target hlead hcode value
  have hassigned : (Reader.assignment (" = " ++ value)).isSome := rfl
  simp only [patternNames, List.mem_flatMap, List.mem_map, List.mem_filter, Scan.text_ofText]
  refine ⟨(Pattern.names target, []), ⟨_, ⟨hfound, ?_⟩, ?_⟩, hname⟩
  · simp only [htop, Bool.and_true, beq_self_eq_true]
  · simp only [Nat.add_succ_sub_one, hregion, drop_past_target, hassigned, hvalue, Option.isNone_none,
      Bool.and_self, if_true]

/-- The names of a pattern that is declared after a balanced lead are collected, unless the pattern is
assigned the props parameter. -/
theorem mem_collect_of_pattern (hbalanced : Balanced lead) {opener : Char} {target value : Text}
    (h : IsPatternText opener target) (hown : IsOwn settings name)
    (hvalue : Reader.assignmentOf settings.propsParam (" = " ++ bareText .code value) = none)
    (hname : name ∈ Pattern.names (bareText .code target)) :
    name ∈ (collect settings (lead ++ (declarationText target ++ value))).1 := by
  have htext := (IsTarget.pattern h).bareText_eq hlead hbalanced.code value
  rw [mem_collect, withoutComments_ofText, htext]
  refine ⟨hown, .inr ⟨opener, by simpa using h.opens, ?_⟩⟩
  exact mem_patternNames (hlead.bareText hbalanced.code) h.toIsBracketed.bareText
    (after_bareText hbalanced.code) (isTopLevel_declaration hlead hbalanced _ _) hvalue hname

end Bindings

end SetupScript
