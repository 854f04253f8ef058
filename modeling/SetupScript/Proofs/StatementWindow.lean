import SetupScript.Proofs.StatementLeads

/-!
# How far back a statement lead reaches

The start of a statement is looked for in the characters right before a function. A lead has to fit into
this window together with the mark that it stands after, so of all leads at the end of a text the
shortest one decides. Spaces and tabs in front of a function lengthen every lead by their number.
-/

namespace SetupScript.Bindings

/-- The text starts with a mark, and what follows the mark is a lead. -/
def isMarkedLead : Text → Bool
  | [] => false
  | c :: rest =>
    if c == ';' || c == '}' || c == '\n' then isStatementLead rest
    else if c == '*' && rest.head? == some '/' then isStatementLead (rest.drop 1)
    else false

/-- The length of the shortest end of a text that is a mark with a lead after it. -/
def markedReach? : Text → Option Nat
  | [] => none
  | c :: rest =>
    (markedReach? rest).or (if isMarkedLead (c :: rest) then some (rest.length + 1) else none)

/-- How far back from the end of a text its shortest lead reaches: to the mark that it stands after, or
to the start of the text. -/
def leadReach? (t : Text) : Option Nat :=
  (markedReach? t).or (if isStatementLead t then some t.length else none)

/-! ## The window -/

/-- A mark with a lead after it ends a text just when there is a shortest one. -/
theorem isSome_markedReach? (t : Text) : (markedReach? t).isSome = endsInStatementLead t := by
  induction t with
  | nil => rfl
  | cons c rest ih =>
    have hends : endsInStatementLead (c :: rest) =
        (isMarkedLead (c :: rest) || endsInStatementLead rest) := rfl
    rw [hends, markedReach?, Option.isSome_or, ih, Bool.or_comm]
    cases isMarkedLead (c :: rest) <;> rfl

/-- A lead reaches back no further than the text. -/
theorem markedReach?_le {t : Text} {reach : Nat} (h : reach ∈ markedReach? t) : reach ≤ t.length := by
  induction t with
  | nil => cases h
  | cons c rest ih =>
    rw [markedReach?, Option.mem_def, Option.or_eq_some_iff] at h
    rcases h with hrest | ⟨-, hhere⟩
    · exact (ih hrest).trans (Nat.le_succ _)
    · split at hhere
      · cases hhere
        exact Nat.le_refl _
      · cases hhere

/-- An end of the text shows the marked leads that are not longer than it. -/
theorem mem_markedReach?_drop {t : Text} {k reach : Nat} :
    reach ∈ markedReach? (t.drop k) ↔ reach ∈ markedReach? t ∧ reach ≤ t.length - k := by
  induction t generalizing k with
  | nil => simp [markedReach?]
  | cons c rest ih =>
    cases k with
    | zero => exact ⟨fun h => ⟨h, markedReach?_le h⟩, And.left⟩
    | succ k =>
      rw [List.drop_succ_cons, ih, List.length_cons, Nat.add_sub_add_right]
      refine and_congr_left fun hreach => ?_
      simp only [markedReach?, Option.mem_def, Option.or_eq_some_iff]
      refine ⟨.inl, fun h => h.resolve_right fun hhere => ?_⟩
      -- the lead that starts at the first character is longer than the end of the text
      have hlong := hhere.2
      split at hlong
      · cases hlong
        omega
      · cases hlong

/-- A statement starts at an offset, as far as the window shows, just when the shortest lead before it
fits into the window. -/
theorem startsStatement_eq {t : Text} {offset : Nat} (h : offset ≤ t.length) :
    startsStatement t offset ↔ ∃ reach ∈ leadReach? (t.take offset), reach ≤ statementWindow := by
  have hlength : (t.take offset).length = offset := by rw [List.length_take, Nat.min_eq_left h]
  rw [startsStatement]
  generalize t.take offset = front at hlength
  subst hlength
  rw [Bool.or_eq_true, Bool.and_eq_true, decide_eq_true_eq, ← isSome_markedReach?,
    Option.isSome_iff_exists]
  simp only [← Option.mem_def, mem_markedReach?_drop]
  cases hmarked : markedReach? front with
  | none =>
    by_cases hlead : isStatementLead front
    · simp only [leadReach?, hmarked, hlead, if_true, Option.none_or, Option.mem_def, Option.some.injEq,
        exists_eq_left', reduceCtorEq, false_and, exists_false, or_false]
      refine and_iff_left_of_imp fun hfits => ?_
      rw [Nat.sub_eq_zero_of_le hfits, List.drop_zero, hlead]
    · simp only [leadReach?, hmarked, hlead, Bool.false_eq_true, if_false, Option.none_or, Option.mem_def,
        reduceCtorEq, false_and, exists_false, or_false, iff_false, not_and]
      intro hfits
      rwa [Nat.sub_eq_zero_of_le hfits, List.drop_zero]
  | some reach =>
    have hreach := markedReach?_le (Option.mem_def.mpr hmarked)
    simp only [leadReach?, hmarked, Option.some_or, Option.mem_def, Option.some.injEq, exists_eq_left']
    omega

/-- A statement starts after a text just when some lead ends the text. -/
theorem followsLead_eq (t : Text) : followsLead t = (leadReach? t).isSome := by
  rw [followsLead, leadReach?, Option.isSome_or, isSome_markedReach?, Bool.or_comm]
  cases isStatementLead t <;> rfl

/-! ## Indentation -/

/-- A space or a tab. -/
def isIndent (c : Char) : Bool := c == ' ' || c == '\t'

/-- Spaces and tabs are blank. -/
theorem isBlank_of_isIndent {c : Char} (h : isIndent c) : Text.isBlank c := by
  rw [isIndent, Bool.or_eq_true, beq_iff_eq, beq_iff_eq] at h
  rcases h with rfl | rfl
  · decide
  · decide

/-- Blanks hold no word. -/
theorem leadFrom_blanks {t : Text} (h : t.all Text.isBlank) : leadFrom [] t := by
  induction t with
  | nil => rfl
  | cons c rest ih =>
    rw [List.all_cons, Bool.and_eq_true] at h
    rw [leadFrom, if_pos h.1]
    exact ih h.2

/-- Blanks after a text that ends in no name add nothing to the words of a lead. -/
theorem leadFrom_append_blanks {word t blanks : Text} (hblanks : blanks.all Text.isBlank)
    (hlast : (word ++ t).getLast?.any Text.isNameChar = false) :
    leadFrom word (t ++ blanks) = leadFrom word t := by
  induction t generalizing word with
  | nil =>
    rw [List.append_nil] at hlast
    rw [List.nil_append, leadFrom]
    cases hword : word.getLast? with
    | none =>
      rw [List.getLast?_eq_none_iff.mp hword]
      exact leadFrom_blanks hblanks
    | some c =>
      have hmem := List.mem_of_getLast? hword
      have hname : Text.isNameChar c = false := by simpa [hword] using hlast
      rw [(leadFrom_of_not_name hmem hname blanks).2]
      exact (List.isEmpty_eq_false_iff_exists_mem.mpr ⟨c, hmem⟩).symm
  | cons c rest ih =>
    rw [List.cons_append, leadFrom, leadFrom]
    split
    · rw [ih]
      cases rest with
      | nil => rfl
      | cons d more => simpa [List.getLast?_cons] using hlast
    · rw [ih]
      rwa [List.append_assoc, List.singleton_append]

/-- Indentation after a text that ends in no name makes no lead and breaks none. -/
theorem isStatementLead_append_indent {t indent : Text} (hindent : indent.all isIndent)
    (hlast : t.getLast?.any Text.isNameChar = false) :
    isStatementLead (t ++ indent) = isStatementLead t := by
  have hblanks : indent.all Text.isBlank :=
    List.all_eq_true.mpr fun c hc => isBlank_of_isIndent (List.all_eq_true.mp hindent c hc)
  rw [isStatementLead_eq, isStatementLead_eq]
  change (((t ++ indent).dropWhile isIndent).isEmpty ||
      (!((t ++ indent).dropWhile isIndent).head?.any Text.isBlank &&
        leadFrom [] ((t ++ indent).dropWhile isIndent))) =
    ((t.dropWhile isIndent).isEmpty ||
      (!(t.dropWhile isIndent).head?.any Text.isBlank && leadFrom [] (t.dropWhile isIndent)))
  rw [List.dropWhile_append]
  cases hcore : t.dropWhile isIndent with
  | nil => simp [List.dropWhile_eq_nil_iff.mpr (List.all_eq_true.mp hindent)]
  | cons c rest =>
    obtain ⟨front, hfront⟩ := List.dropWhile_suffix (l := t) isIndent
    have hcoreLast : (c :: rest).getLast?.any Text.isNameChar = false := by
      rw [← hfront, hcore] at hlast
      simpa [List.getLast?_append, List.getLast?_cons] using hlast
    rw [if_neg (by simp), leadFrom_append_blanks hblanks (by simpa using hcoreLast)]
    rfl

/-- What a text does not end in, its rest does not end in. -/
theorem any_getLast?_rest {p : Char → Bool} {c : Char} {rest : Text}
    (h : (c :: rest).getLast?.any p = false) : rest.getLast?.any p = false := by
  cases rest with
  | nil => rfl
  | cons d more => simpa [List.getLast?_cons] using h

/-- Indentation does not hide the mark of a lead, and makes none. -/
theorem isMarkedLead_append_indent {t indent : Text} (hne : t ≠ []) (hindent : indent.all isIndent)
    (hlast : t.getLast?.any Text.isNameChar = false) :
    isMarkedLead (t ++ indent) = isMarkedLead t := by
  cases t with
  | nil => exact absurd rfl hne
  | cons c rest =>
    have hrest := any_getLast?_rest hlast
    rw [List.cons_append, isMarkedLead, isMarkedLead, isStatementLead_append_indent hindent hrest]
    cases rest with
    | nil =>
      have hslash : (indent.head? == some '/') = false := by
        cases indent with
        | nil => rfl
        | cons d more =>
          rw [List.all_cons, Bool.and_eq_true] at hindent
          rw [List.head?_cons, beq_eq_false_iff_ne]
          rintro ⟨rfl⟩
          exact absurd hindent.1 (by decide)
      rw [List.nil_append, hslash, Bool.and_false, List.head?_nil, show (none == some '/') = false from rfl,
        Bool.and_false]
      rfl
    | cons d more =>
      rw [List.cons_append, List.drop_one, List.tail_cons, List.drop_one, List.tail_cons,
        isStatementLead_append_indent hindent (any_getLast?_rest hrest)]
      rfl

/-- There is no mark in indentation. -/
theorem markedReach?_indent {indent : Text} (h : indent.all isIndent) : markedReach? indent = none := by
  induction indent with
  | nil => rfl
  | cons c rest ih =>
    rw [List.all_cons, Bool.and_eq_true] at h
    have hmark : isMarkedLead (c :: rest) = false := by
      have hc := h.1
      rw [isIndent, Bool.or_eq_true, beq_iff_eq, beq_iff_eq] at hc
      rcases hc with rfl | rfl
      · rfl
      · rfl
    rw [markedReach?, ih h.2, hmark]
    rfl

/-- Indentation lengthens a marked lead by its own length. -/
theorem markedReach?_append_indent {t indent : Text} (hindent : indent.all isIndent)
    (hlast : t.getLast?.any Text.isNameChar = false) :
    markedReach? (t ++ indent) = (markedReach? t).map (· + indent.length) := by
  induction t with
  | nil => exact markedReach?_indent hindent
  | cons c rest ih =>
    rw [List.cons_append, markedReach?, ih (any_getLast?_rest hlast), markedReach?, ← List.cons_append,
      isMarkedLead_append_indent (List.cons_ne_nil c rest) hindent hlast, Option.map_or]
    cases isMarkedLead (c :: rest) with
    | true => simp [Nat.add_right_comm]
    | false => rfl

/-- Indentation lengthens the shortest lead by its own length. -/
theorem leadReach?_append_indent {t indent : Text} (hindent : indent.all isIndent)
    (hlast : t.getLast?.any Text.isNameChar = false) :
    leadReach? (t ++ indent) = (leadReach? t).map (· + indent.length) := by
  rw [leadReach?, leadReach?, markedReach?_append_indent hindent hlast,
    isStatementLead_append_indent hindent hlast, Option.map_or]
  cases isStatementLead t with
  | true => simp
  | false => rfl

/-! ## Functions at statement level -/

/-- The function declarations outside braces. -/
def outerFunctions (scan : Scan) : List (Text.Match Text) :=
  (Text.findAll Text.outsideMember Reader.functionDeclaration scan.text).filter fun found =>
    scan.isTopLevel found.start

/-- The names of the functions that start a statement, however long the lead before them is. -/
def leadFunctionNames (scan : Scan) : List Text :=
  ((outerFunctions scan).filter fun found => followsLead (scan.text.take found.start)).map (·.value)

/-- The names that are collected are those of the functions outside braces whose start the window
shows. -/
theorem functionNames_eq (scan : Scan) :
    functionNames scan =
      ((outerFunctions scan).filter fun found => startsStatement scan.text found.start).map (·.value) := by
  rw [functionNames, outerFunctions, List.filter_filter]
  refine congrArg (List.map _) (List.filter_congr fun found _ => ?_)
  rw [Bool.and_comm]

/-- A function declaration stands inside the text. -/
theorem start_le_of_mem_outerFunctions {scan : Scan} {found : Text.Match Text}
    (h : found ∈ outerFunctions scan) : found.start ≤ scan.text.length := by
  obtain ⟨left, hlt, -⟩ := Text.mem_findAll (List.mem_of_mem_filter h)
  exact Nat.le_of_lt hlt

/-- What the window shows stands in the whole text before the offset. -/
theorem followsLead_of_startsStatement {t : Text} {offset : Nat} (h : startsStatement t offset) :
    followsLead (t.take offset) := by
  rw [startsStatement, Bool.or_eq_true, Bool.and_eq_true, decide_eq_true_eq] at h
  rw [followsLead, Bool.or_eq_true, ← isSome_markedReach?, Option.isSome_iff_exists]
  rcases h with ⟨hfits, hlead⟩ | hends
  · rw [Nat.sub_eq_zero_of_le hfits, List.drop_zero] at hlead
    exact .inl hlead
  · rw [← isSome_markedReach?, Option.isSome_iff_exists] at hends
    obtain ⟨reach, hreach⟩ := hends
    exact .inr ⟨reach, (mem_markedReach?_drop.mp hreach).1⟩

/-- The window and the whole text before an offset show the same just when the shortest lead fits into
the window. -/
theorem startsStatement_eq_followsLead_iff {t : Text} {offset : Nat} (h : offset ≤ t.length) :
    startsStatement t offset = followsLead (t.take offset) ↔
      ∀ reach ∈ leadReach? (t.take offset), reach ≤ statementWindow := by
  rw [Bool.eq_iff_iff, startsStatement_eq h, followsLead_eq]
  cases leadReach? (t.take offset) with
  | none => simp
  | some reach => simp

/-- The names that are collected are those of all functions that start a statement just when each of
their leads fits into the window. -/
theorem functionNames_eq_leadFunctionNames_iff (scan : Scan) :
    functionNames scan = leadFunctionNames scan ↔ ∀ found ∈ outerFunctions scan,
      ∀ reach ∈ leadReach? (scan.text.take found.start), reach ≤ statementWindow := by
  have hagree (found : Text.Match Text) (hfound : found ∈ outerFunctions scan) :=
    startsStatement_eq_followsLead_iff (start_le_of_mem_outerFunctions hfound)
  rw [functionNames_eq, leadFunctionNames]
  constructor
  · intro hnames found hfound
    have hsub := List.monotone_filter_right (outerFunctions scan) (p := fun found =>
      startsStatement scan.text found.start) (q := fun found => followsLead (scan.text.take found.start))
      fun _ => followsLead_of_startsStatement
    have hlength := congrArg List.length hnames
    rw [List.length_map, List.length_map] at hlength
    -- two filters that leave equally much of the list leave the same
    have hsame := hsub.eq_of_length hlength
    refine (hagree found hfound).mp (Bool.eq_iff_iff.mpr ⟨followsLead_of_startsStatement, fun hlead => ?_⟩)
    have hmem : found ∈ (outerFunctions scan).filter fun found =>
        followsLead (scan.text.take found.start) := List.mem_filter.mpr ⟨hfound, hlead⟩
    rw [← hsame] at hmem
    exact (List.mem_filter.mp hmem).2
  · intro hfits
    refine congrArg (List.map _) (List.filter_congr fun found hfound => ?_)
    exact (hagree found hfound).mpr (hfits found hfound)

/-- At every offset the window shows the start of a statement just when the shortest lead before the
offset fits into it, so it shows what the whole text before the offset shows unless there is a lead and
all are too long. After a text that ends in no name, indentation hides the start of a statement as soon
as it is longer than the window has room for after the shortest lead. So the names of all functions that
start a statement are collected just when their leads fit into the window. -/
theorem window_agrees_iff_lead_fits (t : Text) :
    (∀ offset ≤ t.length,
      (startsStatement t offset → followsLead (t.take offset)) ∧
      (startsStatement t offset = followsLead (t.take offset) ↔
        ∀ reach ∈ leadReach? (t.take offset), reach ≤ statementWindow)) ∧
    (∀ front indent rest, t = front ++ (indent ++ rest) → indent.all isIndent →
      front.getLast?.any Text.isNameChar = false →
      (startsStatement t (front.length + indent.length) ↔
        ∃ reach ∈ leadReach? front, reach + indent.length ≤ statementWindow)) ∧
    (functionNames (Scan.ofText t) = leadFunctionNames (Scan.ofText t) ↔
      ∀ found ∈ outerFunctions (Scan.ofText t), ∀ reach ∈ leadReach? (t.take found.start),
        reach ≤ statementWindow) := by
  refine ⟨fun offset hoffset => ?_, fun front indent rest htext hindent hlast => ?_, ?_⟩
  · exact ⟨followsLead_of_startsStatement, startsStatement_eq_followsLead_iff hoffset⟩
  · have htake : t.take (front.length + indent.length) = front ++ indent := by
      rw [htext, ← List.append_assoc, ← List.length_append, List.take_left]
    have hoffset : front.length + indent.length ≤ t.length := by
      rw [htext, List.length_append, List.length_append]
      omega
    rw [startsStatement_eq hoffset, htake, leadReach?_append_indent hindent hlast]
    simp only [Option.mem_def, Option.map_eq_some_iff, exists_exists_and_eq_and]
  · rw [functionNames_eq_leadFunctionNames_iff, Scan.text_ofText]

/-- After a line break there is room for indentation of one character less than the window has. -/
theorem function_found_after_full_indent :
    let indent : Text := List.replicate 79 ' '
    let t : Text := "f()\n" ++ (indent ++ "function g() \x7b\x7d")
    indent.all isIndent ∧ leadReach? ("f()\n" : Text) = some 1 ∧ startsStatement t 83 ∧
      functionNames (Scan.ofText t) = ["g"] := by
  intro indent t
  have hindent : indent.all isIndent := by decide
  have hreach : leadReach? ("f()\n" : Text) = some 1 := by decide
  refine ⟨hindent, hreach, ?_, by decide +kernel⟩
  exact ((window_agrees_iff_lead_fits t).2.1 "f()\n" indent "function g() \x7b\x7d" rfl hindent
    (by decide)).mpr ⟨1, hreach, by decide⟩

/-- One space more than the window has room for, and a function at the start of a script is not found,
though nothing but spaces stands before it. -/
theorem function_lost_after_indent :
    let shown : Text := List.replicate 80 ' ' ++ "function f() \x7b\x7d"
    let lost : Text := List.replicate 81 ' ' ++ "function f() \x7b\x7d"
    followsLead (lost.take 81) ∧ startsStatement lost 81 = false ∧ (collect {} lost).1 = [] ∧
      (collect {} shown).1 = ["f"] := by
  decide +kernel

end SetupScript.Bindings
