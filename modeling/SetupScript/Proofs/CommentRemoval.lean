import SetupScript.Proofs.ScanComposition

/-!
# Scanning a text without its comments

Taking the comments out of a text leaves every other character in the mode that it had; the line
breaks that stay behind become code. No two characters that move together open a comment, since a
slash in code is never followed by a comment right away.
-/

namespace SetupScript

/-- The cell stays when comments are taken out. -/
def Cell.survives (cell : Cell) : Bool := !cell.mode.isComment || cell.char == '\n'

/-- A cell that stays: a line break that belonged to a comment becomes code. -/
def Cell.bared (cell : Cell) : Cell := if cell.mode.isComment then ⟨cell.char, .code⟩ else cell

/-- The cells that stay when comments are taken out. -/
def bareCells (cells : List Cell) : List Cell := (cells.filter Cell.survives).map Cell.bared

/-- A text without its comments, read from a given context on. -/
def bareText (context : Context) (t : Text) : Text := (bareCells (labelFrom context t)).map Cell.char

/-- The context that takes the place of a comment once it is gone. -/
def Context.bare : Context → Context
  | lineComment | blockComment => code
  | context => context

/-- Comments are taken out of a list of cells part by part. -/
@[simp] theorem bareCells_append (a b : List Cell) :
    bareCells (a ++ b) = bareCells a ++ bareCells b := by
  simp [bareCells]

/-- A cell outside comments stays as it is. -/
theorem bareCells_cons_of_not_comment {cell : Cell} (h : cell.mode.isComment = false)
    (cells : List Cell) : bareCells (cell :: cells) = cell :: bareCells cells := by
  simp [bareCells, Cell.survives, Cell.bared, h]

/-- A line break of a comment becomes code. -/
theorem bareCells_cons_break {mode : Mode} (h : mode.isComment) (cells : List Cell) :
    bareCells (⟨'\n', mode⟩ :: cells) = ⟨'\n', .code⟩ :: bareCells cells := by
  simp [bareCells, Cell.survives, Cell.bared, h]

/-- Any other character of a comment is lost. -/
theorem bareCells_cons_of_comment {mode : Mode} {c : Char} (h : mode.isComment) (hc : c ≠ '\n')
    (cells : List Cell) : bareCells (⟨c, mode⟩ :: cells) = bareCells cells := by
  simp [bareCells, Cell.survives, h, hc]

/-- A cell that stays keeps its character. -/
theorem Cell.char_bared (cell : Cell) : cell.bared.char = cell.char := by
  unfold Cell.bared
  split <;> rfl

/-- The text of a scan without comments is that of the cells that stay. -/
theorem withoutComments_ofText (t : Text) :
    (Scan.ofText t).withoutComments = bareText .code t := by
  simp only [Scan.withoutComments, Scan.ofText, bareText, bareCells, List.map_map]
  exact List.map_congr_left fun cell _ => cell.char_bared.symm

/-- A step of one character from code opens no comment. -/
theorem Context.not_comment_of_single {c : Char} {d : Option Char} {next : Context}
    (h : Context.step .code c d = (next, 1)) : next.mode.isComment = false ∧ next.bare = next := by
  simp only [step] at h
  grind [mode, Mode.isComment, bare]

/-! ## Replacing comments

Taking comments out is the case of an empty filler of replacing every character that goes. -/

/-- The cells of a text with `filler`, as code, in the place of each cell that goes with its comment. -/
def replaceLost (filler : Text) (cells : List Cell) : List Cell :=
  cells.flatMap fun cell => if cell.survives then [cell.bared] else filler.map (⟨·, .code⟩)

/-- A text with `filler` in the place of each character that goes, read from a given context on. -/
def replacedText (filler : Text) (context : Context) (t : Text) : Text :=
  (replaceLost filler (labelFrom context t)).map Cell.char

/-- Without a filler the cells are taken out. -/
theorem replaceLost_nil (cells : List Cell) : replaceLost [] cells = bareCells cells := by
  induction cells with
  | nil => rfl
  | cons cell rest ih =>
    rw [replaceLost, List.flatMap_cons, ← replaceLost, ih]
    cases hstays : cell.survives <;> simp [bareCells, hstays]

section Replacing

variable {filler : Text}

theorem replaceLost_cons_of_not_comment {cell : Cell} (h : cell.mode.isComment = false)
    (cells : List Cell) : replaceLost filler (cell :: cells) = cell :: replaceLost filler cells := by
  simp [replaceLost, Cell.survives, Cell.bared, h]

theorem replaceLost_cons_break {mode : Mode} (h : mode.isComment) (cells : List Cell) :
    replaceLost filler (⟨'\n', mode⟩ :: cells) = ⟨'\n', .code⟩ :: replaceLost filler cells := by
  simp [replaceLost, Cell.survives, Cell.bared, h]

theorem replaceLost_cons_of_comment {mode : Mode} {c : Char} (h : mode.isComment) (hc : c ≠ '\n')
    (cells : List Cell) :
    replaceLost filler (⟨c, mode⟩ :: cells) = filler.map (⟨·, .code⟩) ++ replaceLost filler cells := by
  simp [replaceLost, Cell.survives, h, hc]

/-- The characters of a filler. -/
theorem map_char_filler (filler : Text) :
    (filler.map fun c => (⟨c, .code⟩ : Cell)).map Cell.char = filler := by
  rw [List.map_map]
  exact List.map_id _

/-- The first character after a slash in code stays. -/
theorem head?_replacedText_code {t : Text} (h : t.head? ≠ some '/') :
    (replacedText filler .code t).head? = t.head? := by
  cases t with
  | nil => rfl
  | cons c rest =>
    have hwidth : (Context.step .code c rest.head?).2 = 1 := by
      have hc : c ≠ '/' := by simpa using h
      simp only [Context.step, hc, false_and, if_false]
      grind
    obtain ⟨next, hstep⟩ : ∃ next, Context.step .code c rest.head? = (next, 1) :=
      ⟨_, Prod.ext rfl hwidth⟩
    have hmode : (Context.code.readMode next).isComment = false :=
      (Context.not_comment_of_single hstep).1
    rw [replacedText, labelFrom_single hstep, replaceLost_cons_of_not_comment hmode]
    rfl

/-- A step of one character from code is the same once the comments after it are replaced. -/
theorem Context.step_code_replacedText {c : Char} {rest : Text} {next : Context}
    (h : Context.step .code c rest.head? = (next, 1)) :
    Context.step .code c (replacedText filler next rest).head? = (next, 1) := by
  by_cases hc : c = '/'
  · subst hc
    have hnext : next = .code ∧ rest.head? ≠ some '/' ∧ rest.head? ≠ some '*' := by
      simp only [step] at h
      grind
    obtain ⟨rfl, hslash, hstar⟩ := hnext
    rw [head?_replacedText_code hslash]
    exact h
  · simp only [step, hc, false_and, if_false] at h ⊢
    exact h

/-- With its comments replaced the text is read to the cells that stay and the filler, and ends in the
same context, a comment apart. -/
def ReadsReplaced (filler : Text) (context : Context) (t : Text) : Prop :=
  labelFrom context.bare (replacedText filler context t) = replaceLost filler (labelFrom context t) ∧
    context.bare.after (replacedText filler context t) = (context.after t).bare

namespace ReadsReplaced

variable {context next : Context} {c d : Char} {rest : Text}

/-- A character that stays is read by the same step in front of what stays of the rest. -/
theorem single_stays (hstep : context.step c rest.head? = (next, 1)) (ih : ReadsReplaced filler next rest)
    (hmode : (context.readMode next).isComment = false) (hbare : context.bare = context)
    (hnext : next.bare = next)
    (hstep' : context.step c (replacedText filler next rest).head? = (next, 1)) :
    ReadsReplaced filler context (c :: rest) := by
  have htext : replacedText filler context (c :: rest) = c :: replacedText filler next rest := by
    rw [replacedText, labelFrom_single hstep, replaceLost_cons_of_not_comment hmode]
    rfl
  rw [ReadsReplaced, hnext] at ih
  rw [ReadsReplaced, htext, hbare, labelFrom_single hstep', Context.after_single hstep', ih.1, ih.2,
    labelFrom_single hstep, replaceLost_cons_of_not_comment hmode, Context.after_single hstep]
  exact ⟨rfl, rfl⟩

/-- Of a comment only the line breaks stay, and become code. -/
theorem single_leaves (hfiller : filler.all isPlain) (hstep : context.step c rest.head? = (next, 1))
    (ih : ReadsReplaced filler next rest) (hmode : (context.readMode next).isComment)
    (hbare : context.bare = .code) (hnext : next.bare = .code) :
    ReadsReplaced filler context (c :: rest) := by
  rw [ReadsReplaced, hnext] at ih
  rw [ReadsReplaced, hbare, Context.after_single hstep]
  by_cases hc : c = '\n'
  · subst hc
    have hplain := step_of_isPlain (c := '\n') rfl (replacedText filler next rest).head?
    have htext : replacedText filler context ('\n' :: rest) = '\n' :: replacedText filler next rest := by
      rw [replacedText, labelFrom_single hstep, replaceLost_cons_break hmode]
      rfl
    rw [htext, labelFrom_single hplain, Context.after_single hplain, ih.1, ih.2,
      labelFrom_single hstep, replaceLost_cons_break hmode]
    exact ⟨rfl, rfl⟩
  · have htext : replacedText filler context (c :: rest) = filler ++ replacedText filler next rest := by
      rw [replacedText, labelFrom_single hstep, replaceLost_cons_of_comment hmode hc, List.map_append,
        map_char_filler]
      rfl
    have hplain := labelFrom_plain hfiller (replacedText filler next rest)
    rw [htext, hplain.1, hplain.2, ih.1, ih.2, labelFrom_single hstep,
      replaceLost_cons_of_comment hmode hc]
    exact ⟨rfl, rfl⟩

/-- An escape stays whole. -/
theorem pair_stays (hstep : context.step c (some d) = (next, 2)) (ih : ReadsReplaced filler next rest)
    (hmode : (context.readMode next).isComment = false) (hbare : context.bare = context)
    (hnext : next.bare = next) : ReadsReplaced filler context (c :: d :: rest) := by
  have htext : replacedText filler context (c :: d :: rest) =
      c :: d :: replacedText filler next rest := by
    rw [replacedText, labelFrom_pair hstep, replaceLost_cons_of_not_comment hmode,
      replaceLost_cons_of_not_comment hmode]
    rfl
  rw [ReadsReplaced, hnext] at ih
  rw [ReadsReplaced, htext, hbare, labelFrom_pair hstep, Context.after_pair hstep, ih.1, ih.2,
    labelFrom_pair hstep, replaceLost_cons_of_not_comment hmode,
    replaceLost_cons_of_not_comment hmode, Context.after_pair hstep]
  exact ⟨rfl, rfl⟩

/-- The delimiter of a comment is replaced whole. -/
theorem pair_leaves (hfiller : filler.all isPlain) (hstep : context.step c (some d) = (next, 2))
    (ih : ReadsReplaced filler next rest) (hmode : (context.readMode next).isComment)
    (hbare : context.bare = .code) (hnext : next.bare = .code) (hc : c ≠ '\n') (hd : d ≠ '\n') :
    ReadsReplaced filler context (c :: d :: rest) := by
  have htext : replacedText filler context (c :: d :: rest) =
      filler ++ (filler ++ replacedText filler next rest) := by
    rw [replacedText, labelFrom_pair hstep, replaceLost_cons_of_comment hmode hc,
      replaceLost_cons_of_comment hmode hd, List.map_append, List.map_append, map_char_filler]
    rfl
  have hfirst := labelFrom_plain hfiller (filler ++ replacedText filler next rest)
  have hsecond := labelFrom_plain hfiller (replacedText filler next rest)
  rw [ReadsReplaced, hnext] at ih
  rw [ReadsReplaced, htext, hbare, hfirst.1, hfirst.2, hsecond.1, hsecond.2, ih.1, ih.2,
    labelFrom_pair hstep, replaceLost_cons_of_comment hmode hc, replaceLost_cons_of_comment hmode hd,
    Context.after_pair hstep]
  exact ⟨rfl, rfl⟩

/-- The first half of an escape at the end of a text stays. -/
theorem cut (hstep : context.step c none = (next, 2)) : ReadsReplaced filler context [c] := by
  have hescape : (context.readMode next).isComment = false ∧ context.bare = context ∧
      next.bare = next := by
    cases context <;> simp only [Context.step] at hstep <;>
      grind [Context.bare, Context.readMode, Context.mode, Mode.isComment]
  obtain ⟨hmode, hbare, hnext⟩ := hescape
  have hcells : replaceLost filler (labelFrom context [c]) = labelFrom context [c] := by
    rw [labelFrom_cut hstep, replaceLost_cons_of_not_comment hmode]
    rfl
  have htext : replacedText filler context [c] = [c] := by
    rw [replacedText, hcells, map_char_labelFrom]
  rw [ReadsReplaced, htext, hbare, hcells, Context.after_cut hstep, hnext]
  exact ⟨rfl, rfl⟩

end ReadsReplaced

/-- The scan of a text whose comments are replaced by plain characters is that of the text, with these
characters as code in the place of the comments, whose line breaks become code. -/
theorem readsReplaced (hfiller : filler.all isPlain) (context : Context) (t : Text) :
    ReadsReplaced filler context t := by
  induction context, t using Context.scan_induction with
  | nil context => exact ⟨rfl, rfl⟩
  | single context c rest next hstep ih =>
    cases context with
    | code =>
      obtain ⟨hmode, hnext⟩ := Context.not_comment_of_single hstep
      exact .single_stays hstep ih hmode rfl hnext (Context.step_code_replacedText hstep)
    | quoted quote =>
      refine .single_stays hstep ih rfl rfl ?_ hstep
      simp only [Context.step] at hstep
      grind [Context.bare]
    | template =>
      refine .single_stays hstep ih rfl rfl ?_ hstep
      simp only [Context.step] at hstep
      grind [Context.bare]
    | lineComment | blockComment =>
      refine .single_leaves hfiller hstep ih rfl rfl ?_
      simp only [Context.step] at hstep
      grind [Context.bare]
  | pair context c d tail next hstep ih =>
    cases context with
    | code =>
      have hopens : c = '/' ∧ (d = '/' ∧ next = .lineComment ∨ d = '*' ∧ next = .blockComment) := by
        simp only [Context.step] at hstep
        grind
      obtain ⟨rfl, ⟨rfl, rfl⟩ | ⟨rfl, rfl⟩⟩ := hopens
      · exact .pair_leaves hfiller hstep ih rfl rfl rfl (by decide) (by decide)
      · exact .pair_leaves hfiller hstep ih rfl rfl rfl (by decide) (by decide)
    | quoted quote | template =>
      refine .pair_stays hstep ih rfl rfl ?_
      simp only [Context.step] at hstep
      grind [Context.bare]
    | lineComment =>
      simp only [Context.step] at hstep
      grind
    | blockComment =>
      have hcloses : c = '*' ∧ d = '/' ∧ next = .code := by
        simp only [Context.step] at hstep
        grind
      obtain ⟨rfl, rfl, rfl⟩ := hcloses
      exact .pair_leaves hfiller hstep ih rfl rfl rfl (by decide) (by decide)
  | cut context c next hstep => exact .cut hstep

end Replacing

/-- The scan of a text without its comments is that of the text, without the cells of the comments
but with their line breaks as code, and ends in the same context, a comment apart. -/
theorem readsBare (context : Context) (t : Text) :
    labelFrom context.bare (bareText context t) = bareCells (labelFrom context t) ∧
      context.bare.after (bareText context t) = (context.after t).bare := by
  have hreads : ReadsReplaced [] context t := readsReplaced rfl context t
  rwa [ReadsReplaced, replacedText, replaceLost_nil] at hreads

/-- Comments are taken out of two texts one by one, unless a slash of the first meets the second. -/
theorem bareText_append {a b : Text} (hcode : Context.code.after a = .code)
    (hcut : ¬ SlashMeets (labelFrom .code a) b) :
    bareText .code (a ++ b) = bareText .code a ++ bareText .code b := by
  rw [bareText, (labelFrom_append hcode hcut).1, bareCells_append, List.map_append]
  rfl

/-- Plain characters stay. -/
theorem bareText_of_plain {a : Text} (h : a.all isPlain) : bareText .code a = a := by
  have hcells := (labelFrom_plain h []).1
  rw [List.append_nil, labelFrom_nil, List.append_nil] at hcells
  have hstay : bareCells (labelFrom .code a) = labelFrom .code a := by
    rw [hcells]
    clear h hcells
    induction a with
    | nil => rfl
    | cons c rest ih => rw [List.map_cons, bareCells_cons_of_not_comment rfl, ih]
  rw [bareText, hstay, map_char_labelFrom]

/-- A step that closes a comment reads a line break, or a slash as its second character. -/
theorem Context.closes_of_step {context : Context} {c : Char} {d : Option Char} {width : Nat}
    (h : context.step c d = (.code, width)) (hcomment : (context.readMode .code).isComment) :
    width = 1 ∧ c = '\n' ∨ width = 2 ∧ d = some '/' := by
  cases context with
  | code | quoted _ | template => cases hcomment
  | lineComment =>
    simp only [step] at h
    grind
  | blockComment =>
    simp only [step] at h
    grind

/-- A comment that ends where a text ends closes with a line break or a slash. -/
theorem closes_of_comment_last {context : Context} {t : Text} {cell : Cell}
    (hcode : context.after t = .code) (hlast : (labelFrom context t).getLast? = some cell)
    (hcomment : cell.mode.isComment) : cell.char = '\n' ∨ cell.char = '/' := by
  have hlater {context : Context} {c : Char} {rest : Text} {first : Cell}
      (h : (first :: labelFrom context (c :: rest)).getLast? = some cell) :
      (labelFrom context (c :: rest)).getLast? = some cell := by
    cases hcells : labelFrom context (c :: rest) with
    | nil => simpa [hcells] using length_labelFrom context (c :: rest)
    | cons next cells => simpa [hcells] using h
  induction context, t using Context.scan_induction with
  | nil context => simp at hlast
  | single context c rest next hstep ih =>
    rw [Context.after_single hstep] at hcode
    rw [labelFrom_single hstep] at hlast
    cases rest with
    | nil =>
      obtain rfl : next = .code := by simpa using hcode
      obtain rfl : (⟨c, context.readMode .code⟩ : Cell) = cell := by simpa using hlast
      have hcloses := Context.closes_of_step hstep hcomment
      grind
    | cons d tail => exact ih hcode (hlater hlast)
  | pair context c d tail next hstep ih =>
    rw [Context.after_pair hstep] at hcode
    rw [labelFrom_pair hstep] at hlast
    cases tail with
    | nil =>
      obtain rfl : next = .code := by simpa using hcode
      obtain rfl : (⟨d, context.readMode .code⟩ : Cell) = cell := by simpa using hlast
      have hcloses := Context.closes_of_step hstep hcomment
      grind
    | cons e rest =>
      rw [List.getLast?_cons_cons] at hlast
      exact ih hcode (hlater hlast)
  | cut context c next hstep =>
    rw [Context.after_cut hstep] at hcode
    subst hcode
    rw [labelFrom_cut hstep] at hlast
    obtain rfl : (⟨c, context.readMode .code⟩ : Cell) = cell := by simpa using hlast
    have hcloses := Context.closes_of_step hstep hcomment
    grind

/-- The last character of a text stays if its cell does. -/
theorem getLast?_bareText {context : Context} {t : Text} {cell : Cell}
    (hlast : (labelFrom context t).getLast? = some cell) (hstays : cell.survives) :
    (bareText context t).getLast? = some cell.char := by
  obtain ⟨init, hcells⟩ := List.getLast?_eq_some_iff.mp hlast
  have hcell : bareCells [cell] = [cell.bared] := by simp [bareCells, hstays]
  rw [bareText, hcells, bareCells_append, hcell, List.map_append, List.map_singleton, List.getLast?_concat,
    cell.char_bared]

/-- Without comments a text that ends in code still does. -/
theorem after_bareText {t : Text} (h : Context.code.after t = .code) :
    Context.code.after (bareText .code t) = .code := by
  have hafter := (readsBare .code t).2
  rwa [h] at hafter

end SetupScript
