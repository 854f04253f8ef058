import Mathlib.Data.List.Basic
import SetupScript.Lexical.Region

/-!
# Scans of composed texts

A scan reads one or two characters at a time and looks one character ahead, so the scan of a text
cut in two is not always that of its parts. It is wherever the first part ends in code, with one
exception: a slash at its end may open a comment together with what follows.

The context in which a text ends is defined here, beside the cells that the scan gives. A text that
ends in code may be followed by anything that does not meet a final slash of it.
-/

namespace SetupScript

namespace Context

/-- The context in which a text ends that is read from a given context on. -/
def after (context : Context) : Text → Context
  | [] => context
  | c :: rest =>
    let (next, width) := context.step c rest.head?
    match rest with
    | d :: tail => if width = 2 then next.after tail else next.after (d :: tail)
    | [] => next

/-- The mode of the characters read by a step from one context to the next. -/
def readMode (context next : Context) : Mode :=
  if context = .code then next.mode else context.mode

/-- A step reads one character or two. -/
theorem step_width (context : Context) (c : Char) (d : Option Char) :
    (context.step c d).2 = 1 ∨ (context.step c d).2 = 2 := by
  cases context <;> simp only [step] <;> grind

/-- Induction along the steps of a scan: one character, two characters, or a first half of two at
the end of the text. -/
@[elab_as_elim]
theorem scan_induction {motive : Context → Text → Prop} (nil : ∀ context, motive context [])
    (single : ∀ context c rest next, context.step c rest.head? = (next, 1) → motive next rest →
      motive context (c :: rest))
    (pair : ∀ context c d tail next, context.step c (some d) = (next, 2) → motive next tail →
      motive context (c :: d :: tail))
    (cut : ∀ context c next, context.step c none = (next, 2) → motive context [c])
    (context : Context) (t : Text) : motive context t := by
  induction context, t using labelFrom.induct with
  | case1 context => exact nil context
  | case2 context c next d tail hstep ih => exact pair context c d tail next hstep ih
  | case3 context c next width d tail hwidth hstep ih =>
    have hone := context.step_width c (d :: tail).head?
    rw [hstep] at hone
    obtain rfl : width = 1 := by simpa [hwidth] using hone
    exact single context c _ next hstep ih
  | case4 context c next width hstep =>
    have hwidth := context.step_width c none
    rw [show context.step c none = (next, width) from hstep] at hwidth
    rcases hwidth with rfl | rfl
    · exact single context c [] next hstep (nil next)
    · exact cut context c next hstep

variable {context next : Context} {c d : Char} {rest : Text}

/-- A step of one character goes on with all that follows it. -/
theorem after_single (h : context.step c rest.head? = (next, 1)) :
    context.after (c :: rest) = next.after rest := by
  cases rest with
  | nil => unfold after; rw [h]
  | cons d tail => rw [after, h]; rfl

/-- A step of two characters goes on after both. -/
theorem after_pair (h : context.step c (some d) = (next, 2)) :
    context.after (c :: d :: rest) = next.after rest := by
  rw [after, List.head?_cons, h]
  rfl

/-- A step that reaches past the end still decides the context there. -/
theorem after_cut (h : context.step c none = (next, 2)) : context.after [c] = next := by
  rw [after, List.head?_nil, h]

/-- Characters are read as code only from code to code. -/
theorem readMode_eq_code (h : context.readMode next = .code) : context = .code ∧ next = .code := by
  cases context <;> cases next <;> simp [readMode, mode] at h ⊢

/-- A step of two characters opens or closes a comment or is an escape, so it reads no code. -/
theorem readMode_of_pair {d : Option Char} (h : context.step c d = (next, 2)) :
    context.readMode next ≠ .code := by
  intro hmode
  obtain ⟨rfl, rfl⟩ := readMode_eq_code hmode
  simp only [step] at h
  grind

/-- A character after which the scan is in code is read alike whatever follows it, unless it is a
slash that opens a comment with what follows. -/
theorem step_of_last {d : Option Char} (hcode : (context.step c none).1 = .code)
    (hcut : context = .code → c = '/' → d ≠ some '/' ∧ d ≠ some '*') :
    context.step c d = (.code, 1) := by
  cases context with
  | lineComment => simp only [step] at hcode ⊢; grind
  | blockComment => simp [step] at hcode
  | quoted quote => simp only [step] at hcode ⊢; grind
  | template => simp only [step] at hcode ⊢; grind
  | code =>
    simp only [step] at hcode ⊢
    grind

/-- A single character that leads into code does so at the end of a text too. -/
theorem step_none_of_single {d : Option Char} (h : context.step c d = (.code, 1)) :
    context.step c none = (.code, 1) := by
  cases context with
  | lineComment => exact h
  | blockComment => simp only [step] at h; grind
  | quoted quote => exact h
  | template => exact h
  | code => simp only [step] at h ⊢; grind

end Context

/-! ## Cells -/

section Cells

variable {context next : Context} {c d : Char} {rest : Text}

/-- The cell of a character that is read by a step of its own. -/
theorem labelFrom_single (h : context.step c rest.head? = (next, 1)) :
    labelFrom context (c :: rest) = ⟨c, context.readMode next⟩ :: labelFrom next rest := by
  cases rest with
  | nil => unfold labelFrom; rw [h]; rfl
  | cons d tail => rw [labelFrom, h]; rfl

/-- The cells of two characters that are read together. -/
theorem labelFrom_pair (h : context.step c (some d) = (next, 2)) :
    labelFrom context (c :: d :: rest) =
      ⟨c, context.readMode next⟩ :: ⟨d, context.readMode next⟩ :: labelFrom next rest := by
  rw [labelFrom, List.head?_cons, h]
  rfl

/-- The cell of a last character whose step reaches past the end. -/
theorem labelFrom_cut (h : context.step c none = (next, 2)) :
    labelFrom context [c] = [⟨c, context.readMode next⟩] := by
  rw [labelFrom, List.head?_nil, h]
  rfl

/-- The empty text has no cells. -/
@[simp] theorem labelFrom_nil : labelFrom context [] = [] := by rw [labelFrom]

/-- The empty text ends where it begins. -/
@[simp] theorem Context.after_nil : context.after [] = context := by rw [Context.after]

end Cells

/-- A scan keeps the characters of its text. -/
@[simp] theorem map_char_labelFrom (context : Context) (t : Text) :
    (labelFrom context t).map Cell.char = t := by
  induction context, t using Context.scan_induction with
  | nil context => simp
  | single context c rest next hstep ih => simp [labelFrom_single hstep, ih]
  | pair context c d tail next hstep ih => simp [labelFrom_pair hstep, ih]
  | cut context c next hstep => simp [labelFrom_cut hstep]

/-- There is one cell for each character. -/
@[simp] theorem length_labelFrom (context : Context) (t : Text) :
    (labelFrom context t).length = t.length := by
  rw [← List.length_map Cell.char, map_char_labelFrom]

/-! ## Cutting a text -/

/-- The cells end in a slash that opens a comment together with the text after them. -/
def SlashMeets (cells : List Cell) (t : Text) : Prop :=
  cells.getLast? = some ⟨'/', .code⟩ ∧ (t.head? = some '/' ∨ t.head? = some '*')

instance (cells : List Cell) (t : Text) : Decidable (SlashMeets cells t) :=
  inferInstanceAs (Decidable (_ ∧ _))

/-- No slash meets what follows a text without cells. -/
theorem not_slashMeets_nil (t : Text) : ¬ SlashMeets [] t := by simp [SlashMeets]

/-- A slash that meets what follows is the last cell, whatever stands before. -/
theorem SlashMeets.append_left {cells : List Cell} {t : Text} (h : SlashMeets cells t)
    (before : List Cell) : SlashMeets (before ++ cells) t := by
  refine ⟨?_, h.2⟩
  rw [List.getLast?_append, h.1]
  rfl

/-- A slash that meets what follows stands among the later cells, or it is the only cell. -/
theorem SlashMeets.of_cons {cell : Cell} {cells : List Cell} {t : Text}
    (h : SlashMeets (cell :: cells) t) : SlashMeets cells t ∨ cells = [] ∧ cell = ⟨'/', .code⟩ := by
  cases cells with
  | nil => exact .inr ⟨rfl, by simpa using h.1⟩
  | cons next rest => exact .inl ⟨by simpa using h.1, h.2⟩

/-- Only a slash at the end of a text meets what follows. -/
theorem not_slashMeets_of_last {context : Context} {s : Text} (h : s.getLast? ≠ some '/') (t : Text) :
    ¬ SlashMeets (labelFrom context s) t := by
  rintro ⟨hlast, -⟩
  apply h
  rw [← map_char_labelFrom context s, List.getLast?_map, hlast]
  rfl

/-- A text that ends in code is followed by a scan that starts afresh. -/
theorem labelFrom_append {context : Context} {a b : Text} (hcode : context.after a = .code)
    (hcut : ¬ SlashMeets (labelFrom context a) b) :
    labelFrom context (a ++ b) = labelFrom context a ++ labelFrom .code b ∧
      context.after (a ++ b) = Context.code.after b := by
  induction context, a using Context.scan_induction with
  | nil context =>
    obtain rfl : context = .code := by simpa using hcode
    simp
  | single context c rest next hstep ih =>
    rw [Context.after_single hstep] at hcode
    rw [labelFrom_single hstep] at hcut
    have hstep' : context.step c (rest ++ b).head? = (next, 1) := by
      cases rest with
      | cons d tail => exact hstep
      | nil =>
        -- the lookahead of the last character changes here from the end to the head of `b`
        obtain rfl : next = .code := by simpa using hcode
        refine Context.step_of_last (by rw [show context.step c none = _ from hstep]) ?_
        rintro rfl rfl
        simpa [SlashMeets, Context.readMode, Context.mode] using hcut
    obtain ⟨hcells, hafter⟩ := ih hcode fun h => hcut (h.append_left [_])
    rw [List.cons_append, labelFrom_single hstep', Context.after_single hstep',
      labelFrom_single hstep, hcells, hafter]
    exact ⟨rfl, rfl⟩
  | pair context c d tail next hstep ih =>
    rw [Context.after_pair hstep] at hcode
    rw [labelFrom_pair hstep] at hcut
    obtain ⟨hcells, hafter⟩ := ih hcode fun h => hcut (h.append_left [_, _])
    rw [List.cons_append, List.cons_append, labelFrom_pair hstep, Context.after_pair hstep,
      labelFrom_pair hstep, hcells, hafter]
    exact ⟨rfl, rfl⟩
  | cut context c next hstep =>
    rw [Context.after_cut hstep] at hcode
    subst hcode
    cases context <;> simp only [Context.step] at hstep <;> grind

/-- A character that is code stands where the text before it ends in code. -/
theorem after_take_of_code {context : Context} {t : Text} {k : Nat} {c : Char}
    (h : (labelFrom context t)[k]? = some ⟨c, .code⟩) :
    context.after (t.take k) = .code ∧
      ¬ SlashMeets (labelFrom context (t.take k)) (t.drop k) := by
  induction context, t using Context.scan_induction generalizing k with
  | nil context => simp at h
  | single context c rest next hstep ih =>
    rw [labelFrom_single hstep] at h
    cases k with
    | zero =>
      simp only [List.getElem?_cons_zero, Option.some.injEq, Cell.mk.injEq] at h
      simpa [not_slashMeets_nil] using (Context.readMode_eq_code h.2).1
    | succ k =>
      simp only [List.getElem?_cons_succ] at h
      obtain ⟨hcode, hcut⟩ := ih h
      have hstep' : context.step c (rest.take k).head? = (next, 1) := by
        cases k with
        | succ k => cases rest <;> simpa using hstep
        | zero =>
          obtain rfl : next = .code := by simpa using hcode
          exact Context.step_none_of_single hstep
      rw [List.take_succ_cons, List.drop_succ_cons, Context.after_single hstep',
        labelFrom_single hstep']
      refine ⟨hcode, fun hmeets => ?_⟩
      rcases hmeets.of_cons with hlater | ⟨hempty, hslash⟩
      · exact hcut hlater
      · -- the slash would have been read together with the character after it
        obtain ⟨rfl, hmode⟩ : c = '/' ∧ context.readMode next = .code := by simpa using hslash
        obtain ⟨rfl, rfl⟩ := Context.readMode_eq_code hmode
        have hnone : rest.take k = [] := by
          rw [← map_char_labelFrom .code (rest.take k), hempty, List.map_nil]
        have hwhole : rest.drop k = rest := by
          conv_rhs => rw [← List.take_append_drop k rest, hnone, List.nil_append]
        have hhead := hmeets.2
        rw [hwhole] at hhead
        rcases hhead with hhead | hhead
        · simp [Context.step, hhead] at hstep
        · simp [Context.step, hhead] at hstep
  | pair context c d tail next hstep ih =>
    rw [labelFrom_pair hstep] at h
    match k with
    | 0 | 1 =>
      simp only [List.getElem?_cons_zero, List.getElem?_cons_succ, Option.some.injEq,
        Cell.mk.injEq] at h
      exact absurd h.2 (Context.readMode_of_pair hstep)
    | k + 2 =>
      simp only [List.getElem?_cons_succ] at h
      obtain ⟨hcode, hcut⟩ := ih h
      rw [List.take_succ_cons, List.take_succ_cons, List.drop_succ_cons, List.drop_succ_cons,
        Context.after_pair hstep, labelFrom_pair hstep]
      refine ⟨hcode, fun hmeets => ?_⟩
      rcases hmeets.of_cons with hmeets | ⟨hempty, -⟩
      · rcases hmeets.of_cons with hlater | ⟨-, hslash⟩
        · exact hcut hlater
        · exact Context.readMode_of_pair hstep (congrArg Cell.mode hslash)
      · cases hempty
  | cut context c next hstep =>
    rw [labelFrom_cut hstep] at h
    cases k with
    | zero =>
      simp only [List.getElem?_cons_zero, Option.some.injEq, Cell.mk.injEq] at h
      exact absurd h.2 (Context.readMode_of_pair hstep)
    | succ k => simp at h

/-- The scan of a text, cut before a character that is code. -/
theorem labelFrom_split {context : Context} {t : Text} {k : Nat} {c : Char}
    (h : (labelFrom context t)[k]? = some ⟨c, .code⟩) :
    labelFrom context t = labelFrom context (t.take k) ++ labelFrom .code (t.drop k) := by
  obtain ⟨hcode, hcut⟩ := after_take_of_code h
  have hcells := (labelFrom_append hcode hcut).1
  rwa [List.take_append_drop] at hcells

/-- An offset in code holds a character that is code. -/
theorem Scan.cell_of_isCode {t : Text} {k : Nat} (h : (ofText t).isCode k) :
    ∃ c, (labelFrom .code t)[k]? = some ⟨c, .code⟩ := by
  obtain ⟨⟨c, mode⟩, hcell, hmode⟩ := (Option.any_eq_true _ _).mp h
  obtain rfl : mode = .code := by simpa [Cell.isCode] using hmode
  exact ⟨c, hcell⟩

/-- From an offset in code on, the cells are those of the rest of the text. -/
theorem Scan.drop_cells {t : Text} {k : Nat} (h : (ofText t).isCode k) :
    (ofText t).cells.drop k = labelFrom .code (t.drop k) := by
  obtain ⟨c, hcell⟩ := cell_of_isCode h
  obtain ⟨hlt, -⟩ := List.getElem?_eq_some_iff.mp hcell
  have hlength : (labelFrom .code (t.take k)).length = k := by
    rw [length_labelFrom] at hlt ⊢
    rw [List.length_take_of_le (Nat.le_of_lt hlt)]
  rw [ofText, labelFrom_split hcell, List.drop_left' hlength]

/-- From an offset in code on, the code is that of the rest of the text. -/
theorem Scan.isCode_drop {t : Text} {k : Nat} (h : (ofText t).isCode k) (i : Nat) :
    (ofText t).isCode (k + i) = (ofText (t.drop k)).isCode i := by
  rw [isCode, ← List.getElem?_drop, drop_cells h]
  rfl

/-- After a text that ends in code, what follows it is scanned afresh. -/
theorem Scan.isCode_append_right {a b : Text} (hcode : Context.code.after a = .code)
    (hcut : ¬ SlashMeets (labelFrom .code a) b) (i : Nat) :
    (ofText (a ++ b)).isCode (a.length + i) = (ofText b).isCode i := by
  simp only [isCode, ofText, (labelFrom_append hcode hcut).1]
  rw [List.getElem?_append_right (by simp), length_labelFrom, Nat.add_sub_cancel_left]

/-- A text that ends in code is scanned alike whatever follows it. -/
theorem Scan.isCode_append_left {a b : Text} (hcode : Context.code.after a = .code)
    (hcut : ¬ SlashMeets (labelFrom .code a) b) {i : Nat} (hi : i < a.length) :
    (ofText (a ++ b)).isCode i = (ofText a).isCode i := by
  simp only [isCode, ofText, (labelFrom_append hcode hcut).1]
  rw [List.getElem?_append_left (by simpa using hi)]

/-- A scan has the text that was scanned. -/
@[simp] theorem Scan.text_ofText (t : Text) : (ofText t).text = t := map_char_labelFrom .code t

/-- A first character that is code is read on its own, and what follows it is read from code. -/
theorem labelFrom_code_cons {c : Char} {rest : Text}
    (h : (labelFrom .code (c :: rest))[0]? = some ⟨c, .code⟩) :
    Context.step .code c rest.head? = (.code, 1) := by
  have hwidth := Context.step_width .code c rest.head?
  rcases hstep : Context.step .code c rest.head? with ⟨next, width⟩
  rw [hstep] at hwidth
  rcases hwidth with rfl | rfl
  · rw [labelFrom_single hstep] at h
    simp only [List.getElem?_cons_zero, Option.some.injEq, Cell.mk.injEq, true_and] at h
    rw [(Context.readMode_eq_code h).2]
  · cases rest with
    | nil =>
      rw [labelFrom_cut hstep] at h
      simp only [List.getElem?_cons_zero, Option.some.injEq, Cell.mk.injEq, true_and] at h
      exact absurd h (Context.readMode_of_pair hstep)
    | cons d tail =>
      rw [labelFrom_pair hstep] at h
      simp only [List.getElem?_cons_zero, Option.some.injEq, Cell.mk.injEq, true_and] at h
      exact absurd h (Context.readMode_of_pair hstep)

/-- The text up to and with a character that is code ends in code. -/
theorem after_take_succ_of_code {context : Context} {t : Text} {k : Nat} {c : Char}
    (h : (labelFrom context t)[k]? = some ⟨c, .code⟩) :
    context.after (t.take (k + 1)) = .code := by
  obtain ⟨hcode, hcut⟩ := after_take_of_code h
  have hchar : t[k]? = some c := by
    rw [← map_char_labelFrom context t, List.getElem?_map, h]
    rfl
  obtain ⟨hk, hget⟩ := List.getElem?_eq_some_iff.mp hchar
  have hdrop : t.drop k = c :: t.drop (k + 1) := by rw [List.drop_eq_getElem_cons hk, hget]
  have hfirst : (labelFrom .code (t.drop k))[0]? = some ⟨c, .code⟩ := by
    rw [labelFrom_split h, List.getElem?_append_right (by rw [length_labelFrom, List.length_take]; omega),
      length_labelFrom, List.length_take_of_le (Nat.le_of_lt hk), Nat.sub_self] at h
    exact h
  rw [hdrop] at hfirst
  have hstep := Context.step_none_of_single (labelFrom_code_cons hfirst)
  have htake : t.take (k + 1) = t.take k ++ [c] := by rw [List.take_add_one, hchar]; rfl
  have hmeets : ¬ SlashMeets (labelFrom context (t.take k)) [c] := by
    rw [hdrop] at hcut
    exact fun h => hcut h
  have hlast : Context.code.after [c] = Context.code.after [] := Context.after_single hstep
  rw [htake, (labelFrom_append hcode hmeets).2, hlast, Context.after_nil]

/-- What stands between two characters that are code is scanned alike on its own, and ends in code. -/
theorem labelFrom_between {t : Text} {start stop : Nat} {a b : Char} (hordered : start < stop)
    (hstart : (labelFrom .code t)[start]? = some ⟨a, .code⟩)
    (hstop : (labelFrom .code t)[stop]? = some ⟨b, .code⟩) :
    labelFrom .code ((t.drop (start + 1)).take (stop - start - 1)) =
        ((labelFrom .code t).drop (start + 1)).take (stop - start - 1) ∧
      Context.code.after ((t.drop (start + 1)).take (stop - start - 1)) = .code := by
  obtain ⟨hlt, -⟩ := List.getElem?_eq_some_iff.mp hstart
  have hdrop : (labelFrom .code t).drop start = labelFrom .code (t.drop start) :=
    Scan.drop_cells (by simp [Scan.isCode, Scan.ofText, hstart, Cell.isCode])
  have hchar : t.drop start = a :: t.drop (start + 1) := by
    have hget : t[start]? = some a := by
      rw [← map_char_labelFrom .code t, List.getElem?_map, hstart]
      rfl
    obtain ⟨hlt', rfl⟩ := List.getElem?_eq_some_iff.mp hget
    exact List.drop_eq_getElem_cons hlt'
  -- the first of the two is read on its own, so what follows it is read from code
  have hafter : (labelFrom .code t).drop (start + 1) = labelFrom .code (t.drop (start + 1)) := by
    have hfirst : (labelFrom .code (a :: t.drop (start + 1)))[0]? = some ⟨a, .code⟩ := by
      rw [← hchar, ← hdrop, List.getElem?_drop]
      exact hstart
    rw [← List.drop_drop, hdrop, hchar, labelFrom_single (labelFrom_code_cons hfirst)]
    rfl
  have hcell : (labelFrom .code (t.drop (start + 1)))[stop - start - 1]? = some ⟨b, .code⟩ := by
    rw [← hafter, List.getElem?_drop, show start + 1 + (stop - start - 1) = stop by omega]
    exact hstop
  refine ⟨?_, (after_take_of_code hcell).1⟩
  have hlength : (labelFrom .code ((t.drop (start + 1)).take (stop - start - 1))).length =
      stop - start - 1 := by
    have hwithin := (List.getElem?_eq_some_iff.mp hcell).1
    rw [length_labelFrom] at hwithin ⊢
    exact List.length_take_of_le (Nat.le_of_lt hwithin)
  rw [hafter, labelFrom_split hcell, List.take_left' hlength]

/-! ## Stretches of one mode -/

/-- Inside a line comment everything up to the line break belongs to it. -/
theorem labelFrom_lineComment {a : Text} (h : '\n' ∉ a) (b : Text) :
    labelFrom .lineComment (a ++ b) =
        a.map (⟨·, .lineComment⟩) ++ labelFrom .lineComment b ∧
      Context.after .lineComment (a ++ b) = Context.after .lineComment b := by
  induction a with
  | nil => simp
  | cons c rest ih =>
    simp only [List.mem_cons, not_or] at h
    have hstep : Context.step .lineComment c (rest ++ b).head? = (.lineComment, 1) := by
      simp [Context.step, Ne.symm h.1]
    obtain ⟨hcells, hafter⟩ := ih h.2
    rw [List.cons_append, labelFrom_single hstep, Context.after_single hstep, hcells, hafter]
    exact ⟨rfl, rfl⟩

/-- A line break ends a line comment. -/
theorem labelFrom_lineComment_break (b : Text) :
    labelFrom .lineComment ('\n' :: b) = ⟨'\n', .lineComment⟩ :: labelFrom .code b ∧
      Context.after .lineComment ('\n' :: b) = Context.after .code b := by
  have hstep : Context.step .lineComment '\n' b.head? = (.code, 1) := by simp [Context.step]
  rw [labelFrom_single hstep, Context.after_single hstep]
  exact ⟨rfl, rfl⟩

/-- A character that opens neither a literal nor, with what follows it, a comment. -/
def isPlain (c : Char) : Bool := c != '/' && c != '\x60' && c != '\x27' && c != '\x22'

/-- Plain characters are read as code one by one. -/
theorem step_of_isPlain {c : Char} (h : isPlain c) (d : Option Char) :
    Context.step .code c d = (.code, 1) := by
  simp only [isPlain, Bool.and_eq_true, bne_iff_ne] at h
  simp only [Context.step]
  grind

/-- A stretch of plain characters is code. -/
theorem labelFrom_plain {a : Text} (h : a.all isPlain) (b : Text) :
    labelFrom .code (a ++ b) = a.map (⟨·, .code⟩) ++ labelFrom .code b ∧
      Context.after .code (a ++ b) = Context.after .code b := by
  induction a with
  | nil => simp
  | cons c rest ih =>
    simp only [List.all_cons, Bool.and_eq_true] at h
    have hstep := step_of_isPlain h.1 (rest ++ b).head?
    obtain ⟨hcells, hafter⟩ := ih h.2
    rw [List.cons_append, labelFrom_single hstep, Context.after_single hstep, hcells, hafter]
    exact ⟨rfl, rfl⟩

/-- A quoted string without its quote and without escapes ends at the next quote. -/
theorem labelFrom_quoted {quote : Char} {a : Text} (hquote : quote ∉ a) (hescape : '\\' ∉ a)
    (hne : quote ≠ '\\') (b : Text) :
    labelFrom (.quoted quote) (a ++ quote :: b) =
        (a ++ [quote]).map (⟨·, .string⟩) ++ labelFrom .code b ∧
      Context.after (.quoted quote) (a ++ quote :: b) = Context.after .code b := by
  induction a with
  | nil =>
    have hstep : Context.step (.quoted quote) quote b.head? = (.code, 1) := by
      simp [Context.step, hne]
    rw [List.nil_append, labelFrom_single hstep, Context.after_single hstep]
    exact ⟨rfl, rfl⟩
  | cons c rest ih =>
    simp only [List.mem_cons, not_or] at hquote hescape
    have hstep : Context.step (.quoted quote) c (rest ++ quote :: b).head? = (.quoted quote, 1) := by
      simp [Context.step, Ne.symm hquote.1, Ne.symm hescape.1]
    obtain ⟨hcells, hafter⟩ := ih hquote.2 hescape.2
    rw [List.cons_append, labelFrom_single hstep, Context.after_single hstep, hcells, hafter]
    exact ⟨rfl, rfl⟩

end SetupScript
