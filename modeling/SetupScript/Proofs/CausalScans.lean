import SetupScript.Proofs.SettledText

/-!
# Causal scans

What a scan makes of a text hardly depends on what follows the text. A step looks at one character
beyond those that it reads, so at most the last cell can change, and only in one way: a slash in code
becomes the start of a comment. Every other lookahead tells how long a step is, not what it reads.

Where the text ends in code and no such slash stands at its end, the scan of what follows starts
afresh, and its depths go on from the depth at which the text ends.
-/

namespace SetupScript

/-- What follows a character changes its mode only where it makes a slash in code open a comment. -/
theorem Context.readMode_step_iff (context : Context) (c : Char) (d : Option Char) :
    context.readMode (context.step c d).1 = context.readMode (context.step c none).1 ↔
      ¬ (c = '/' ∧ context = .code ∧ (d = some '/' ∨ d = some '*')) := by
  cases context with
  | code =>
    by_cases hslash : c = '/'
    · subst hslash
      by_cases hline : d = some '/'
      · simp [readMode, step, mode, hline]
      · by_cases hblock : d = some '*'
        · simp [readMode, step, mode, hblock]
        · simp [readMode, step, mode, hline, hblock]
    · simp [readMode, step, hslash]
  | quoted quote => simp [readMode]
  | template => simp [readMode]
  | lineComment => simp [readMode]
  | blockComment => simp [readMode]

/-- The first cell of a text shows the first step. -/
theorem labelFrom_first (context : Context) (c : Char) (rest : Text) :
    (labelFrom context (c :: rest))[0]? =
      some ⟨c, context.readMode (context.step c rest.head?).1⟩ := by
  rcases hstep : context.step c rest.head? with ⟨next, width⟩
  have hwidth := context.step_width c rest.head?
  rw [hstep] at hwidth
  rcases hwidth with rfl | rfl
  · rw [labelFrom_single hstep]
    rfl
  · cases rest with
    | nil => rw [labelFrom_cut hstep]; rfl
    | cons d tail => rw [labelFrom_pair hstep]; rfl

/-- Whether a slash meets what follows is seen without the cells before the last. -/
theorem slashMeets_append (front : List Cell) (context : Context) {t : Text} (hne : t ≠ []) (b : Text) :
    SlashMeets (front ++ labelFrom context t) b ↔ SlashMeets (labelFrom context t) b := by
  have hcells : labelFrom context t ≠ [] := by
    rwa [← List.length_pos_iff, length_labelFrom, List.length_pos_iff]
  rw [SlashMeets, SlashMeets, List.getLast?_append, List.getLast?_eq_some_getLast hcells]
  rfl

/-- A single character keeps its mode whatever follows it, unless it is a slash that opens a comment
with it. -/
theorem labelFrom_last_iff (context : Context) (c : Char) (b : Text) :
    (labelFrom context (c :: b))[0]?.map Cell.mode = (labelFrom context [c])[0]?.map Cell.mode ↔
      ¬ SlashMeets (labelFrom context [c]) b := by
  have hlast : (labelFrom context [c]).getLast? =
      some ⟨c, context.readMode (context.step c none).1⟩ := by
    have hlength : (labelFrom context [c]).length = 1 := length_labelFrom context [c]
    rw [List.getLast?_eq_getElem?, hlength]
    exact labelFrom_first context c []
  have hmeets : SlashMeets (labelFrom context [c]) b ↔
      c = '/' ∧ context = .code ∧ (b.head? = some '/' ∨ b.head? = some '*') := by
    rw [SlashMeets, hlast, Option.some.injEq, Cell.mk.injEq, and_assoc]
    refine and_congr_right ?_
    rintro rfl
    refine and_congr_left fun _ => ⟨fun hmode => (Context.readMode_eq_code hmode).1, ?_⟩
    rintro rfl
    rfl
  rw [labelFrom_first, labelFrom_first, Option.map_some, Option.map_some, Option.some.injEq, hmeets]
  exact context.readMode_step_iff c b.head?

/-- A character keeps its mode whatever follows the text, unless it is a slash in code at the very end
that opens a comment with what follows. -/
theorem labelFrom_front_iff (context : Context) (a b : Text) {i : Nat} (hi : i < a.length) :
    (labelFrom context (a ++ b))[i]?.map Cell.mode = (labelFrom context a)[i]?.map Cell.mode ↔
      ¬ (i + 1 = a.length ∧ SlashMeets (labelFrom context a) b) := by
  induction context, a using Context.scan_induction generalizing i with
  | nil context => simp at hi
  | single context c rest next hstep ih =>
    cases rest with
    | nil =>
      obtain rfl : i = 0 := by simpa using hi
      simpa using labelFrom_last_iff context c b
    | cons d tail =>
      have hstep' : context.step c (d :: tail ++ b).head? = (next, 1) := hstep
      have hmeets := slashMeets_append [⟨c, context.readMode next⟩] next (List.cons_ne_nil d tail) b
      rw [List.singleton_append] at hmeets
      rw [List.cons_append, labelFrom_single hstep', labelFrom_single hstep, hmeets]
      cases i with
      | zero => simp
      | succ i => simpa using ih (i := i) (by simpa using hi)
  | pair context c d tail next hstep ih =>
    rw [List.cons_append, List.cons_append, labelFrom_pair hstep, labelFrom_pair hstep]
    cases i with
    | zero => simp
    | succ i =>
      cases i with
      | zero =>
        -- both characters are read together, so what follows them is not looked at
        cases tail with
        | nil => simp [SlashMeets, Context.readMode_of_pair hstep]
        | cons e more => simp
      | succ i =>
        have hi : i < tail.length := by simpa using hi
        have hmeets := slashMeets_append [⟨c, context.readMode next⟩, ⟨d, context.readMode next⟩] next
          (List.ne_nil_of_length_pos (Nat.zero_lt_of_lt hi)) b
        simp only [List.cons_append, List.nil_append] at hmeets
        simpa [hmeets] using ih hi
  | cut context c next hstep =>
    obtain rfl : i = 0 := by simpa using hi
    simpa using labelFrom_last_iff context c b

namespace Scan

variable {a b : Text}

/-- After a text that ends in code the modes of what follows are those it has on its own. -/
theorem modes_append (hcode : Context.code.after a = .code) (hcut : ¬ SlashMeets (ofText a).cells b) :
    (ofText (a ++ b)).modes = (ofText a).modes ++ (ofText b).modes := by
  simp only [modes, ofText, (labelFrom_append hcode hcut).1, List.map_append]

/-- The depth before every offset, the end included, is what the cells before it add. -/
theorem depths_getElem? {t : Text} {k : Nat} (hk : k ≤ t.length) :
    (ofText t).depths[k]? = some (braceTotal ((ofText t).cells.take k)) := by
  rw [ofText, depthsFrom_getElem? 0 (by rwa [length_labelFrom]), Int.zero_add]

/-- After a text that ends in code the depths go on from the one at its end. -/
theorem depths_append (hcode : Context.code.after a = .code) (hcut : ¬ SlashMeets (ofText a).cells b)
    {k : Nat} (hk : k ≤ b.length) :
    ∃ base depth, (ofText a).depths[a.length]? = some base ∧ (ofText b).depths[k]? = some depth ∧
      (ofText (a ++ b)).depths[a.length + k]? = some (base + depth) := by
  refine ⟨_, _, depths_getElem? (Nat.le_refl _), depths_getElem? hk, ?_⟩
  have hlength : (ofText a).cells.length = a.length := length_labelFrom .code a
  have hcells : (ofText (a ++ b)).cells = (ofText a).cells ++ (ofText b).cells :=
    (labelFrom_append hcode hcut).1
  rw [depths_getElem? (by rw [List.length_append]; omega), hcells, ← hlength,
    List.take_length_add_append, braceTotal_append, List.take_length]

/-- What follows a text leaves the mode of each of its characters as it is, unless the character is a
slash in code at the very end that opens a comment with what follows. If the text ends in code and
there is no such slash, then what follows is scanned as it is on its own, its depths counted from the
depth at the end of the text. -/
theorem front_kept_and_back_afresh (a b : Text) :
    (∀ i < a.length, (ofText (a ++ b)).modes[i]? = (ofText a).modes[i]? ↔
      ¬ (i + 1 = a.length ∧ SlashMeets (ofText a).cells b)) ∧
    (Context.code.after a = .code → ¬ SlashMeets (ofText a).cells b →
      (ofText (a ++ b)).modes = (ofText a).modes ++ (ofText b).modes ∧
      ∀ k ≤ b.length, ∃ base depth, (ofText a).depths[a.length]? = some base ∧
        (ofText b).depths[k]? = some depth ∧
        (ofText (a ++ b)).depths[a.length + k]? = some (base + depth)) := by
  constructor
  · intro i hi
    rw [modes, modes, List.getElem?_map, List.getElem?_map]
    exact labelFrom_front_iff .code a b hi
  · intro hcode hcut
    exact ⟨modes_append hcode hcut, fun k hk => depths_append hcode hcut hk⟩

end Scan

end SetupScript
