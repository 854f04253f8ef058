import SetupScript.Proofs.BalancedRegions
import SetupScript.Proofs.CommentRemoval

/-!
# Texts that can be put side by side

A text is steady from one brace depth to another when its scan from code ends in code, the depth is
never negative on the way, and it ends at the second depth. Steady texts compose as long as no slash
at the end of one meets the next; a block is a steady text that never does so at its front.
-/

namespace SetupScript

/-! ## Depths as sums -/

/-- What cells add to the brace depth together. -/
def braceTotal : List Cell → Int
  | [] => 0
  | cell :: cells => cell.braceStep + braceTotal cells

/-- No cells add nothing. -/
@[simp] theorem braceTotal_nil : braceTotal [] = 0 := rfl

/-- Each cell adds its own step. -/
@[simp] theorem braceTotal_cons (cell : Cell) (cells : List Cell) :
    braceTotal (cell :: cells) = cell.braceStep + braceTotal cells := rfl

/-- The steps of two lists of cells add up. -/
@[simp] theorem braceTotal_append (a b : List Cell) :
    braceTotal (a ++ b) = braceTotal a + braceTotal b := by
  induction a with
  | nil => simp
  | cons cell rest ih => rw [List.cons_append, braceTotal_cons, braceTotal_cons, ih, Int.add_assoc]

/-- The brace depth is the surplus of opening braces. -/
theorem braceTotal_eq_surplus (cells : List Cell) : braceTotal cells = surplus ['{'] ['}'] cells := by
  induction cells with
  | nil => rfl
  | cons cell rest ih =>
    have hstep : cell.braceStep = cell.delimiterStep ['{'] ['}'] := by
      simp only [Cell.braceStep, Cell.delimiterStep, Cell.isDelimiter]
      grind
    rw [braceTotal_cons, surplus_cons, ih, hstep]

/-- The depth before an offset is what the cells before it add. -/
theorem depthsFrom_getElem? (depth : Int) {cells : List Cell} {k : Nat} (hk : k ≤ cells.length) :
    (depthsFrom depth cells)[k]? = some (depth + braceTotal (cells.take k)) := by
  induction cells generalizing depth k with
  | nil =>
    obtain rfl : k = 0 := by simpa using hk
    simp [depthsFrom]
  | cons cell rest ih =>
    cases k with
    | zero => simp [depthsFrom]
    | succ k =>
      rw [depthsFrom, List.getElem?_cons_succ, ih _ (by simpa using hk), List.take_succ_cons,
        braceTotal_cons, Int.add_assoc]

/-- The depth at an offset of a text is what the cells before it add. -/
theorem Scan.depthAt_ofText {t : Text} {k : Nat} (hk : k ≤ t.length) :
    (ofText t).depthAt k = braceTotal ((ofText t).cells.take k) := by
  have hcells : k ≤ (labelFrom .code t).length := by rwa [length_labelFrom]
  rw [depthAt, Int.toNat_natCast, ofText, Nat.min_eq_left hcells, List.getD_eq_getElem?_getD,
    depthsFrom_getElem? 0 hcells, Int.zero_add]
  rfl

/-- The depths of a list of cells are those of its front and those of its back from there on. -/
theorem mem_depthsFrom_append {depth d : Int} {a b : List Cell} :
    d ∈ depthsFrom depth (a ++ b) ↔
      d ∈ depthsFrom depth a ∨ d ∈ depthsFrom (depth + braceTotal a) b := by
  induction a generalizing depth with
  | nil =>
    have hfirst : depth ∈ depthsFrom depth b := by cases b <;> simp [depthsFrom]
    simp only [List.nil_append, braceTotal_nil, Int.add_zero, depthsFrom, List.mem_singleton]
    constructor
    · exact .inr
    · rintro (rfl | h)
      · exact hfirst
      · exact h
  | cons cell rest ih =>
    simp only [List.cons_append, depthsFrom, List.mem_cons, ih, braceTotal_cons, Int.add_assoc,
      or_assoc]

/-- Depths shift with the depth they start from. -/
theorem mem_depthsFrom_add {depth d : Int} {cells : List Cell} (shift : Int) :
    d ∈ depthsFrom (depth + shift) cells ↔ d - shift ∈ depthsFrom depth cells := by
  induction cells generalizing depth with
  | nil =>
    simp only [depthsFrom, List.mem_singleton]
    omega
  | cons cell rest ih =>
    have hstep : depth + shift + cell.braceStep = depth + cell.braceStep + shift := by omega
    simp only [depthsFrom, List.mem_cons, hstep, ih]
    refine or_congr ?_ Iff.rfl
    omega

/-- Cells without braces stay at one depth. -/
theorem depthsFrom_of_flat {cells : List Cell} (h : ∀ cell ∈ cells, cell.braceStep = 0) (depth : Int) :
    (∀ d ∈ depthsFrom depth cells, d = depth) ∧ braceTotal cells = 0 := by
  induction cells with
  | nil => simp [depthsFrom]
  | cons cell rest ih =>
    obtain ⟨hcell, hrest⟩ := List.forall_mem_cons.mp h
    rw [depthsFrom, braceTotal_cons, hcell, Int.add_zero, Int.zero_add]
    refine ⟨fun d hd => ?_, (ih hrest).2⟩
    rcases List.mem_cons.mp hd with rfl | hd
    · rfl
    · exact (ih hrest).1 d hd

/-- Taking comments out of cells adds no depth and keeps the last one. -/
theorem depthsFrom_bareCells (depth : Int) (cells : List Cell) :
    (∀ d ∈ depthsFrom depth (bareCells cells), d ∈ depthsFrom depth cells) ∧
      braceTotal (bareCells cells) = braceTotal cells := by
  induction cells generalizing depth with
  | nil => simp [bareCells]
  | cons cell rest ih =>
    cases hmode : cell.mode.isComment with
    | false =>
      rw [bareCells_cons_of_not_comment hmode, braceTotal_cons, braceTotal_cons, (ih depth).2]
      refine ⟨fun d hd => ?_, rfl⟩
      simp only [depthsFrom, List.mem_cons] at hd ⊢
      exact hd.imp_right ((ih _).1 d)
    | true =>
      -- a comment holds no braces, and a line break is none
      have hstep : cell.braceStep = 0 := by
        obtain ⟨c, mode⟩ := cell
        cases mode <;> simp_all [Mode.isComment, Cell.braceStep, Cell.isCode]
      rw [braceTotal_cons, hstep, Int.zero_add, depthsFrom, hstep, Int.add_zero]
      obtain ⟨c, mode⟩ := cell
      by_cases hc : c = '\n'
      · subst hc
        rw [bareCells_cons_break hmode, braceTotal_cons, (ih depth).2]
        have hbreak : Cell.braceStep ⟨'\n', .code⟩ = 0 := rfl
        rw [hbreak, Int.zero_add, depthsFrom, hbreak, Int.add_zero]
        refine ⟨fun d hd => ?_, rfl⟩
        simp only [List.mem_cons] at hd ⊢
        exact hd.imp_right ((ih depth).1 d)
      · rw [bareCells_cons_of_comment hmode hc]
        exact ⟨fun d hd => List.mem_cons_of_mem _ ((ih depth).1 d hd), (ih depth).2⟩

/-! ## Steady texts -/

/-- Read from code, the text ends in code, and goes from one depth to the other without a negative
one between. -/
def Steady (start : Int) (t : Text) (stop : Int) : Prop :=
  Context.code.after t = .code ∧ (∀ d ∈ depthsFrom start (labelFrom .code t), 0 ≤ d) ∧
    start + braceTotal (labelFrom .code t) = stop

instance (start : Int) (t : Text) (stop : Int) : Decidable (Steady start t stop) :=
  inferInstanceAs (Decidable (_ ∧ _ ∧ _))

namespace Steady

variable {a b c : Int} {s t : Text}

/-- Steady texts compose unless a slash meets what follows it. -/
theorem append (h : Steady a s b) (h' : Steady b t c) (hmeets : ¬ SlashMeets (labelFrom .code s) t) :
    Steady a (s ++ t) c := by
  obtain ⟨hcells, hafter⟩ := labelFrom_append h.1 hmeets
  refine ⟨hafter.trans h'.1, fun d hd => ?_, ?_⟩
  · rw [hcells, mem_depthsFrom_append, h.2.2] at hd
    exact hd.elim (h.2.1 d) (h'.2.1 d)
  · rw [hcells, braceTotal_append, ← Int.add_assoc, h.2.2]
    exact h'.2.2

/-- A steady text is steady from greater depths too. -/
theorem lift (h : Steady a t b) {shift : Int} (hshift : 0 ≤ shift) :
    Steady (a + shift) t (b + shift) := by
  refine ⟨h.1, fun d hd => ?_, ?_⟩
  · have hlow := h.2.1 _ ((mem_depthsFrom_add shift).mp hd)
    omega
  · have hstop := h.2.2
    omega

/-- Taking comments out of a steady text leaves it steady. -/
theorem bareText (h : Steady a t b) : Steady a (bareText .code t) b := by
  obtain ⟨hcells, hafter⟩ := readsBare .code t
  simp only [Context.bare] at hcells hafter
  obtain ⟨hdepths, htotal⟩ := depthsFrom_bareCells a (labelFrom .code t)
  rw [Steady, hcells, hafter, h.1, htotal]
  exact ⟨rfl, fun d hd => h.2.1 d (hdepths d hd), h.2.2⟩

/-- A text whose cells hold no brace in code stays at its depth. -/
theorem of_flat {depth : Int} (hdepth : 0 ≤ depth) (hcode : Context.code.after t = .code)
    (hflat : ∀ cell ∈ labelFrom .code t, cell.braceStep = 0) : Steady depth t depth := by
  obtain ⟨hdepths, htotal⟩ := depthsFrom_of_flat hflat depth
  refine ⟨hcode, fun d hd => ?_, by rw [htotal, Int.add_zero]⟩
  rw [hdepths d hd]
  exact hdepth

end Steady

/-- A character that means nothing to a scan from code, wherever it stands. -/
def isInert (c : Char) : Bool := isPlain c && c != '{' && c != '}' && c != '*'

/-- Characters that mean nothing to a scan are plain. -/
theorem all_isPlain_of_inert {t : Text} (h : t.all isInert) : t.all isPlain := by
  refine List.all_eq_true.mpr fun c hc => ?_
  have hinert := List.all_eq_true.mp h c hc
  simp only [isInert, Bool.and_eq_true] at hinert
  exact hinert.1.1.1

/-- A text of characters that mean nothing to a scan is steady. -/
theorem steady_of_inert {depth : Int} (hdepth : 0 ≤ depth) {t : Text} (h : t.all isInert) :
    Steady depth t depth := by
  obtain ⟨hcells, hafter⟩ := labelFrom_plain (all_isPlain_of_inert h) []
  rw [List.append_nil] at hcells hafter
  refine .of_flat hdepth (by rw [hafter, Context.after_nil]) ?_
  rw [hcells, labelFrom_nil, List.append_nil, List.forall_mem_map]
  intro c hc
  have hinert := List.all_eq_true.mp h c hc
  simp only [isInert, Bool.and_eq_true, bne_iff_ne] at hinert
  simp [Cell.braceStep, hinert.1.1.2, hinert.1.2]

/-- A double-quoted string without quotes and escapes inside is steady. -/
theorem steady_quoted {depth : Int} (hdepth : 0 ≤ depth) {t : Text} (hquote : '\x22' ∉ t)
    (hescape : '\\' ∉ t) : Steady depth ('\x22' :: (t ++ ['\x22'])) depth := by
  have hstep : Context.step .code '\x22' (t ++ ['\x22']).head? = (.quoted '\x22', 1) := rfl
  obtain ⟨hcells, hafter⟩ := labelFrom_quoted hquote hescape (by decide) []
  refine .of_flat hdepth ?_ ?_
  · rw [Context.after_single hstep, hafter, Context.after_nil]
  · rw [labelFrom_single hstep, hcells, labelFrom_nil, List.append_nil, List.forall_mem_cons,
      List.forall_mem_map]
    exact ⟨rfl, fun c _ => rfl⟩

/-! ## Blocks -/

/-- A steady text that closes no comment opener of the text before it. -/
def Block (start : Int) (t : Text) (stop : Int) : Prop :=
  Steady start t stop ∧ t.head? ≠ some '/' ∧ t.head? ≠ some '*'

instance (start : Int) (t : Text) (stop : Int) : Decidable (Block start t stop) :=
  inferInstanceAs (Decidable (_ ∧ _))

/-- A slash meets only a text that starts with one of two characters. -/
theorem Block.not_slashMeets {a b : Int} {t : Text} (h : Block a t b) (cells : List Cell) :
    ¬ SlashMeets cells t :=
  fun hmeets => hmeets.2.elim h.2.1 h.2.2

namespace Block

variable {a b c d : Int} {s t u : Text}

/-- The empty text is a block. -/
theorem nil (h : 0 ≤ a) : Block a [] a := ⟨steady_of_inert h rfl, by simp, by simp⟩

/-- Blocks compose. -/
theorem append (h : Block a s b) (h' : Block b t c) : Block a (s ++ t) c := by
  refine ⟨h.1.append h'.1 (h'.not_slashMeets _), ?_⟩
  cases s with
  | nil => exact h'.2
  | cons x rest => exact h.2

/-- A steady text may stand between blocks, where the first ends with another character than a
slash. -/
theorem enclose (h : Block a s b) (hlast : s.getLast? ≠ some '/') (hne : s ≠ [])
    (hinner : Steady b t c) (h' : Block c u d) : Block a (s ++ (t ++ u)) d := by
  refine ⟨h.1.append (hinner.append h'.1 (h'.not_slashMeets _)) (not_slashMeets_of_last hlast _), ?_⟩
  cases s with
  | nil => exact absurd rfl hne
  | cons x rest => exact h.2

/-- Blocks at one depth may be joined by blocks at that depth. -/
theorem joinWith {sep : Text} {pieces : List Text} (ha : 0 ≤ a) (hsep : Block a sep a)
    (h : ∀ piece ∈ pieces, Block a piece a) : Block a (Text.joinWith sep pieces) a := by
  unfold Text.joinWith
  induction pieces with
  | nil => exact nil ha
  | cons piece rest ih =>
    obtain ⟨hpiece, hrest⟩ := List.forall_mem_cons.mp h
    cases rest with
    | nil => simpa using hpiece
    | cons next rest =>
      rw [List.intercalate_cons_cons]
      exact (hpiece.append hsep).append (ih hrest)

/-- Blocks at one depth may follow each other in any number. -/
theorem flatMap {α : Type} {items : List α} {f : α → Text} (ha : 0 ≤ a)
    (h : ∀ item ∈ items, Block a (f item) a) : Block a (items.flatMap f) a := by
  induction items with
  | nil => exact nil ha
  | cons item rest ih =>
    obtain ⟨hitem, hrest⟩ := List.forall_mem_cons.mp h
    rw [List.flatMap_cons]
    exact hitem.append (ih hrest)

/-- A text of characters that mean nothing to a scan is a block. -/
theorem of_inert (ha : 0 ≤ a) (h : t.all isInert) : Block a t a := by
  refine ⟨steady_of_inert ha h, ?_⟩
  cases t with
  | nil => simp
  | cons x rest =>
    simp only [List.all_cons, Bool.and_eq_true] at h
    constructor
    · intro hx
      obtain rfl : x = '/' := by simpa using hx
      exact absurd h.1 (by decide)
    · intro hx
      obtain rfl : x = '*' := by simpa using hx
      exact absurd h.1 (by decide)

end Block

end SetupScript
