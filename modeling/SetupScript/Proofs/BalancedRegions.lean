import Mathlib.Data.List.Basic
import Mathlib.Data.Nat.Init
import SetupScript.Lexical.Region

/-!
# Balanced regions by counting

A region is balanced when its opening and closing delimiters in code are equally many and no
earlier end has that property. The search for the closing delimiter keeps a depth; these lemmas
relate the depth to the counts of the cells passed over, so that a region can be recognised by its
counts alone.
-/

namespace SetupScript

/-- A slice between offsets of a text that are not negative. -/
theorem Text.slice_natCast (t : Text) (start stop : Nat) :
    t.slice start stop = (t.drop start).take (stop - start) := by
  have hclamp (n : Nat) : t.clampOffset n = min n t.length := by
    rw [Text.clampOffset, if_neg (by omega), Int.toNat_natCast]
  rw [Text.slice, hclamp, hclamp]
  by_cases h : start ≤ t.length
  · rw [Nat.min_eq_left h, List.take_eq_take_iff, List.length_drop]
    omega
  · rw [List.drop_eq_nil_of_le (by omega), List.drop_eq_nil_of_le (by omega), List.take_nil,
      List.take_nil]

/-- What a cell adds to the surplus of opening over closing delimiters. -/
def Cell.delimiterStep (opener closer : Text) (cell : Cell) : Int :=
  if cell.isDelimiter opener then 1 else if cell.isDelimiter closer then -1 else 0

/-- How many more opening than closing delimiters stand in code among the cells. -/
def surplus (opener closer : Text) : List Cell → Int
  | [] => 0
  | cell :: cells => cell.delimiterStep opener closer + surplus opener closer cells

/-- The cells from `start` to `stop` are the balanced region that opens at `start`. -/
structure Scan.IsRegion (scan : Scan) (opener closer : Text) (start stop : Nat) : Prop where
  /-- It opens with a delimiter in code. -/
  opens : scan.cells[start]?.any (·.isDelimiter opener)
  /-- It closes with a delimiter in code. -/
  closes : scan.cells[stop]?.any (·.isDelimiter closer)
  /-- Its end comes after its start. -/
  ordered : start < stop
  /-- Both delimiters are equally many in it. -/
  balanced : surplus opener closer ((scan.cells.drop start).take (stop - start + 1)) = 0
  /-- Up to an earlier end some delimiter is still open. -/
  minimal : ∀ k, start ≤ k → k < stop →
    0 < surplus opener closer ((scan.cells.drop start).take (k - start + 1))

instance (scan : Scan) (opener closer : Text) (start stop : Nat) :
    Decidable (scan.IsRegion opener closer start stop) :=
  decidable_of_iff
    (scan.cells[start]?.any (·.isDelimiter opener) ∧ scan.cells[stop]?.any (·.isDelimiter closer) ∧
      start < stop ∧ surplus opener closer ((scan.cells.drop start).take (stop - start + 1)) = 0 ∧
      ∀ k < stop, start ≤ k → 0 < surplus opener closer ((scan.cells.drop start).take (k - start + 1)))
    ⟨fun h => ⟨h.1, h.2.1, h.2.2.1, h.2.2.2.1, fun k hstart hstop => h.2.2.2.2 k hstop hstart⟩,
      fun h => ⟨h.opens, h.closes, h.ordered, h.balanced, fun k hstop hstart => h.minimal k hstart hstop⟩⟩

/-- The surplus of no cells. -/
@[simp] theorem surplus_nil (opener closer : Text) : surplus opener closer [] = 0 := rfl

/-- The surplus counts cell by cell. -/
@[simp] theorem surplus_cons (opener closer : Text) (cell : Cell) (cells : List Cell) :
    surplus opener closer (cell :: cells) =
      cell.delimiterStep opener closer + surplus opener closer cells := rfl

/-- The surplus of two lists of cells adds up. -/
@[simp] theorem surplus_append (opener closer : Text) (a b : List Cell) :
    surplus opener closer (a ++ b) = surplus opener closer a + surplus opener closer b := by
  induction a with
  | nil => simp
  | cons cell rest ih => rw [List.cons_append, surplus_cons, surplus_cons, ih, Int.add_assoc]

/-- One more cell adds its own step to the surplus. -/
theorem surplus_take_succ (opener closer : Text) {cells : List Cell} {k : Nat} {cell : Cell}
    (h : cells[k]? = some cell) :
    surplus opener closer (cells.take (k + 1)) =
      surplus opener closer (cells.take k) + cell.delimiterStep opener closer := by
  rw [List.take_add_one, h, surplus_append]
  simp

/-- The surplus of a stretch of cells is the difference between its two ends. -/
theorem surplus_stretch (opener closer : Text) (cells : List Cell) (start n : Nat) :
    surplus opener closer ((cells.drop start).take n) =
      surplus opener closer (cells.take (start + n)) - surplus opener closer (cells.take start) := by
  rw [List.take_add, surplus_append]
  omega

/-- The surplus of one character over another is the difference of their counts in code. -/
theorem surplus_eq_counts {o c : Char} (h : o ≠ c) (cells : List Cell) :
    surplus [o] [c] cells = (cells.countP fun cell => cell.isCode && cell.char == o) -
      (cells.countP fun cell => cell.isCode && cell.char == c) := by
  induction cells with
  | nil => rfl
  | cons cell rest ih =>
    have hstep : cell.delimiterStep [o] [c] =
        ((if cell.isCode && cell.char == o then 1 else 0 : Nat) : Int) -
          (if cell.isCode && cell.char == c then 1 else 0 : Nat) := by
      simp only [Cell.delimiterStep, Cell.isDelimiter]
      grind
    rw [surplus_cons, ih, List.countP_cons, List.countP_cons, hstep]
    omega

namespace Scan

variable {opener closer : Text}

/-- A cell is marked when it is a comma in code outside all brackets, and adds its own steps to the
three counts. -/
theorem markCommas_eq_cons (paren brace bracket : Int) (cell : Cell) (rest : List Cell) :
    markCommas paren brace bracket (cell :: rest) =
      (cell.char, cell.isCode && cell.char == ',' && paren == 0 && brace == 0 && bracket == 0) ::
        markCommas (paren + cell.delimiterStep ['('] [')']) (brace + cell.delimiterStep ['{'] ['}'])
          (bracket + cell.delimiterStep ['['] [']']) rest := by
  obtain ⟨c, mode⟩ := cell
  cases hcode : Cell.isCode ⟨c, mode⟩ with
  | false => simp [markCommas, Cell.delimiterStep, Cell.isDelimiter, hcode]
  | true =>
    simp only [markCommas, hcode, if_true, Cell.delimiterStep, Cell.isDelimiter, Bool.true_and]
    split
    case h_8 hparen hparen' hbrace hbrace' hbracket hbracket' hcomma =>
      simp [Ne.symm hparen, Ne.symm hparen', Ne.symm hbrace, Ne.symm hbrace', Ne.symm hbracket,
        Ne.symm hbracket', show c ≠ ',' from hcomma]
    all_goals simp [Int.sub_eq_add_neg]

/-- How many offsets below `k` hold the character in code. -/
def codeCount (scan : Scan) (c : Char) (k : Nat) : Nat :=
  (scan.cells.take k).countP fun cell => cell.isCode && cell.char == c

/-- The search for an opening delimiter finds the first one. -/
theorem openingFrom_eq_some {pos offset : Nat} {cells : List Cell} :
    openingFrom opener pos cells = some offset ↔
      ∃ k, offset = pos + k ∧ cells[k]?.any (·.isDelimiter opener) ∧
        ∀ j < k, ¬ cells[j]?.any (·.isDelimiter opener) := by
  induction cells generalizing pos with
  | nil => simp [openingFrom]
  | cons cell rest ih =>
    simp only [openingFrom]
    split
    · next hopens =>
      simp only [Option.some.injEq]
      constructor
      · rintro rfl
        exact ⟨0, rfl, by simpa using hopens, fun j hj => absurd hj (Nat.not_lt_zero j)⟩
      · rintro ⟨k, rfl, -, hfirst⟩
        cases k with
        | zero => rfl
        | succ k => exact absurd (by simpa using hopens) (hfirst 0 (Nat.succ_pos k))
    · next hopens =>
      rw [ih]
      constructor
      · rintro ⟨k, rfl, hk, hfirst⟩
        refine ⟨k + 1, by omega, by simpa using hk, fun j hj => ?_⟩
        cases j with
        | zero => simpa using hopens
        | succ j => simpa using hfirst j (by omega)
      · rintro ⟨k, rfl, hk, hfirst⟩
        cases k with
        | zero => exact absurd (by simpa using hk) hopens
        | succ k =>
          exact ⟨k, by omega, by simpa using hk, fun j hj => by simpa using hfirst (j + 1) (by omega)⟩

/-- The closing delimiter is the first cell up to which all `depth` open delimiters are closed. -/
theorem closingFrom_eq_some {depth pos offset : Nat} {cells : List Cell} (hdepth : 0 < depth)
    (h : closingFrom opener closer depth pos cells = some offset) :
    ∃ k, offset = pos + k ∧ cells[k]?.any (·.isDelimiter closer) ∧
      depth + surplus opener closer (cells.take (k + 1)) = 0 ∧
      ∀ j ≤ k, 0 < depth + surplus opener closer (cells.take j) := by
  induction cells generalizing depth pos with
  | nil => simp [closingFrom] at h
  | cons cell rest ih =>
    -- the search goes on at depth `next` after a cell that does not end the region
    have later (next : Nat) (hnext : 0 < next)
        (hstep : (next : Int) = depth + cell.delimiterStep opener closer)
        (h : closingFrom opener closer next (pos + 1) rest = some offset) :
        ∃ k, offset = pos + k ∧ (cell :: rest)[k]?.any (·.isDelimiter closer) ∧
          depth + surplus opener closer ((cell :: rest).take (k + 1)) = 0 ∧
          ∀ j ≤ k, 0 < depth + surplus opener closer ((cell :: rest).take j) := by
      obtain ⟨k, hoffset, hcloses, hzero, hopen⟩ := ih hnext h
      refine ⟨k + 1, by omega, by simpa using hcloses, ?_, fun j hj => ?_⟩
      · rw [List.take_succ_cons, surplus_cons]
        omega
      · cases j with
        | zero => simpa using hdepth
        | succ j =>
          have hpositive := hopen j (by omega)
          rw [List.take_succ_cons, surplus_cons]
          omega
    simp only [closingFrom] at h
    split at h
    · next hopens => exact later (depth + 1) (by omega) (by simp [Cell.delimiterStep, hopens]) h
    · next hopens =>
      split at h
      · next hcloses =>
        have hstep : cell.delimiterStep opener closer = -1 := by
          simp [Cell.delimiterStep, hopens, hcloses]
        split at h
        · next hlast =>
          simp only [Option.some.injEq] at h
          refine ⟨0, by omega, by simpa using hcloses, ?_, fun j hj => ?_⟩
          · simp only [List.take_succ_cons, List.take_zero, surplus_cons, surplus_nil, hstep]
            omega
          · obtain rfl : j = 0 := by omega
            simpa using hdepth
        · exact later (depth - 1) (by omega) (by omega) h
      · next hcloses => exact later depth hdepth (by simp [Cell.delimiterStep, hopens, hcloses]) h

/-- A closing delimiter ends the search when just one is open before it, and never none. -/
theorem closingFrom_of_balanced {depth : Nat} (pos : Nat) {inner : List Cell} {cell : Cell}
    (rest : List Cell) (hcell : cell.delimiterStep opener closer = -1)
    (hopen : ∀ j ≤ inner.length, 0 < depth + surplus opener closer (inner.take j))
    (hlast : depth + surplus opener closer inner = 1) :
    closingFrom opener closer depth pos (inner ++ cell :: rest) = some (pos + inner.length) := by
  induction inner generalizing depth pos with
  | nil =>
    have hends : cell.isDelimiter opener = false ∧ cell.isDelimiter closer := by
      simp only [Cell.delimiterStep] at hcell
      grind
    have hdepth : depth ≤ 1 := by
      simp only [surplus_nil] at hlast
      omega
    simp [closingFrom, hends, hdepth]
  | cons first inner ih =>
    -- the rest is searched at the depth that the first cell leads to
    have later (next : Nat) (hnext : (next : Int) = depth + first.delimiterStep opener closer) :
        closingFrom opener closer next (pos + 1) (inner ++ cell :: rest) =
          some (pos + (first :: inner).length) := by
      have hopen' (j : Nat) (hj : j ≤ inner.length) :
          0 < next + surplus opener closer (inner.take j) := by
        have hpositive := hopen (j + 1) (by simpa using hj)
        rw [List.take_succ_cons, surplus_cons] at hpositive
        omega
      have hlast' : next + surplus opener closer inner = 1 := by
        rw [surplus_cons] at hlast
        omega
      rw [ih (pos + 1) hopen' hlast', List.length_cons, Nat.add_assoc, Nat.add_comm 1]
    have hfirst := hopen 1 (by simp)
    rw [List.take_succ_cons, List.take_zero, surplus_cons, surplus_nil] at hfirst
    rw [List.cons_append, closingFrom]
    by_cases hopens : first.isDelimiter opener
    · have hstep : first.delimiterStep opener closer = 1 := by simp [Cell.delimiterStep, hopens]
      rw [if_pos hopens]
      exact later (depth + 1) (by omega)
    · by_cases hcloses : first.isDelimiter closer
      · have hstep : first.delimiterStep opener closer = -1 := by
          simp [Cell.delimiterStep, hopens, hcloses]
        rw [if_neg hopens, if_pos hcloses, if_neg (by omega)]
        exact later (depth - 1) (by omega)
      · have hstep : first.delimiterStep opener closer = 0 := by
          simp [Cell.delimiterStep, hopens, hcloses]
        rw [if_neg hopens, if_neg hcloses]
        exact later depth (by omega)

/-- A region is found from its opening delimiter on when what it holds is balanced. -/
theorem balanced?_of_cells (opener closer : Text) {scan : Scan} {start : Nat} {first last : Cell}
    {inner rest : List Cell}
    (hcells : scan.cells.drop start = first :: (inner ++ last :: rest))
    (hfirst : first.isDelimiter opener) (hlast : last.delimiterStep opener closer = -1)
    (hopen : ∀ j ≤ inner.length, 0 ≤ surplus opener closer (inner.take j))
    (hzero : surplus opener closer inner = 0) :
    scan.balanced? start opener closer = some ⟨start, start + 1 + inner.length,
      (scan.text.drop start).take (inner.length + 2)⟩ := by
  have hlt : start < scan.cells.length := by
    have hlength := congrArg List.length hcells
    simp only [List.length_drop, List.length_cons] at hlength
    omega
  have hdrop : scan.cells.drop (start + 1) = inner ++ last :: rest := by
    rw [← List.drop_drop, hcells]
    rfl
  have hopening : openingFrom opener start (scan.cells.drop start) = some start := by
    rw [hcells, openingFrom, if_pos hfirst]
  have hclosing : closingFrom opener closer 1 (start + 1) (scan.cells.drop (start + 1)) =
      some (start + 1 + inner.length) := by
    rw [hdrop]
    refine closingFrom_of_balanced _ rest hlast (fun j hj => ?_) (by omega)
    have := hopen j hj
    omega
  have hslice : scan.text.slice start (start + 1 + inner.length + 1 : Nat) =
      (scan.text.drop start).take (inner.length + 2) := by
    rw [Text.slice_natCast, show start + 1 + inner.length + 1 - start = inner.length + 2 by omega]
  have hinside : (decide ((start : Int) < 0) || decide ((scan.cells.length : Int) ≤ start)) = false := by
    simp only [Bool.or_eq_false_iff, decide_eq_false_iff_not]
    omega
  simp only [balanced?, hinside, Bool.false_eq_true, if_false, Int.toNat_natCast, hopening, hclosing,
    Option.pure_def, Option.bind_eq_bind, Option.bind_some]
  rw [← hslice]
  rfl

/-- What the search for a balanced region gives is one, with its text. -/
theorem balanced?_eq_some {scan : Scan} {offset : Int} {span : Span}
    (h : scan.balanced? offset opener closer = some span) :
    scan.IsRegion opener closer span.start span.stop ∧
      span.text = (scan.text.drop span.start).take (span.stop + 1 - span.start) := by
  simp only [balanced?, Option.bind_eq_bind] at h
  split at h
  · simp at h
  simp only [Option.pure_def, Option.bind_eq_some_iff, Option.some.injEq] at h
  obtain ⟨start, hstart, stop, hstop, rfl⟩ := h
  obtain ⟨m, hm, hopens, -⟩ := openingFrom_eq_some.mp hstart
  obtain ⟨k, hk, hcloses, hzero, hopen⟩ := closingFrom_eq_some Nat.one_pos hstop
  rw [List.getElem?_drop, ← hm] at hopens
  rw [List.getElem?_drop, ← hk] at hcloses
  obtain ⟨cell, hcell, hopener⟩ := (Option.any_eq_true _ _).mp hopens
  have hstep : cell.delimiterStep opener closer = 1 := by simp [Cell.delimiterStep, hopener]
  have hdrop : scan.cells.drop start = cell :: scan.cells.drop (start + 1) := by
    obtain ⟨hlt, rfl⟩ := List.getElem?_eq_some_iff.mp hcell
    exact List.drop_eq_getElem_cons hlt
  have hordered : start < stop := by omega
  have hwidth : stop - start = k + 1 := by omega
  refine ⟨⟨hopens, hcloses, hordered, ?_, fun j hj (hlt : j < stop) => ?_⟩,
    scan.text.slice_natCast start (stop + 1)⟩
  · rw [hdrop, List.take_succ_cons, surplus_cons, hstep, hwidth]
    exact hzero
  · have hwithin : j - start ≤ k := by omega
    rw [hdrop, List.take_succ_cons, surplus_cons, hstep]
    exact hopen (j - start) hwithin

/-- Up to a later offset the region that opens at `start` has been closed, or the surplus has been
larger all the way. -/
theorem region_or_open (closer : Text) {scan : Scan} {start p : Nat}
    (hopens : scan.cells[start]?.any (·.isDelimiter opener)) (hlt : start < p)
    (hp : p ≤ scan.cells.length) :
    (∃ stop < p, scan.IsRegion opener closer start stop) ∨
      ∀ k, start < k → k ≤ p → surplus opener closer (scan.cells.take start) <
        surplus opener closer (scan.cells.take k) := by
  induction p, hlt using Nat.le_induction with
  | base =>
    right
    intro k hk hle
    obtain rfl : k = start + 1 := by omega
    obtain ⟨cell, hcell, hopener⟩ := (Option.any_eq_true _ _).mp hopens
    have hone : cell.delimiterStep opener closer = 1 := by simp [Cell.delimiterStep, hopener]
    rw [surplus_take_succ opener closer hcell, hone]
    omega
  | succ p hlt ih =>
    rcases ih (by omega) with ⟨stop, hstop, hregion⟩ | hopen
    · exact .inl ⟨stop, by omega, hregion⟩
    have hcell : scan.cells[p]? = some scan.cells[p] := List.getElem?_eq_getElem (by omega)
    have hstep := surplus_take_succ opener closer hcell
    have hbefore := hopen p hlt (Nat.le_refl p)
    rcases Int.lt_or_le (surplus opener closer (scan.cells.take start))
      (surplus opener closer (scan.cells.take (p + 1))) with hstill | hback
    · right
      intro k hk hle
      rcases Nat.eq_or_lt_of_le hle with rfl | hearlier
      · exact hstill
      · exact hopen k hk (by omega)
    · -- the surplus fell back by one cell, which closes the region
      have hcloses : scan.cells[p].isDelimiter closer ∧
          scan.cells[p].delimiterStep opener closer = -1 := by
        simp only [Cell.delimiterStep] at hstep ⊢
        grind
      refine .inl ⟨p, Nat.lt_succ_self p, hopens, by simp [hcell, hcloses.1], hlt, ?_, fun k hk hkp => ?_⟩
      · rw [surplus_stretch, show start + (p - start + 1) = p + 1 by omega]
        omega
      · have hlarger := hopen (k + 1) (by omega) (by omega)
        rw [surplus_stretch, show start + (k - start + 1) = k + 1 by omega]
        omega

/-- A region ends inside the text. -/
theorem IsRegion.stop_lt {scan : Scan} {start stop : Nat}
    (h : scan.IsRegion opener closer start stop) : stop < scan.cells.length := by
  obtain ⟨cell, hcell, -⟩ := (Option.any_eq_true _ _).mp h.closes
  exact (List.getElem?_eq_some_iff.mp hcell).1

/-- A region that opens at an offset ends in one place only. -/
theorem IsRegion.unique {scan : Scan} {start stop stop' : Nat}
    (h : scan.IsRegion opener closer start stop) (h' : scan.IsRegion opener closer start stop') :
    stop = stop' := by
  rcases Nat.lt_trichotomy stop stop' with hlt | heq | hgt
  · have hopen := h'.minimal stop (Nat.le_of_lt h.ordered) hlt
    have hbalanced := h.balanced
    omega
  · exact heq
  · have hopen := h.minimal stop' (Nat.le_of_lt h'.ordered) hgt
    have hbalanced := h'.balanced
    omega

/-- The text between the delimiters of a region that was found. -/
theorem inner_eq_of_balanced? {scan : Scan} {offset : Int} {span : Span}
    (h : scan.balanced? offset opener closer = some span) :
    span.inner = (scan.text.drop (span.start + 1)).take (span.stop - span.start - 1) := by
  obtain ⟨hregion, htext⟩ := balanced?_eq_some h
  have hstop := hregion.stop_lt
  have hordered := hregion.ordered
  have hlength : scan.text.length = scan.cells.length := by simp [text]
  have hwidth : span.stop + 1 - span.start = (span.stop - span.start) + 1 := by omega
  rw [Span.inner, htext, hwidth, List.drop_take, List.drop_drop, Nat.add_sub_cancel,
    List.dropLast_eq_take, List.take_take, List.length_take, List.length_drop]
  congr 1
  omega

end Scan

end SetupScript
