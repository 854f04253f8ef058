import SetupScript.Proofs.ReplacementTexts
import SetupScript.Proofs.SettledText

/-!
# The first balanced region

The search for a balanced region looks for an opening delimiter and counts on from there in one pass.
What it finds is said by counting alone: the region opens at the first opening delimiter in code, and
ends at the first offset after it up to which as many delimiters were closed as opened.

What stands between the two delimiters can be scanned on its own. It starts and ends in code, so its
characters have the modes that they have in the whole text, and its depths are those of the whole text,
counted from the opening delimiter on.
-/

namespace SetupScript

/-! ## Counting -/

/-- A surplus that starts positive and is never zero stays positive, since it falls by one at most. -/
theorem surplus_pos_of_ne_zero {opener closer : Text} {cells : List Cell}
    (hfirst : 0 < surplus opener closer (cells.take 1)) {n : Nat}
    (hne : ∀ k, 1 ≤ k → k ≤ n → surplus opener closer (cells.take k) ≠ 0) :
    ∀ k, 1 ≤ k → k ≤ n → 0 < surplus opener closer (cells.take k) := by
  intro k hk
  induction k, hk using Nat.le_induction with
  | base => exact fun _ => hfirst
  | succ k hk ih =>
    intro hle
    have hbefore := ih (by omega)
    have hzero := hne (k + 1) (by omega) hle
    cases hcell : cells[k]? with
    | none =>
      have hend := List.getElem?_eq_none_iff.mp hcell
      rwa [List.take_of_length_le (by omega), ← List.take_of_length_le hend]
    | some cell =>
      rw [surplus_take_succ opener closer hcell] at hzero ⊢
      simp only [Cell.delimiterStep] at hzero ⊢
      grind

namespace Scan

variable {scan : Scan} {o c : Char} {start stop : Nat}

/-- The search for the closing delimiter ends with the first cell up to which all `depth` open
delimiters are closed. -/
theorem closingFrom_eq_some_iff {opener closer : Text} {depth pos offset : Nat} {cells : List Cell}
    (hdepth : 0 < depth) :
    closingFrom opener closer depth pos cells = some offset ↔
      ∃ k, offset = pos + k ∧ depth + surplus opener closer (cells.take (k + 1)) = 0 ∧
        ∀ j ≤ k, 0 < depth + surplus opener closer (cells.take j) := by
  constructor
  · intro h
    obtain ⟨k, hoffset, -, hzero, hopen⟩ := closingFrom_eq_some hdepth h
    exact ⟨k, hoffset, hzero, hopen⟩
  · rintro ⟨k, rfl, hzero, hopen⟩
    have hbefore := hopen k (Nat.le_refl k)
    -- the count falls at the cell `k`, so there is one and it closes
    obtain ⟨cell, hcell⟩ : ∃ cell, cells[k]? = some cell := by
      by_contra hnone
      have hend : cells.length ≤ k := by
        rw [← List.getElem?_eq_none_iff, ← Option.not_isSome_iff_eq_none, Option.isSome_iff_exists]
        exact hnone
      rw [List.take_of_length_le (by omega)] at hzero
      rw [List.take_of_length_le hend] at hbefore
      omega
    rw [surplus_take_succ opener closer hcell] at hzero
    have hcloses : cell.delimiterStep opener closer = -1 := by
      simp only [Cell.delimiterStep] at hzero ⊢
      grind
    obtain ⟨hlt, rfl⟩ := List.getElem?_eq_some_iff.mp hcell
    have hlength : (cells.take k).length = k := List.length_take_of_le (Nat.le_of_lt hlt)
    have hsplit : cells = cells.take k ++ cells[k] :: cells.drop (k + 1) := by
      rw [← List.drop_eq_getElem_cons hlt, List.take_append_drop]
    have hinner (j : Nat) (hj : j ≤ (cells.take k).length) :
        0 < depth + surplus opener closer ((cells.take k).take j) := by
      rw [hlength] at hj
      rw [List.take_take, Nat.min_eq_left hj]
      exact hopen j hj
    have hclosing := closingFrom_of_balanced pos (cells.drop (k + 1)) hcloses hinner (by omega)
    rwa [← hsplit, hlength] at hclosing

/-- How many offsets from `start` to `stop`, both of them included, hold the character in code. -/
def codeCountIn (scan : Scan) (c : Char) (start stop : Nat) : Nat :=
  ((scan.cells.drop start).take (stop + 1 - start)).countP fun cell => cell.isCode && cell.char == c

/-- The region from `start` to `stop` is the first balanced one from an offset on. -/
structure IsFirstRegion (scan : Scan) (offset : Int) (o c : Char) (start stop : Nat) : Prop where
  /-- The offset lies in the text. -/
  inside : 0 ≤ offset ∧ offset < scan.cells.length
  /-- The region opens with a delimiter in code, at the offset or after it. -/
  opens : offset ≤ start ∧ scan.cells[start]? = some ⟨o, .code⟩
  /-- No delimiter in code opens between the offset and the region. -/
  first : ∀ k : Nat, offset ≤ k → k < start → scan.cells[k]? ≠ some ⟨o, .code⟩
  /-- Its end comes after its start. -/
  ordered : start < stop
  /-- As many delimiters are closed in it as opened. -/
  balanced : scan.codeCountIn o start stop = scan.codeCountIn c start stop
  /-- Up to an earlier offset it is not so. -/
  minimal : ∀ k, start < k → k < stop → scan.codeCountIn o start k ≠ scan.codeCountIn c start k

/-- A cell is a delimiter of one character when it holds it in code. -/
theorem isDelimiter_iff {cells : List Cell} {k : Nat} :
    cells[k]?.any (·.isDelimiter [c]) ↔ cells[k]? = some ⟨c, .code⟩ := by
  refine ⟨cell_of_isDelimiter, fun h => ?_⟩
  rw [h]
  simp [Cell.isDelimiter, Cell.isCode]

/-- The search for the opening delimiter leads to the first one from the offset on. -/
theorem openingFrom_drop_iff {offset : Nat} :
    openingFrom [o] offset (scan.cells.drop offset) = some start ↔
      offset ≤ start ∧ scan.cells[start]? = some ⟨o, .code⟩ ∧
        ∀ k, offset ≤ k → k < start → scan.cells[k]? ≠ some ⟨o, .code⟩ := by
  simp only [openingFrom_eq_some, List.getElem?_drop, isDelimiter_iff]
  constructor
  · rintro ⟨k, rfl, hopens, hfirst⟩
    refine ⟨Nat.le_add_right offset k, hopens, fun j hj hlt => ?_⟩
    have hnone := hfirst (j - offset) (by omega)
    rwa [Nat.add_sub_cancel' hj] at hnone
  · rintro ⟨hle, hopens, hfirst⟩
    refine ⟨start - offset, by omega, ?_, fun j hj => hfirst _ (by omega) (by omega)⟩
    rwa [Nat.add_sub_cancel' hle]

/-- As many delimiters are closed as opened when there is no surplus. -/
theorem surplus_eq_zero_iff (h : o ≠ c) (k : Nat) :
    surplus [o] [c] ((scan.cells.drop start).take (k + 1 - start)) = 0 ↔
      scan.codeCountIn o start k = scan.codeCountIn c start k := by
  rw [surplus_eq_counts h, codeCountIn, codeCountIn]
  omega

/-- The opening delimiter of a region is the one that is open in what follows it. -/
theorem surplus_opened (c : Char) (hopens : scan.cells[start]? = some ⟨o, .code⟩) (n : Nat) :
    surplus [o] [c] ((scan.cells.drop start).take (n + 1)) =
      (1 : Nat) + surplus [o] [c] ((scan.cells.drop (start + 1)).take n) := by
  obtain ⟨hlt, hget⟩ := List.getElem?_eq_some_iff.mp hopens
  have hstep : (⟨o, .code⟩ : Cell).delimiterStep [o] [c] = 1 := by
    simp [Cell.delimiterStep, Cell.isDelimiter, Cell.isCode]
  rw [List.drop_eq_getElem_cons hlt, hget, List.take_succ_cons, surplus_cons, hstep]
  rfl

/-- The search for the closing delimiter leads to the first offset up to which the counts meet. -/
theorem closingFrom_drop_iff (h : o ≠ c) (hopens : scan.cells[start]? = some ⟨o, .code⟩) :
    closingFrom [o] [c] 1 (start + 1) (scan.cells.drop (start + 1)) = some stop ↔
      start < stop ∧ scan.codeCountIn o start stop = scan.codeCountIn c start stop ∧
        ∀ k, start < k → k < stop → scan.codeCountIn o start k ≠ scan.codeCountIn c start k := by
  have hsurplus := surplus_opened c hopens
  simp only [closingFrom_eq_some_iff Nat.one_pos, ← surplus_eq_zero_iff h, ne_eq, ← hsurplus]
  constructor
  · rintro ⟨k, rfl, hzero, hopen⟩
    refine ⟨by omega, ?_, fun j hj hlt => ?_⟩
    · rwa [show start + 1 + k + 1 - start = k + 1 + 1 by omega]
    · have hpositive := hopen (j - start) (by omega)
      rw [show j + 1 - start = j - start + 1 by omega]
      omega
  · rintro ⟨hordered, hzero, hminimal⟩
    refine ⟨stop - start - 1, by omega, ?_, fun j hj => ?_⟩
    · rwa [show stop - start - 1 + 1 + 1 = stop + 1 - start by omega]
    · have hfirst : 0 < surplus [o] [c] ((scan.cells.drop start).take 1) := by
        rw [hsurplus, List.take_zero, surplus_nil]
        decide
      refine surplus_pos_of_ne_zero hfirst (n := stop - start) (fun k hk hle => ?_) (j + 1) (by omega) (by omega)
      rcases Nat.eq_or_lt_of_le hk with rfl | hlater
      · omega
      · have hne := hminimal (start + k - 1) (by omega) (by omega)
        rwa [show start + k - 1 + 1 - start = k by omega] at hne

/-- A region is found by the two searches, one after the other. -/
theorem balanced?_eq_some_searches {offset : Int} {span : Span} :
    scan.balanced? offset [o] [c] = some span ↔
      (0 ≤ offset ∧ offset < scan.cells.length) ∧
        openingFrom [o] offset.toNat (scan.cells.drop offset.toNat) = some span.start ∧
        closingFrom [o] [c] 1 (span.start + 1) (scan.cells.drop (span.start + 1)) = some span.stop ∧
        span.text = (scan.text.drop span.start).take (span.stop + 1 - span.start) := by
  obtain ⟨start, stop, text⟩ := span
  simp only [balanced?, Option.bind_eq_bind, Option.pure_def]
  split
  · next houtside =>
    simp only [Bool.or_eq_true, decide_eq_true_eq] at houtside
    simp only [Option.bind_none, reduceCtorEq, false_iff]
    omega
  · next hinside =>
    simp only [Bool.or_eq_true, decide_eq_true_eq, not_or, Int.not_lt, Int.not_le] at hinside
    simp only [Option.bind_eq_some_iff, Option.some.injEq, Span.mk.injEq]
    have hslice : scan.text.slice start (stop + 1 : Nat) =
        (scan.text.drop start).take (stop + 1 - start) := scan.text.slice_natCast start (stop + 1)
    constructor
    · rintro ⟨_, hopening, _, hclosing, rfl, rfl, rfl⟩
      exact ⟨hinside, hopening, hclosing, hslice⟩
    · rintro ⟨-, hopening, hclosing, rfl⟩
      exact ⟨start, hopening, stop, hclosing, rfl, rfl, hslice⟩

/-- The search gives a region exactly when it is the first balanced one, and gives it with its text. -/
theorem balanced?_eq_some_iff (h : o ≠ c) {offset : Int} {span : Span} :
    scan.balanced? offset [o] [c] = some span ↔
      scan.IsFirstRegion offset o c span.start span.stop ∧
        span.text = (scan.text.drop span.start).take (span.stop + 1 - span.start) := by
  rw [balanced?_eq_some_searches, openingFrom_drop_iff]
  constructor
  · rintro ⟨hinside, ⟨hle, hopens, hfirst⟩, hclosing, htext⟩
    obtain ⟨hordered, hbalanced, hminimal⟩ := (closingFrom_drop_iff h hopens).mp hclosing
    exact ⟨⟨hinside, ⟨by omega, hopens⟩, fun k hk => hfirst k (by omega), hordered, hbalanced, hminimal⟩,
      htext⟩
  · rintro ⟨hregion, htext⟩
    have hinside := hregion.inside
    obtain ⟨hle, hopens⟩ := hregion.opens
    exact ⟨hinside, ⟨by omega, hopens, fun k hk => hregion.first k (by omega)⟩,
      (closingFrom_drop_iff h hopens).mpr ⟨hregion.ordered, hregion.balanced, hregion.minimal⟩, htext⟩

/-- From its own opening delimiter on, a region is the first. -/
theorem isFirstRegion_iff_isRegion (h : o ≠ c) :
    scan.IsFirstRegion start o c start stop ↔ scan.IsRegion [o] [c] start stop := by
  constructor
  · intro hfirst
    let span : Span := ⟨start, stop, (scan.text.drop start).take (stop + 1 - start)⟩
    have hfound : scan.balanced? start [o] [c] = some span :=
      (balanced?_eq_some_iff h).mpr ⟨hfirst, rfl⟩
    exact (balanced?_eq_some hfound).1
  · intro hregion
    have hordered := hregion.ordered
    have hstop := hregion.stop_lt
    refine ⟨by omega, ⟨Int.le_refl _, cell_of_isDelimiter hregion.opens⟩, fun k hk hlt => by omega, hordered,
      ?_, fun k hk hlt => ?_⟩
    · rw [← surplus_eq_zero_iff h, show stop + 1 - start = stop - start + 1 by omega]
      exact hregion.balanced
    · have hopen := hregion.minimal k (Nat.le_of_lt hk) hlt
      rw [ne_eq, ← surplus_eq_zero_iff h, show k + 1 - start = k - start + 1 by omega]
      omega

/-- Where an opening delimiter stands in code, the search from there gives the region that it opens. -/
theorem balanced?_eq_some_of_opener (h : o ≠ c) (hopens : scan.cells[start]? = some ⟨o, .code⟩)
    {span : Span} :
    scan.balanced? start [o] [c] = some span ↔ span.start = start ∧ scan.IsRegion [o] [c] start span.stop ∧
      span.text = (scan.text.drop start).take (span.stop + 1 - start) := by
  rw [balanced?_eq_some_iff h]
  constructor
  · rintro ⟨hregion, htext⟩
    obtain hstart | hlater : span.start = start ∨ start < span.start := by
      have hle := hregion.opens.1
      omega
    · rw [hstart] at hregion htext
      exact ⟨hstart, (isFirstRegion_iff_isRegion h).mp hregion, htext⟩
    · exact absurd hopens (hregion.first start (Int.le_refl _) hlater)
  · rintro ⟨hstart, hregion, htext⟩
    rw [hstart]
    exact ⟨(isFirstRegion_iff_isRegion h).mpr hregion, htext⟩

/-- A search for two different delimiters finds exactly the first balanced region. What it gives is the
text of the region, from the opening to the closing delimiter, and it gives nothing just when there is
no such region. -/
theorem search_finds_first_region (t : Text) (offset : Int) {o c : Char} (h : o ≠ c) :
    let scan := ofText t
    (∀ span, scan.balanced? offset [o] [c] = some span ↔
      scan.IsFirstRegion offset o c span.start span.stop ∧
        span.text = (t.drop span.start).take (span.stop + 1 - span.start)) ∧
    (∀ start stop, scan.IsFirstRegion offset o c start stop →
      stop < t.length ∧ ((t.drop start).take (stop + 1 - start)).length = stop - start + 1) ∧
    (scan.balanced? offset [o] [c] = none ↔ ∀ start stop, ¬ scan.IsFirstRegion offset o c start stop) := by
  intro scan
  have hfinds (span : Span) : scan.balanced? offset [o] [c] = some span ↔
      scan.IsFirstRegion offset o c span.start span.stop ∧
        span.text = (t.drop span.start).take (span.stop + 1 - span.start) := by
    rw [balanced?_eq_some_iff h, text_ofText]
  have hfound (start stop : Nat) (hregion : scan.IsFirstRegion offset o c start stop) :
      scan.balanced? offset [o] [c] = some ⟨start, stop, (t.drop start).take (stop + 1 - start)⟩ :=
    (hfinds ⟨start, stop, _⟩).mpr ⟨hregion, rfl⟩
  refine ⟨hfinds, fun start stop hregion => ?_, ?_⟩
  · have hstop : stop < scan.cells.length := (balanced?_eq_some (hfound start stop hregion)).1.stop_lt
    have hlength : scan.cells.length = t.length := length_labelFrom .code t
    have hordered := hregion.ordered
    rw [List.length_take, List.length_drop]
    omega
  · rw [Option.eq_none_iff_forall_not_mem]
    constructor
    · intro hnone start stop hregion
      exact hnone _ (hfound start stop hregion)
    · intro hnone span hspan
      exact hnone span.start span.stop ((hfinds span).mp hspan).1

/-- A parenthesis in a string is passed over, and the inner call is closed before the outer one. -/
theorem search_finds_outer_call :
    let scan := ofText "f(\x22(\x22, g(1))"
    '(' ≠ ')' ∧ scan.balanced? 0 ['('] [')'] = some ⟨1, 11, "(\x22(\x22, g(1))"⟩ ∧
      scan.IsFirstRegion 0 '(' ')' 1 11 := by
  intro scan
  have hfound : scan.balanced? 0 ['('] [')'] = some ⟨1, 11, "(\x22(\x22, g(1))"⟩ := by rfl
  have hregion := ((search_finds_first_region "f(\x22(\x22, g(1))" 0 (by decide)).1 _).mp hfound
  exact ⟨by decide, hfound, hregion.1⟩

/-! ## Scanning what a region holds -/

/-- The depths from an offset on start with what the cells before it add. -/
theorem drop_depthsFrom (depth : Int) {cells : List Cell} {k : Nat} (hk : k ≤ cells.length) :
    (depthsFrom depth cells).drop k = depthsFrom (depth + braceTotal (cells.take k)) (cells.drop k) := by
  induction cells generalizing depth k with
  | nil =>
    obtain rfl : k = 0 := by simpa using hk
    simp
  | cons cell rest ih =>
    cases k with
    | zero => simp
    | succ k =>
      rw [depthsFrom, List.drop_succ_cons, List.drop_succ_cons, ih _ (by simpa using hk),
        List.take_succ_cons, braceTotal_cons, Int.add_assoc]

/-- The depths up to an offset are those of the cells before it. -/
theorem take_depthsFrom (depth : Int) {cells : List Cell} {k : Nat} (hk : k ≤ cells.length) :
    (depthsFrom depth cells).take (k + 1) = depthsFrom depth (cells.take k) := by
  induction cells generalizing depth k with
  | nil =>
    obtain rfl : k = 0 := by simpa using hk
    rfl
  | cons cell rest ih =>
    cases k with
    | zero => rfl
    | succ k =>
      rw [depthsFrom, List.take_succ_cons, ih _ (by simpa using hk), List.take_succ_cons, depthsFrom]

/-- Depths shift with the depth that they start from. -/
theorem map_sub_depthsFrom (depth shift : Int) (cells : List Cell) :
    (depthsFrom depth cells).map (· - shift) = depthsFrom (depth - shift) cells := by
  induction cells generalizing depth with
  | nil => rfl
  | cons cell rest ih =>
    rw [depthsFrom, List.map_cons, ih, depthsFrom, show depth + cell.braceStep - shift =
      depth - shift + cell.braceStep by omega]

variable {t : Text} {offset : Int} {span : Span}

/-- What a region holds has the cells that it has in the whole text, and ends in code. -/
theorem cells_inner (h : (ofText t).balanced? offset [o] [c] = some span) :
    (ofText span.inner).cells =
        ((ofText t).cells.drop (span.start + 1)).take (span.stop - span.start - 1) ∧
      Context.code.after span.inner = .code := by
  obtain ⟨hregion, -⟩ := balanced?_eq_some h
  rw [inner_eq_of_balanced? h, text_ofText]
  exact labelFrom_between hregion.ordered (cell_of_isDelimiter hregion.opens)
    (cell_of_isDelimiter hregion.closes)

/-- The depths of what a region holds are those of the whole text, less the one behind the opening
delimiter. -/
theorem depths_inner (h : (ofText t).balanced? offset [o] [c] = some span) :
    (ofText span.inner).depths =
      (((ofText t).depths.drop (span.start + 1)).take (span.stop - span.start)).map
        (· - (ofText t).depthAt (span.start + 1)) := by
  obtain ⟨hregion, -⟩ := balanced?_eq_some h
  have hordered := hregion.ordered
  have hstop := hregion.stop_lt
  have hlength : (ofText t).cells.length = t.length := length_labelFrom .code t
  have hdepth : (ofText t).depthAt (span.start + 1 : Nat) =
      braceTotal ((ofText t).cells.take (span.start + 1)) := depthAt_ofText (by omega)
  have hwidth : span.stop - span.start - 1 ≤ ((ofText t).cells.drop (span.start + 1)).length := by
    rw [List.length_drop]
    omega
  calc (ofText span.inner).depths
      = depthsFrom 0 (((ofText t).cells.drop (span.start + 1)).take (span.stop - span.start - 1)) := by
        rw [← (cells_inner h).1]
        rfl
    _ = (depthsFrom 0 ((ofText t).cells.drop (span.start + 1))).take (span.stop - span.start - 1 + 1) :=
        (take_depthsFrom 0 hwidth).symm
    _ = (((ofText t).depths.drop (span.start + 1)).map
          (· - (ofText t).depthAt (span.start + 1 : Nat))).take (span.stop - span.start) := by
        have hwithin : span.start + 1 ≤ (ofText t).cells.length := by omega
        have hdrop : (ofText t).depths.drop (span.start + 1) =
            depthsFrom (0 + braceTotal ((ofText t).cells.take (span.start + 1)))
              ((ofText t).cells.drop (span.start + 1)) := drop_depthsFrom 0 hwithin
        rw [hdrop, map_sub_depthsFrom, hdepth, Int.zero_add, Int.sub_self,
          show span.stop - span.start - 1 + 1 = span.stop - span.start by omega]
    _ = _ := by rw [List.map_take]; rfl

/-- What a region holds is as long as the delimiters leave room for. -/
theorem length_inner (h : (ofText t).balanced? offset [o] [c] = some span) :
    span.inner.length = span.stop - span.start - 1 := by
  obtain ⟨hregion, -⟩ := balanced?_eq_some h
  have hstop := hregion.stop_lt
  rw [inner_eq_of_balanced? h, text, ← List.map_drop, ← List.map_take, List.length_map,
    List.length_take, List.length_drop]
  omega

/-- In what a region holds as many delimiters are closed as opened, and on the way never more. -/
theorem codeCount_inner (h : (ofText t).balanced? offset [o] [c] = some span) :
    (ofText span.inner).codeCount o span.inner.length = (ofText span.inner).codeCount c span.inner.length ∧
      ∀ k, (ofText span.inner).codeCount c k ≤ (ofText span.inner).codeCount o k := by
  by_cases hne : o = c
  · subst hne
    exact ⟨rfl, fun k => Nat.le_refl _⟩
  obtain ⟨hregion, -⟩ := balanced?_eq_some h
  have hordered := hregion.ordered
  have hsurplus := surplus_opened c (cell_of_isDelimiter hregion.opens)
  obtain ⟨hcells, -⟩ := cells_inner h
  let width := span.stop - span.start - 1
  -- on the way some delimiter is open besides those of the inner text, or none is
  have hopen (k : Nat) (hk : k ≤ width) :
      0 ≤ surplus [o] [c] (((ofText t).cells.drop (span.start + 1)).take k) := by
    have hpositive := hregion.minimal (span.start + k) (by omega) (by omega)
    rw [Nat.add_sub_cancel_left, hsurplus] at hpositive
    omega
  have hzero : surplus [o] [c] (((ofText t).cells.drop (span.start + 1)).take width) = 0 := by
    have hlast : ((ofText t).cells.drop (span.start + 1))[width]? = some ⟨c, .code⟩ := by
      rw [List.getElem?_drop, show span.start + 1 + width = span.stop by omega]
      exact cell_of_isDelimiter hregion.closes
    have hstep : (⟨c, .code⟩ : Cell).delimiterStep [o] [c] = -1 := by
      simp [Cell.delimiterStep, Cell.isDelimiter, Cell.isCode, hne]
    have hbalanced := hregion.balanced
    rw [hsurplus, show span.stop - span.start = width + 1 by omega,
      surplus_take_succ [o] [c] hlast, hstep] at hbalanced
    omega
  have hcount (k : Nat) : ((ofText span.inner).codeCount o k : Int) - (ofText span.inner).codeCount c k =
      surplus [o] [c] (((ofText t).cells.drop (span.start + 1)).take (min k width)) := by
    rw [codeCount, codeCount, ← surplus_eq_counts hne, hcells, List.take_take]
  have hlength : span.inner.length = width := length_inner h
  constructor
  · have htotal := hcount span.inner.length
    rw [hlength, Nat.min_self, hzero, ← hlength] at htotal
    omega
  · intro k
    have hprefix := hopen (min k width) (Nat.min_le_right k width)
    rw [← hcount k] at hprefix
    omega

/-- What stands between the delimiters of a region is scanned on its own as it is in the whole text. It
has the same modes, and the same depths counted from behind the opening delimiter; its scan ends in
code, and as many delimiters are closed in it as opened, on the way never more. -/
theorem region_scanned_alike (t : Text) (offset : Int) (o c : Char) (span : Span)
    (h : (ofText t).balanced? offset [o] [c] = some span) :
    let whole := ofText t
    let inner := ofText span.inner
    inner.modes = (whole.modes.drop (span.start + 1)).take (span.stop - span.start - 1) ∧
    inner.depths = ((whole.depths.drop (span.start + 1)).take (span.stop - span.start)).map
      (· - whole.depthAt (span.start + 1)) ∧
    Context.code.after span.inner = .code ∧
    inner.codeCount o span.inner.length = inner.codeCount c span.inner.length ∧
    (∀ k ≤ span.inner.length, inner.codeCount c k ≤ inner.codeCount o k) ∧
    ∀ k < span.inner.length, inner.cells[k]? = whole.cells[span.start + 1 + k]? := by
  obtain ⟨hcells, hcode⟩ := cells_inner h
  obtain ⟨hcounts, hprefixes⟩ := codeCount_inner h
  refine ⟨?_, depths_inner h, hcode, hcounts, fun k _ => hprefixes k, fun k hk => ?_⟩
  · rw [modes, hcells, List.map_take, List.map_drop]
    rfl
  · rw [length_inner h] at hk
    rw [hcells, List.getElem?_take_of_lt hk, List.getElem?_drop]

/-- An object with a brace in a string, one in a comment, and another object in it. -/
theorem region_scanned_alike_object :
    let whole := ofText "x = \x7ba: '\x7d', /*\x7b*/ b: \x7bc: 1\x7d\x7d //\x7d"
    ∃ span, whole.balanced? 0 ['\x7b'] ['\x7d'] = some span ∧ span.start = 4 ∧ span.stop = 28 ∧
      (ofText span.inner).modes = (whole.modes.drop 5).take 23 ∧
      Context.code.after span.inner = .code := by
  intro whole
  have hends : (whole.balanced? 0 ['\x7b'] ['\x7d']).map (fun span => (span.start, span.stop)) =
      some (4, 28) := by decide +kernel
  obtain ⟨span, hfound, hends⟩ := Option.map_eq_some_iff.mp hends
  obtain ⟨hstart, hstop⟩ := Prod.mk.inj hends
  have halike := region_scanned_alike _ 0 '\x7b' '\x7d' span hfound
  rw [hstart, hstop] at halike
  exact ⟨span, hfound, hstart, hstop, halike.1, halike.2.2.1⟩

end Scan

end SetupScript
