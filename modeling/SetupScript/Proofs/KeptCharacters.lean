import SetupScript.Proofs.SettledText

/-!
# Where characters stand once comments are gone

The characters before an offset that stay are counted, and the count is the offset from which the
rest of the text is found again in the text without comments. A stretch outside comments is found
there character by character, so string and template literals come through whole, and the brace depth
at the two offsets is the same.
-/

namespace SetupScript

/-- The offset in the text without comments of what stands at or after an offset of the text. -/
def Scan.offsetKept (scan : Scan) (offset : Nat) : Nat := (bareCells (scan.cells.take offset)).length

/-- The cells of a text without its comments are those that stay. -/
theorem cells_withoutComments (t : Text) :
    (Scan.ofText (Scan.ofText t).withoutComments).cells = bareCells (Scan.ofText t).cells := by
  rw [withoutComments_ofText]
  exact (readsBare .code t).1

/-- The cells that stay belong to no comment. -/
theorem isComment_of_mem_bareCells {cells : List Cell} {cell : Cell} (h : cell ∈ bareCells cells) :
    cell.mode.isComment = false := by
  obtain ⟨source, -, rfl⟩ := List.mem_map.mp h
  unfold Cell.bared
  split
  · rfl
  · next hmode => simpa using hmode

/-- Cells outside comments all stay as they are. -/
theorem bareCells_of_no_comment {cells : List Cell}
    (h : ∀ cell ∈ cells, cell.mode.isComment = false) : bareCells cells = cells := by
  induction cells with
  | nil => rfl
  | cons cell rest ih =>
    obtain ⟨hcell, hrest⟩ := List.forall_mem_cons.mp h
    rw [bareCells_cons_of_not_comment hcell, ih hrest]

/-- The cells that stay are those that stay before an offset, and then those after it. -/
theorem take_drop_bareCells (scan : Scan) (offset : Nat) :
    (bareCells scan.cells).take (scan.offsetKept offset) = bareCells (scan.cells.take offset) ∧
      (bareCells scan.cells).drop (scan.offsetKept offset) = bareCells (scan.cells.drop offset) := by
  have hsplit : bareCells scan.cells =
      bareCells (scan.cells.take offset) ++ bareCells (scan.cells.drop offset) := by
    rw [← bareCells_append, List.take_append_drop]
  rw [hsplit, Scan.offsetKept]
  exact ⟨List.take_left, List.drop_left⟩

/-- A stretch outside comments stands whole among the cells that stay. -/
theorem take_bareCells_of_no_comment {cells : List Cell} {width : Nat}
    (h : ∀ cell ∈ cells.take width, cell.mode.isComment = false) :
    (bareCells cells).take width = cells.take width := by
  have hsplit : bareCells cells = cells.take width ++ bareCells (cells.drop width) := by
    conv_lhs => rw [← List.take_append_drop width cells, bareCells_append, bareCells_of_no_comment h]
  by_cases hwidth : width ≤ cells.length
  · rw [hsplit, List.take_left' (List.length_take_of_le hwidth)]
  · have hend : cells.drop width = [] := List.drop_eq_nil_of_le (by omega)
    rw [hsplit, hend, show bareCells [] = [] from rfl, List.append_nil, List.take_take, Nat.min_self]

/-- The brace depth at an offset is that at the offset where its text is found again. -/
theorem depthAt_offsetKept (t : Text) {offset : Nat} (h : offset ≤ t.length) :
    (Scan.ofText (Scan.ofText t).withoutComments).depthAt ((Scan.ofText t).offsetKept offset) =
      (Scan.ofText t).depthAt offset := by
  have hkept : (Scan.ofText t).offsetKept offset ≤ (Scan.ofText t).withoutComments.length := by
    rw [← Scan.text_ofText (Scan.ofText t).withoutComments, Scan.text, cells_withoutComments,
      List.length_map, Scan.offsetKept, ← (take_drop_bareCells (Scan.ofText t) offset).1]
    exact List.length_take_le' _ _
  rw [Scan.depthAt_ofText hkept, Scan.depthAt_ofText h, cells_withoutComments, (take_drop_bareCells _ offset).1,
    (depthsFrom_bareCells 0 _).2]

/-- Line breaks stay. -/
theorem count_break_withoutComments (t : Text) :
    (Scan.ofText t).withoutComments.count '\n' = t.count '\n' := by
  have hstays : ∀ cell : Cell, (cell.char == '\n' && (!cell.mode.isComment || cell.char == '\n')) =
      (cell.char == '\n') := by
    intro cell
    cases cell.char == '\n' <;> simp
  conv_rhs => rw [← Scan.text_ofText t]
  rw [Scan.withoutComments, Scan.text, List.count_eq_countP, List.count_eq_countP, List.countP_map,
    List.countP_map, List.countP_filter]
  refine List.countP_congr fun cell _ => ?_
  simp only [Function.comp_apply, hstays]

/-- Taking the comments out of a text is lexically faithful. The characters that stay keep their
modes, the line breaks of comments become code, and no comment is left or arises, so doing it twice
changes nothing more. Every stretch of a text outside its comments is found again whole and in its
modes, in particular every string and template literal; line breaks are equally many, and the brace
depth at an offset is that where its text is found again. -/
theorem comments_removed_faithfully (t : Text) :
    let source := Scan.ofText t
    let bare := Scan.ofText source.withoutComments
    (bare.modes = (source.cells.filter fun cell => !cell.mode.isComment || cell.char == '\n').map
      fun cell => if cell.mode.isComment then .code else cell.mode) ∧
    (∀ mode ∈ bare.modes, mode.isComment = false) ∧
    bare.withoutComments = source.withoutComments ∧
    (∀ start width, (∀ cell ∈ (source.cells.drop start).take width, cell.mode.isComment = false) →
      (bare.cells.drop (source.offsetKept start)).take width =
        (source.cells.drop start).take width) ∧
    source.withoutComments.count '\n' = t.count '\n' ∧
    ∀ offset ≤ t.length, bare.depthAt (source.offsetKept offset) = source.depthAt offset := by
  intro source bare
  have hcells : bare.cells = bareCells source.cells := cells_withoutComments t
  refine ⟨?_, ?_, ?_, ?_, count_break_withoutComments t, fun offset => depthAt_offsetKept t⟩
  · rw [Scan.modes, hcells, bareCells, List.map_map]
    refine List.map_congr_left fun cell _ => ?_
    simp only [Function.comp_apply, Cell.bared]
    split <;> rfl
  · intro mode hmode
    obtain ⟨cell, hcell, rfl⟩ := List.mem_map.mp hmode
    rw [hcells] at hcell
    exact isComment_of_mem_bareCells hcell
  · have hbare : bareCells bare.cells = bare.cells := by
      rw [hcells]
      exact bareCells_of_no_comment fun cell => isComment_of_mem_bareCells
    calc bare.withoutComments
        = (bareCells bare.cells).map Cell.char := withoutComments_ofText _
      _ = bare.text := by rw [hbare, Scan.text]
      _ = source.withoutComments := Scan.text_ofText _
  · intro start width hstretch
    rw [hcells, (take_drop_bareCells source start).2, take_bareCells_of_no_comment hstretch]

/-- A string between two comments, the first of them over two lines and the second left open. -/
theorem comments_removed_around_string :
    let source := Scan.ofText "\x7b/*\n*/'//'/*\x7d"
    let bare := Scan.ofText source.withoutComments
    source.offsetKept 6 = 2 ∧ (∀ cell ∈ (source.cells.drop 6).take 4, cell.mode.isComment = false) ∧
      (bare.cells.drop (source.offsetKept 6)).take 4 = (source.cells.drop 6).take 4 ∧
      bare.depthAt (source.offsetKept 13) = source.depthAt 13 := by
  intro source bare
  have hstring : source.offsetKept 6 = 2 ∧
      ∀ cell ∈ (source.cells.drop 6).take 4, cell.mode.isComment = false := by decide +kernel
  have hfaithful := comments_removed_faithfully "\x7b/*\n*/'//'/*\x7d"
  exact ⟨hstring.1, hstring.2, hfaithful.2.2.2.1 6 4 hstring.2,
    hfaithful.2.2.2.2.2 13 (by decide)⟩

end SetupScript
