import Mathlib.Data.List.Basic
import SetupScript.Edit
import SetupScript.Proofs.ScanComposition

/-!
# The ranges of recorded edits

An edit list is valid for a scanned text when its ranges lie in the text, start in code and share no
offset. An edit that is accepted keeps a valid list valid, and one is refused only when its range
meets a recorded one.
-/

namespace SetupScript

/-- The ranges of the two edits share no offset. -/
def Edit.Apart (a b : Edit) : Prop := a.stop < b.start ∨ b.stop < a.start

/-- The range of an edit lies in the scanned text and starts in code. -/
structure Edit.Within (scan : Scan) (edit : Edit) : Prop where
  nonneg : 0 ≤ edit.start
  ordered : edit.start ≤ edit.stop
  inside : edit.stop < scan.cells.length
  code : scan.isCodeAt edit.start

/-- To start no later than another edit is transitive. -/
theorem Edit.start_le_trans (a b c : Edit) (hab : decide (a.start ≤ b.start) = true)
    (hbc : decide (b.start ≤ c.start) = true) : decide (a.start ≤ c.start) = true := by
  simp only [decide_eq_true_eq] at hab hbc ⊢
  omega

/-- Of two edits one starts no later than the other. -/
theorem Edit.start_le_total (a b : Edit) :
    (decide (a.start ≤ b.start) || decide (b.start ≤ a.start)) = true := by
  simp only [Bool.or_eq_true, decide_eq_true_eq]
  omega

namespace EditList

/-- All ranges lie in the scanned text, start in code and share no offset. -/
structure Valid (scan : Scan) (edits : EditList) : Prop where
  within : ∀ edit ∈ edits, edit.Within scan
  apart : edits.Pairwise Edit.Apart

variable {edits : EditList} {start stop : Int}

/-- A range overlaps none of the recorded edits when it is apart from each. -/
theorem overlaps_eq_false {replacement : Text} :
    edits.overlaps start stop = false ↔
      ∀ edit ∈ edits, Edit.Apart edit ⟨start, stop, replacement⟩ := by
  simp only [overlaps, List.any_eq_false, Bool.and_eq_true, decide_eq_true_eq, Edit.Apart]
  exact forall₂_congr fun edit _ => by omega

/-- A range meets a recorded edit when the two share an offset. -/
theorem overlaps_eq_true :
    edits.overlaps start stop ↔ ∃ edit ∈ edits, start ≤ edit.stop ∧ edit.start ≤ stop := by
  simp [overlaps]

/-- An offset is free when no recorded range holds it. -/
theorem covers_eq_false {offset : Int} :
    edits.covers offset = false ↔ ∀ edit ∈ edits, ¬ (edit.start ≤ offset ∧ offset ≤ edit.stop) := by
  simp [covers]

/-- An offset is taken when a recorded range holds it. -/
theorem covers_eq_true {offset : Int} :
    edits.covers offset ↔ ∃ edit ∈ edits, edit.start ≤ offset ∧ offset ≤ edit.stop := by
  simp [covers]

/-- The offsets of a recorded range are taken. -/
theorem covers_of_mem {edit : Edit} {offset : Int} (hedit : edit ∈ edits) (hstart : edit.start ≤ offset)
    (hstop : offset ≤ edit.stop) : edits.covers offset = true :=
  covers_eq_true.mpr ⟨edit, hedit, hstart, hstop⟩

/-- A later edit takes the offsets of its own range only. -/
theorem covers_append (edits : EditList) (edit : Edit) (offset : Int) :
    EditList.covers (edits ++ [edit]) offset =
      (edits.covers offset || (edit.start ≤ offset && offset ≤ edit.stop)) := by
  simp [covers]

/-- A later edit overlaps what meets its own range only. -/
theorem overlaps_append (edits : EditList) (edit : Edit) (start stop : Int) :
    EditList.overlaps (edits ++ [edit]) start stop =
      (edits.overlaps start stop || (start ≤ edit.stop && edit.start ≤ stop)) := by
  simp [overlaps]

/-- One more edit whose range is apart from the others. -/
theorem Valid.append {scan : Scan} {replacement : Text} (h : Valid scan edits)
    (hwithin : Edit.Within scan ⟨start, stop, replacement⟩)
    (hfree : edits.overlaps start stop = false) :
    Valid scan (edits ++ [⟨start, stop, replacement⟩]) := by
  refine ⟨fun edit hedit => ?_, List.pairwise_append.mpr ⟨h.apart, by simp, ?_⟩⟩
  · rcases List.mem_append.mp hedit with hold | hnew
    · exact h.within edit hold
    · rw [List.mem_singleton.mp hnew]
      exact hwithin
  · intro edit hedit new hnew
    rw [List.mem_singleton.mp hnew]
    exact overlaps_eq_false.mp hfree edit hedit

/-- Edits are applied in the order of their starts. -/
theorem pairwise_start (edits : EditList) :
    (edits.mergeSort fun a b => a.start ≤ b.start).Pairwise fun a b => a.start ≤ b.start := by
  simpa using List.pairwise_mergeSort Edit.start_le_trans Edit.start_le_total edits

/-- In the order of their starts, edits with ranges apart come one after the other. -/
theorem pairwise_mergeSort_of_apart (hordered : ∀ edit ∈ edits, edit.start ≤ edit.stop)
    (hapart : edits.Pairwise Edit.Apart) :
    (edits.mergeSort fun a b => a.start ≤ b.start).Pairwise fun a b => a.stop < b.start := by
  have hsorted : (edits.mergeSort fun a b => a.start ≤ b.start).Pairwise Edit.Apart := by
    refine ((List.mergeSort_perm edits _).pairwise_iff fun hab => ?_).mpr hapart
    exact hab.symm
  refine (edits.pairwise_start.and hsorted).imp_of_mem fun {a b} ha hb hab => ?_
  have hrange := hordered b (List.mem_mergeSort.mp hb)
  rcases hab with ⟨hle, hlt | hlt⟩
  · exact hlt
  · omega

/-- Valid edits in the order of their starts come one after the other. -/
theorem Valid.pairwise_mergeSort {scan : Scan} (h : Valid scan edits) :
    (edits.mergeSort fun a b => a.start ≤ b.start).Pairwise fun a b => a.stop < b.start :=
  pairwise_mergeSort_of_apart (fun edit hedit => (h.within edit hedit).ordered) h.apart

end EditList

end SetupScript
