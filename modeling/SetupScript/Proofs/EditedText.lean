import SetupScript.Proofs.BalancedRegions
import SetupScript.Proofs.EditRanges

/-!
# The text that edits leave

Applying edits in order copies the text up to the next edit, puts the replacement, and goes on after
the range. The position of such a run is described here by the edits that are still to come: they
start at or after it, one after the other, and every other edit ends before it.
-/

namespace SetupScript

namespace EditList

variable {source : Text} {edits rest : EditList} {edit : Edit} {pos k : Nat}

/-- A run over a source with the given edits has come to an offset, with these still to come. -/
structure RunsAt (source : Text) (edits : EditList) (pos : Nat) (rest : EditList) : Prop where
  /-- What is still to come belongs to the edits, in order. -/
  mem : ∀ edit ∈ rest, edit ∈ edits
  ordered : rest.Pairwise fun a b => a.stop < b.start
  /-- It starts at the offset or later. -/
  ahead : ∀ edit ∈ rest, (pos : Int) ≤ edit.start
  /-- All other edits are over. -/
  done : ∀ edit ∈ edits, edit ∈ rest ∨ edit.stop < pos
  /-- The offset lies in the source. -/
  inside : pos ≤ source.length

/-- Where the run comes to the next edit, or to the end of the source. -/
def nextStart (source : Text) : EditList → Nat
  | [] => source.length
  | edit :: _ => edit.start.toNat

/-- A run over valid edits begins before all of them. -/
theorem Valid.runsAt (h : edits.Valid (Scan.ofText source)) :
    RunsAt source edits 0 (edits.mergeSort fun a b => a.start ≤ b.start) where
  mem _ hedit := List.mem_mergeSort.mp hedit
  ordered := h.pairwise_mergeSort
  ahead edit hedit := (h.within edit (List.mem_mergeSort.mp hedit)).nonneg
  done _ hedit := .inl (List.mem_mergeSort.mpr hedit)
  inside := Nat.zero_le _

/-- The offsets of a valid edit, as natural numbers inside the source. -/
theorem Valid.offsets (h : edits.Valid (Scan.ofText source)) (hedit : edit ∈ edits) :
    ∃ start stop : Nat, edit.start = start ∧ edit.stop = stop ∧ start ≤ stop ∧ stop < source.length := by
  have hwithin := h.within edit hedit
  have hnonneg := hwithin.nonneg
  have hordered := hwithin.ordered
  have hinside := hwithin.inside
  rw [Scan.ofText, length_labelFrom] at hinside
  exact ⟨edit.start.toNat, edit.stop.toNat, by omega, by omega, by omega, by omega⟩

/-- A valid edit starts at a character that is code. -/
theorem Valid.cell_start (h : edits.Valid (Scan.ofText source)) (hedit : edit ∈ edits) {start : Nat}
    (hstart : edit.start = start) : ∃ c, (labelFrom .code source)[start]? = some ⟨c, .code⟩ := by
  have hcode := (h.within edit hedit).code
  rw [hstart, Scan.isCodeAt, Bool.and_eq_true, Int.toNat_natCast] at hcode
  exact Scan.cell_of_isCode hcode.2

namespace RunsAt

/-- The offsets of the next edit. -/
theorem first (h : RunsAt source edits pos (edit :: rest)) (hvalid : edits.Valid (Scan.ofText source)) :
    ∃ start stop : Nat, edit.start = start ∧ edit.stop = stop ∧ pos ≤ start ∧ start ≤ stop ∧
      stop < source.length ∧ nextStart source (edit :: rest) = start := by
  obtain ⟨start, stop, hstart, hstop, hle, hlt⟩ := hvalid.offsets (h.mem edit (List.mem_cons_self ..))
  have hahead := h.ahead edit (List.mem_cons_self ..)
  refine ⟨start, stop, hstart, hstop, by omega, hle, hlt, ?_⟩
  rw [nextStart, hstart, Int.toNat_natCast]

/-- The next edit starts in the source, at the offset or later. -/
theorem le_nextStart (h : RunsAt source edits pos rest) (hvalid : edits.Valid (Scan.ofText source)) :
    pos ≤ nextStart source rest ∧ nextStart source rest ≤ source.length := by
  cases rest with
  | nil => exact ⟨h.inside, Nat.le_refl _⟩
  | cons next more =>
    obtain ⟨start, stop, -, -, hpos, hle, hlt, hnext⟩ := h.first hvalid
    omega

/-- The run moves on up to the next edit. -/
theorem move (h : RunsAt source edits pos rest) (hpos : pos ≤ k) (hk : k ≤ nextStart source rest)
    (hvalid : edits.Valid (Scan.ofText source)) : RunsAt source edits k rest := by
  refine ⟨h.mem, h.ordered, ?_, fun edit hedit => (h.done edit hedit).imp_right (by omega),
    Nat.le_trans hk (h.le_nextStart hvalid).2⟩
  cases rest with
  | nil => simp
  | cons next more =>
    obtain ⟨start, stop, hstart, hstop, -, hle, -, hnext⟩ := h.first hvalid
    intro edit hedit
    rcases List.mem_cons.mp hedit with rfl | hedit
    · omega
    · have hlater := (List.pairwise_cons.mp h.ordered).1 edit hedit
      omega

/-- The run moves on past the next edit. -/
theorem next {start stop : Nat} (h : RunsAt source edits pos (edit :: rest)) (hstart : edit.start = start)
    (hstop : edit.stop = stop) (hordered : start ≤ stop) (hinside : stop < source.length) :
    RunsAt source edits (stop + 1) rest := by
  obtain ⟨hfirst, hrest⟩ := List.pairwise_cons.mp h.ordered
  refine ⟨fun other hother => h.mem other (List.mem_cons_of_mem _ hother), hrest,
    fun other hother => ?_, fun other hother => ?_, by omega⟩
  · have hlater := hfirst other hother
    omega
  · have hahead := h.ahead edit (List.mem_cons_self ..)
    rcases h.done other hother with hmem | hover
    · rcases List.mem_cons.mp hmem with rfl | hmem
      · exact .inr (by omega)
      · exact .inl hmem
    · exact .inr (by omega)

/-- No edit ends or lies between the offset and the next edit. -/
theorem free (h : RunsAt source edits pos rest) (hvalid : edits.Valid (Scan.ofText source))
    (hpos : pos ≤ k) (hk : k < nextStart source rest) :
    edits.covers k = false ∧ ∀ edit ∈ edits, edit.stop ≤ k → edit.stop < pos := by
  have hahead : ∀ edit ∈ rest, (k : Int) < edit.start := by
    intro edit hedit
    have hmoved := (h.move (Nat.le_succ_of_le hpos) hk hvalid).ahead edit hedit
    omega
  refine ⟨covers_eq_false.mpr fun edit hedit => ?_, fun edit hedit hstop => ?_⟩
  · rcases h.done edit hedit with hmem | hover
    · have hlt := hahead edit hmem
      omega
    · omega
  · rcases h.done edit hedit with hmem | hover
    · have hlt := hahead edit hmem
      have hordered := (hvalid.within edit hedit).ordered
      omega
    · exact hover

end RunsAt

/-! ## Applying edits -/

/-- The source is copied up to the next edit. -/
theorem applyFrom_gap (h : RunsAt source edits pos rest) (hvalid : edits.Valid (Scan.ofText source))
    (hpos : pos ≤ k) (hk : k ≤ nextStart source rest) :
    applyFrom source pos rest = (source.drop pos).take (k - pos) ++ applyFrom source k rest := by
  have hcut (stop : Nat) (hstop : k ≤ stop) : source.slice pos stop =
      (source.drop pos).take (k - pos) ++ source.slice k stop := by
    have hsum : stop - pos = (k - pos) + (stop - k) := by omega
    rw [Text.slice_natCast, Text.slice_natCast, hsum, List.take_add, List.drop_drop,
      Nat.add_sub_of_le hpos]
  cases rest with
  | nil => exact hcut source.length hk
  | cons next more =>
    obtain ⟨start, -, hstart, -, -, -, -, hnext⟩ := h.first hvalid
    rw [applyFrom, applyFrom, hstart, hcut start (by omega)]
    simp only [List.append_assoc]

/-- At the next edit its replacement is put, and the run goes on after its range. -/
theorem applyFrom_edit {start stop : Nat} (hstart : edit.start = start) (hstop : edit.stop = stop) :
    applyFrom source start (edit :: rest) =
      edit.replacement ++ applyFrom source (stop + 1 : Nat) rest := by
  rw [applyFrom, hstart, hstop, Text.slice_natCast]
  simp

end EditList

end SetupScript
