import Mathlib.Data.List.Pairwise
import SetupScript.Proofs.BalancedRegions
import SetupScript.Proofs.EditRanges

/-!
# Edits as replacements made together

Edits are added one by one, and one that shares an offset with a recorded edit is refused. What is
recorded is therefore apart. Applying it in one pass gives the text that results from replacing one
range after the other, as long as the last range comes first: a replacement moves what stands after
it, and nothing that is still to be replaced stands there. The order in which the edits were added
plays no part.
-/

namespace SetupScript

namespace Edit

/-- The offset lies in the range of the edit. -/
def Holds (edit : Edit) (offset : Int) : Prop := edit.start ≤ offset ∧ offset ≤ edit.stop

/-- The range of the edit is a stretch of the text. -/
structure InText (text : Text) (edit : Edit) : Prop where
  nonneg : 0 ≤ edit.start
  ordered : edit.start ≤ edit.stop
  inside : edit.stop < text.length

instance (text : Text) (edit : Edit) : Decidable (edit.InText text) :=
  decidable_of_iff (0 ≤ edit.start ∧ edit.start ≤ edit.stop ∧ edit.stop < text.length)
    ⟨fun h => ⟨h.1, h.2.1, h.2.2⟩, fun h => ⟨h.nonneg, h.ordered, h.inside⟩⟩

/-- The text with its range replaced. -/
def splice (edit : Edit) (text : Text) : Text :=
  text.slice 0 edit.start ++ edit.replacement ++ text.slice (edit.stop + 1) text.length

variable {a b : Edit}

/-- Ranges are apart when they share no offset. -/
theorem apart_iff_not_share (ha : a.start ≤ a.stop) (hb : b.start ≤ b.stop) :
    a.Apart b ↔ ¬ ∃ offset, a.Holds offset ∧ b.Holds offset := by
  constructor
  · rintro hapart ⟨offset, ⟨hle, hle'⟩, hge, hge'⟩
    rcases hapart with hlt | hlt <;> omega
  · intro hnone
    by_contra hmeet
    simp only [Apart, not_or, Int.not_lt] at hmeet
    -- the greater of the two starts lies in both ranges
    refine hnone ⟨max a.start b.start, ⟨?_, ?_⟩, ?_, ?_⟩ <;> omega

instance : Std.Symm Apart := ⟨fun _ _ h => Or.symm h⟩

end Edit

namespace EditList

variable {edits : EditList} {source : Text}

/-- Ask for one more edit. The list stays as it is where the edit is refused. -/
def attempt (edits : EditList) (edit : Edit) : EditList :=
  match edits.add edit.start edit.stop edit.replacement with
  | .ok next => next
  | .error _ => edits

/-- What is recorded after a sequence of such requests. -/
def attemptAll (requests : List Edit) : EditList := requests.foldl attempt []

/-- Add edits one after the other, all of them. -/
def addAll (edits : List Edit) : Except Overlap EditList :=
  edits.foldlM (fun known edit => EditList.add known edit.start edit.stop edit.replacement) []

/-! ## Recording -/

/-- An edit is accepted when it is apart from all that are recorded. -/
theorem add_of_apart {edit : Edit} (h : ∀ other ∈ edits, other.Apart edit) :
    edits.add edit.start edit.stop edit.replacement = .ok (edits ++ [edit]) := by
  have hfree : edits.overlaps edit.start edit.stop = false := overlaps_eq_false.mpr h
  rw [add, hfree]
  rfl

/-- An edit is refused otherwise. -/
theorem add_of_not_apart {edit : Edit} (h : ¬ ∀ other ∈ edits, other.Apart edit) :
    edits.add edit.start edit.stop edit.replacement = .error ⟨edit.start, edit.stop⟩ := by
  have hmeets : edits.overlaps edit.start edit.stop = true := by
    by_contra hfree
    exact h (overlaps_eq_false.mp (Bool.eq_false_iff.mpr hfree))
  rw [add, if_pos hmeets]

/-- So an edit is refused just when it is not apart from some recorded one. -/
theorem add_refused_iff {edit : Edit} :
    (∃ range, edits.add edit.start edit.stop edit.replacement = .error range) ↔
      ∃ other ∈ edits, ¬ other.Apart edit := by
  constructor
  · rintro ⟨range, hrefused⟩
    by_contra hnone
    have hapart : ∀ other ∈ edits, other.Apart edit := by simpa using hnone
    rw [add_of_apart hapart] at hrefused
    cases hrefused
  · rintro ⟨other, hother, hmeets⟩
    exact ⟨_, add_of_not_apart fun hapart => hmeets (hapart other hother)⟩

/-- A refused edit changes nothing. -/
theorem attempt_of_refused {edit : Edit} {range : Overlap}
    (h : edits.add edit.start edit.stop edit.replacement = .error range) : edits.attempt edit = edits := by
  rw [attempt, h]

/-- An edit that is not refused comes last. -/
theorem add_of_not_refused {edit : Edit}
    (h : ¬ ∃ range, edits.add edit.start edit.stop edit.replacement = .error range) :
    edits.add edit.start edit.stop edit.replacement = .ok (edits ++ [edit]) ∧
      edits.attempt edit = edits ++ [edit] := by
  rw [add_refused_iff] at h
  have hapart : ∀ other ∈ edits, other.Apart edit := by simpa using h
  have hadded : edits.add edit.start edit.stop edit.replacement = .ok (edits ++ [edit]) :=
    add_of_apart hapart
  exact ⟨hadded, by rw [attempt, hadded]⟩

/-- A request leaves the list as it is or adds an edit that is apart. -/
theorem attempt_cases (edits : EditList) (edit : Edit) :
    (∀ other ∈ edits, other.Apart edit) ∧ edits.attempt edit = edits ++ [edit] ∨
      (¬ ∀ other ∈ edits, other.Apart edit) ∧ edits.attempt edit = edits := by
  by_cases h : ∀ other ∈ edits, other.Apart edit
  · exact .inl ⟨h, by rw [attempt, add_of_apart h]⟩
  · exact .inr ⟨h, by rw [attempt, add_of_not_apart h]⟩

/-- Edits of the text with ranges apart. -/
structure Separate (source : Text) (edits : EditList) : Prop where
  inText : ∀ edit ∈ edits, edit.InText source
  apart : edits.Pairwise Edit.Apart

/-- A request for an edit of the text keeps what is recorded separate. -/
theorem Separate.attempt (h : Separate source edits) {edit : Edit} (hedit : edit.InText source) :
    Separate source (edits.attempt edit) := by
  rcases attempt_cases edits edit with ⟨hapart, hnext⟩ | ⟨-, hnext⟩
  · rw [hnext]
    refine ⟨List.forall_mem_append.mpr ⟨h.inText, List.forall_mem_singleton.mpr hedit⟩,
      List.pairwise_append.mpr ⟨h.apart, List.pairwise_singleton .., fun other hother new hnew => ?_⟩⟩
    rw [List.mem_singleton.mp hnew]
    exact hapart other hother
  · rw [hnext]
    exact h

/-- After any sequence of requests for edits of the text, what is recorded is separate. -/
theorem separate_attemptAll {requests : List Edit} (h : ∀ edit ∈ requests, edit.InText source) :
    Separate source (attemptAll requests) := by
  suffices hfold : ∀ known, Separate source known → Separate source (requests.foldl EditList.attempt known) from
    hfold [] ⟨by simp, List.Pairwise.nil⟩
  induction requests with
  | nil => exact fun known hknown => hknown
  | cons edit rest ih =>
    obtain ⟨hedit, hrest⟩ := List.forall_mem_cons.mp h
    exact fun known hknown => ih hrest _ (hknown.attempt hedit)

/-- Edits that are apart can be added in the order in which they stand. -/
theorem addAll_of_apart (h : edits.Pairwise Edit.Apart) : addAll edits = .ok edits := by
  suffices hfold : ∀ known : EditList, (known ++ edits).Pairwise Edit.Apart →
      edits.foldlM (fun known edit => EditList.add known edit.start edit.stop edit.replacement) known =
        .ok (known ++ edits) from hfold [] h
  clear h
  induction edits with
  | nil => exact fun known _ => by rw [List.append_nil]; rfl
  | cons edit rest ih =>
    intro known hapart
    have hfree : ∀ other ∈ known, other.Apart edit := fun other hother =>
      (List.pairwise_append.mp hapart).2.2 other hother edit List.mem_cons_self
    rw [List.append_cons] at hapart ⊢
    rw [List.foldlM_cons, add_of_apart hfree]
    exact ih _ hapart

/-! ## Applying -/

/-- Two separate edits that start together are one. -/
theorem Separate.eq_of_start_eq (h : Separate source edits) {a b : Edit} (ha : a ∈ edits) (hb : b ∈ edits)
    (hstart : a.start = b.start) : a = b := by
  by_contra hne
  have hordered := (h.inText a ha).ordered
  have hordered' := (h.inText b hb).ordered
  rcases h.apart.forall ha hb hne with hlt | hlt <;> omega

/-- Separate edits have one order by their starts. -/
theorem Separate.eq_of_sorted (h : Separate source edits) {l l' : List Edit} (hl : l.Perm edits)
    (hl' : l'.Perm edits) (hsorted : l.Pairwise fun a b => a.start ≤ b.start)
    (hsorted' : l'.Pairwise fun a b => a.start ≤ b.start) : l = l' := by
  refine List.Perm.eq_of_pairwise (fun a b ha hb hab hba => ?_) hsorted hsorted' (hl.trans hl'.symm)
  exact h.eq_of_start_eq (hl.mem_iff.mp ha) (hl'.mem_iff.mp hb) (Int.le_antisymm hab hba)

/-- Separate edits are apart in any order. -/
theorem Separate.perm (h : Separate source edits) {order : EditList} (horder : order.Perm edits) :
    Separate source order :=
  ⟨fun edit hedit => h.inText edit (horder.mem_iff.mp hedit),
    (horder.pairwise_iff fun hab => Std.Symm.symm _ _ hab).mpr h.apart⟩

/-- They are applied one after the other. -/
theorem Separate.pairwise_mergeSort (h : Separate source edits) :
    (edits.mergeSort fun a b => a.start ≤ b.start).Pairwise fun a b => a.stop < b.start :=
  pairwise_mergeSort_of_apart (fun edit hedit => (h.inText edit hedit).ordered) h.apart

/-- The order in which separate edits were added does not matter. -/
theorem Separate.apply_perm (h : Separate source edits) {order : EditList} (horder : order.Perm edits) :
    order.apply source = edits.apply source := by
  have hsorted := h.eq_of_sorted ((List.mergeSort_perm _ _).trans horder) (List.mergeSort_perm _ _)
    order.pairwise_start edits.pairwise_start
  rw [apply, apply, hsorted]

/-- The edits from the greatest start to the least. -/
def fromLast (edits : EditList) : List Edit := edits.mergeSort fun a b => b.start ≤ a.start

/-- That order is the reverse of the one in which edits are applied. -/
theorem Separate.fromLast_eq (h : Separate source edits) :
    edits.fromLast = (edits.mergeSort fun a b => a.start ≤ b.start).reverse := by
  have hdown : edits.fromLast.Pairwise fun a b => decide (b.start ≤ a.start) = true :=
    List.pairwise_mergeSort (fun a b c hab hbc => Edit.start_le_trans c b a hbc hab)
      (fun a b => Edit.start_le_total b a) edits
  rw [← List.reverse_reverse edits.fromLast]
  refine congrArg List.reverse (h.eq_of_sorted ?_ (List.mergeSort_perm _ _) ?_ ?_)
  · exact (List.reverse_perm _).trans (List.mergeSort_perm _ _)
  · simpa [List.pairwise_reverse] using hdown
  · exact edits.pairwise_start

/-- An edit leaves what stands before it as it is, and takes the place of its range. -/
theorem splice_take_append {edit : Edit} {start stop : Nat} (hstart : edit.start = start)
    (hstop : edit.stop = stop) (hordered : start ≤ stop) (hinside : stop < source.length) (tail : Text) :
    edit.splice (source.take (stop + 1) ++ tail) = source.take start ++ edit.replacement ++ tail := by
  have hlength : (source.take (stop + 1)).length = stop + 1 := List.length_take_of_le hinside
  have hfront : Text.slice (source.take (stop + 1) ++ tail) 0 edit.start = source.take start := by
    rw [hstart, show (0 : Int) = (0 : Nat) from rfl, Text.slice_natCast, List.drop_zero, Nat.sub_zero,
      List.take_append_of_le_length (by omega), List.take_take, Nat.min_eq_left (by omega)]
  have hback : Text.slice (source.take (stop + 1) ++ tail) (edit.stop + 1)
      (source.take (stop + 1) ++ tail).length = tail := by
    rw [hstop, show ((stop : Int) + 1) = (stop + 1 : Nat) from rfl, Text.slice_natCast,
      List.drop_left' hlength, List.length_append, hlength, Nat.add_sub_cancel_left, List.take_length]
  rw [Edit.splice, hfront, hback]

/-- One pass over edits that come one after the other is the same as replacing their ranges from the
last to the first. -/
theorem take_append_applyFrom {rest : List Edit} (hin : ∀ edit ∈ rest, edit.InText source)
    (hrun : rest.Pairwise fun a b => a.stop < b.start) (pos : Nat)
    (hahead : ∀ edit ∈ rest, (pos : Int) ≤ edit.start) :
    source.take pos ++ applyFrom source pos rest = rest.foldr Edit.splice source := by
  induction rest generalizing pos with
  | nil =>
    rw [applyFrom, Text.slice_natCast, ← List.length_drop, List.take_length, List.take_append_drop]
    rfl
  | cons edit rest ih =>
    obtain ⟨hedit, hin⟩ := List.forall_mem_cons.mp hin
    obtain ⟨hnext, hrun⟩ := List.pairwise_cons.mp hrun
    have hfirst := hahead edit List.mem_cons_self
    obtain ⟨start, hstart⟩ := Int.eq_ofNat_of_zero_le hedit.nonneg
    obtain ⟨stop, hstop⟩ := Int.eq_ofNat_of_zero_le (Int.le_trans hedit.nonneg hedit.ordered)
    have hordered : start ≤ stop := by have := hedit.ordered; omega
    have hinside : stop < source.length := by have := hedit.inside; omega
    have hle : pos ≤ start := by omega
    have hbehind : ∀ other ∈ rest, ((stop + 1 : Nat) : Int) ≤ other.start := by
      intro other hother
      have := hnext other hother
      omega
    have hlater := ih hin hrun (stop + 1) hbehind
    have hgap : source.take pos ++ source.slice pos edit.start = source.take start := by
      have hsum : start = pos + (start - pos) := by omega
      rw [hstart, Text.slice_natCast]
      conv_rhs => rw [hsum, List.take_add]
    rw [List.foldr_cons, ← hlater, splice_take_append hstart hstop hordered hinside, applyFrom, ← hgap, hstop]
    simp only [List.append_assoc]
    rfl

/-- Applying separate edits is replacing their ranges one at a time, the last one first. -/
theorem Separate.apply_eq (h : Separate source edits) :
    edits.apply source = edits.fromLast.foldl (fun text edit => edit.splice text) source := by
  rw [h.fromLast_eq, List.foldl_reverse]
  have hmem : ∀ edit ∈ edits.mergeSort fun a b => a.start ≤ b.start, edit.InText source :=
    fun edit hedit => h.inText edit (List.mem_mergeSort.mp hedit)
  exact take_append_applyFrom hmem h.pairwise_mergeSort 0 fun edit hedit => (hmem edit hedit).nonneg

end EditList

/-- Edits behave as replacements made together. After any requests for edits of a text, a further one is
refused just when it shares an offset with a recorded edit, and then nothing changes; one that is not
refused comes last in the list. So no two recorded edits share an offset. Applying them is the same as
replacing one range after the other from the greatest start to the least. Added in any other order they
are all accepted, and lead to the same text. -/
theorem edits_replace_together (source : Text) (requests : List Edit)
    (h : ∀ edit ∈ requests, edit.InText source) :
    let edits := EditList.attemptAll requests
    (∀ edit : Edit, edit.InText source →
      ((∃ range, edits.add edit.start edit.stop edit.replacement = .error range) ↔
        ∃ other ∈ edits, ∃ offset, other.Holds offset ∧ edit.Holds offset) ∧
      ((∃ range, edits.add edit.start edit.stop edit.replacement = .error range) →
        edits.attempt edit = edits) ∧
      ((¬ ∃ range, edits.add edit.start edit.stop edit.replacement = .error range) →
        edits.add edit.start edit.stop edit.replacement = .ok (edits ++ [edit]) ∧
          edits.attempt edit = edits ++ [edit])) ∧
    (edits.Pairwise fun a b => ¬ ∃ offset, a.Holds offset ∧ b.Holds offset) ∧
    edits.apply source = edits.fromLast.foldl (fun text edit => edit.splice text) source ∧
    ∀ order : EditList, order.Perm edits →
      EditList.addAll order = .ok order ∧ order.apply source = edits.apply source := by
  intro edits
  have hseparate : EditList.Separate source edits := EditList.separate_attemptAll h
  refine ⟨fun edit hedit => ⟨?_, fun hrefused => ?_, EditList.add_of_not_refused⟩, ?_, hseparate.apply_eq,
    fun order horder => ?_⟩
  · rw [EditList.add_refused_iff]
    refine exists_congr fun other => and_congr_right fun hother => ?_
    rw [Edit.apart_iff_not_share (hseparate.inText other hother).ordered hedit.ordered, not_not]
  · obtain ⟨range, hrange⟩ := hrefused
    exact EditList.attempt_of_refused hrange
  · refine hseparate.apart.imp_of_mem fun {a b} ha hb hapart => ?_
    exact (Edit.apart_iff_not_share (hseparate.inText a ha).ordered (hseparate.inText b hb).ordered).mp hapart
  · exact ⟨EditList.addAll_of_apart (hseparate.perm horder).apart, hseparate.apply_perm horder⟩

/-- Requests for edits at the end of a text, at its start, across that one and right after it. -/
def mixedRequests : List Edit := [⟨9, 10, "X"⟩, ⟨0, 2, []⟩, ⟨2, 5, "no"⟩, ⟨3, 3, "__"⟩]

/-- One of these requests is refused, and the others give the same text in any order. -/
theorem mixedRequests_replace_together :
    (∀ edit ∈ mixedRequests, edit.InText "abc def ghi") ∧
      EditList.attemptAll mixedRequests = [⟨9, 10, "X"⟩, ⟨0, 2, []⟩, ⟨3, 3, "__"⟩] ∧
      ∀ order : EditList, order.Perm (EditList.attemptAll mixedRequests) →
        order.apply "abc def ghi" = "__def gX" := by
  have hin : ∀ edit ∈ mixedRequests, edit.InText "abc def ghi" := by decide
  have hrecorded : EditList.attemptAll mixedRequests = [⟨9, 10, "X"⟩, ⟨0, 2, []⟩, ⟨3, 3, "__"⟩] := rfl
  obtain ⟨-, -, -, hperm⟩ := edits_replace_together "abc def ghi" mixedRequests hin
  refine ⟨hin, hrecorded, fun order horder => ?_⟩
  -- the edits in the order of their starts need no sorting
  let ranked : EditList := [⟨0, 2, []⟩, ⟨3, 3, "__"⟩, ⟨9, 10, "X"⟩]
  have hranked : ranked.Perm (EditList.attemptAll mixedRequests) := by
    rw [hrecorded]
    exact (List.perm_append_comm : ([⟨0, 2, []⟩, ⟨3, 3, "__"⟩] ++ [⟨9, 10, "X"⟩] : EditList).Perm _)
  have happly : ranked.apply "abc def ghi" = "__def gX" := by
    rw [EditList.apply, List.mergeSort_of_pairwise (by decide)]
    decide
  rw [(hperm order horder).2, ← (hperm ranked hranked).2, happly]

end SetupScript
