import SetupScript.MacroCall
import SetupScript.Proofs.BalancedRegions
import SetupScript.Proofs.SearchMatches

/-!
# The extent of a macro call

A call that is recognised starts with the name of its macro, in code. Its argument list opens after
blanks or after type arguments, and runs to the parenthesis that balances the opening one. What is
kept as its arguments is the text between the two parentheses.
-/

namespace SetupScript

/-! ## Where a name is called -/

/-- The cells that spell a name are taken off the front. -/
theorem spelled?_eq_some {name : Text} {cells after : List Cell}
    (h : spelled? name cells = some after) : cells.map Cell.char = name ++ after.map Cell.char := by
  induction name generalizing cells with
  | nil =>
    simp only [spelled?, Option.some.injEq] at h
    rw [h, List.nil_append]
  | cons c name ih =>
    cases cells with
    | nil => simp [spelled?] at h
    | cons cell rest =>
      simp only [spelled?] at h
      split at h
      · next hc => rw [List.map_cons, ih h, hc, List.cons_append]
      · cases h

/-- A call starts in code and with its name. -/
theorem callHere_eq_true {name : Text} {before : Option Char} {cells : List Cell}
    (h : callHere name before cells) :
    cells[0]?.any Cell.isCode ∧ name <+: cells.map Cell.char := by
  cases cells with
  | nil => simp [callHere] at h
  | cons cell rest =>
    simp only [callHere, Bool.and_eq_true] at h
    obtain ⟨hcode, hname⟩ := h
    split at hname
    · cases hname
    · next after hafter => exact ⟨by simpa using hcode, _, (spelled?_eq_some hafter).symm⟩

/-- The character before an offset, given the one before the cells. -/
def charBefore (before : Option Char) (cells : List Cell) : Nat → Option Char
  | 0 => before
  | k + 1 => cells[k]?.map Cell.char

/-- The offsets of calls, in cells that start at offset `pos`, are those where a call stands. -/
theorem mem_callOffsetsFrom {name : Text} {before : Option Char} {pos p : Nat} {cells : List Cell} :
    p ∈ callOffsetsFrom name before pos cells ↔
      ∃ k, p = pos + k ∧ callHere name (charBefore before cells k) (cells.drop k) := by
  induction cells generalizing before pos with
  | nil => simp [callOffsetsFrom, callHere]
  | cons cell rest ih =>
    -- the offsets past the first cell are those of the rest, one further on
    have hlater : p ∈ callOffsetsFrom name (some cell.char) (pos + 1) rest ↔
        ∃ k, p = pos + (k + 1) ∧
          callHere name (charBefore before (cell :: rest) (k + 1)) ((cell :: rest).drop (k + 1)) := by
      rw [ih]
      refine exists_congr fun k => and_congr (by omega) ?_
      cases k <;> rfl
    have hsplit : p ∈ callOffsetsFrom name before pos (cell :: rest) ↔
        p = pos ∧ callHere name before (cell :: rest) ∨
          p ∈ callOffsetsFrom name (some cell.char) (pos + 1) rest := by
      simp only [callOffsetsFrom]
      split
      · next hcall => simp [hcall]
      · next hcall => simp [hcall]
    rw [hsplit, hlater]
    constructor
    · rintro (⟨rfl, hcall⟩ | ⟨k, hp, hcall⟩)
      · exact ⟨0, rfl, hcall⟩
      · exact ⟨k + 1, hp, hcall⟩
    · rintro ⟨k, hp, hcall⟩
      cases k with
      | zero => exact .inl ⟨hp, hcall⟩
      | succ k => exact .inr ⟨k, hp, hcall⟩

/-- The offsets of calls come in order. -/
theorem pairwise_callOffsetsFrom (name : Text) (before : Option Char) (pos : Nat) (cells : List Cell) :
    (callOffsetsFrom name before pos cells).Pairwise (· < ·) := by
  induction cells generalizing before pos with
  | nil => simp [callOffsetsFrom]
  | cons cell rest ih =>
    simp only [callOffsetsFrom]
    split
    · refine List.pairwise_cons.mpr ⟨fun p hp => ?_, ih _ _⟩
      obtain ⟨k, hk, -⟩ := mem_callOffsetsFrom.mp hp
      omega
    · exact ih _ _

namespace Scan

/-- Where a name is called, it stands in code. -/
theorem of_mem_callOffsets {scan : Scan} {name : Text} {p : Nat} (h : p ∈ scan.callOffsets name) :
    scan.isCode p ∧ name <+: scan.text.drop p := by
  obtain ⟨k, hp, hcall⟩ := mem_callOffsetsFrom.mp h
  obtain rfl : p = k := by omega
  obtain ⟨hcode, hname⟩ := callHere_eq_true hcall
  exact ⟨by simpa [isCode] using hcode, by simpa [text] using hname⟩

/-! ## Where its arguments stand -/

/-- The argument list of a call whose name ends before `past` opens at `paren`: blanks stand between
the two, or type arguments that end with an angle bracket in code. -/
def OpensArguments (scan : Scan) (past paren : Nat) : Prop :=
  ∃ first, past ≤ first ∧ ((scan.text.drop past).take (first - past)).all Text.isBlank ∧
    (paren = first ∨
      scan.text[first]? = some '<' ∧ ∃ angle, first < angle ∧ angle < paren ∧
        scan.isCode angle ∧ scan.text[angle]? = some '>' ∧
        ((scan.text.drop (angle + 1)).take (paren - (angle + 1))).all Text.isBlank)

/-- The text from `start` to `stop` is a call of the macro with these arguments. -/
structure IsCall (scan : Scan) (kind : MacroKind) (start stop : Nat) (arguments : Text) : Prop where
  /-- It starts in code. -/
  code : scan.isCode start
  /-- It starts with the name. -/
  named : kind.name <+: scan.text.drop start
  /-- It ends where the parenthesis of the argument list is closed. -/
  closed : ∃ paren, scan.OpensArguments (start + kind.name.length) paren ∧
    scan.IsRegion "(" ")" paren stop ∧
    arguments = (scan.text.drop (paren + 1)).take (stop - paren - 1)

/-- The extent of a call lies in the text. -/
theorem IsCall.bounds {scan : Scan} {kind : MacroKind} {start stop : Nat} {arguments : Text}
    (h : scan.IsCall kind start stop arguments) : start ≤ stop ∧ stop < scan.cells.length := by
  obtain ⟨paren, hopens, hregion, -⟩ := h.closed
  have hparen : start + kind.name.length ≤ paren := by
    obtain ⟨first, hfirst, -, rfl | ⟨-, angle, hangle, hlt, -⟩⟩ := hopens <;> omega
  have hordered := hregion.ordered
  exact ⟨by omega, hregion.stop_lt⟩

/-- The arguments of a call stand in the balanced parentheses that open where they should. -/
theorem callArguments_eq_ok {scan : Scan} {kind : MacroKind} {position : Nat} {span : Span}
    (h : scan.callArguments kind position = .ok span) :
    scan.IsRegion "(" ")" position span.stop ∧
      span.inner = (scan.text.drop (position + 1)).take (span.stop - position - 1) := by
  unfold callArguments at h
  split at h
  · next found hfound =>
    split at h
    · next hstart =>
      simp only [Except.ok.injEq] at h
      subst h
      obtain rfl : found.start = position := by exact_mod_cast hstart
      exact ⟨(balanced?_eq_some hfound).1, inner_eq_of_balanced? hfound⟩
    · cases h
  · cases h

/-- Type arguments end with an angle bracket in code, which blanks and a parenthesis follow. -/
theorem typesEnd?_eq_some {scan : Scan} {offset angle paren : Nat}
    (h : scan.typesEnd? offset = some (angle, paren)) :
    offset ≤ angle ∧ angle < paren ∧ scan.isCode angle ∧ scan.text[angle]? = some '>' ∧
      ((scan.text.drop (angle + 1)).take (paren - (angle + 1))).all Text.isBlank := by
  simp only [typesEnd?, Option.map_eq_some_iff, Prod.mk.injEq] at h
  obtain ⟨found, hfound, rfl, rfl⟩ := h
  have hcode := List.find?_some hfound
  obtain ⟨left, hlt, hread, hstop⟩ := Text.mem_findAll (List.mem_of_find?_eq_some hfound)
  obtain ⟨_, rest, hangle, hread⟩ := Reader.bind_eq_some.mp hread
  obtain ⟨_, rest', hblanks, hparen⟩ := Reader.bind_eq_some.mp hread
  obtain rfl := Reader.literal_eq_some.mp hparen
  obtain ⟨run, rfl, hrun, -⟩ := Reader.blanks_eq_some.mp hblanks
  have htext : scan.text.drop (offset + found.start) = '>' :: (run ++ '(' :: left) := by
    rw [← List.drop_drop]
    exact Reader.literal_eq_some.mp hangle
  have hstop' : offset + found.stop - 1 = offset + found.start + 1 + run.length := by
    rw [hstop, List.drop_drop, htext]
    simp only [List.length_cons, List.length_append]
    omega
  refine ⟨by omega, by omega, hcode, ?_, ?_⟩
  · rw [← Nat.add_zero (offset + found.start), ← List.getElem?_drop, htext, List.getElem?_cons_zero]
  · rw [← List.drop_drop, htext, hstop', Nat.add_sub_cancel_left, List.drop_one, List.tail_cons,
      List.take_left]
    exact hrun

/-- The call read at an offset where the name stands is one. -/
theorem callAt_eq_ok {scan : Scan} {kind : MacroKind} {index : Nat} {call : MacroCall}
    (hindex : index ∈ scan.callOffsets kind.name) (h : scan.callAt index kind = .ok call) :
    call.kind = kind ∧ call.start = index ∧ scan.IsCall kind index call.stop call.arguments := by
  obtain ⟨hcode, hnamed⟩ := of_mem_callOffsets hindex
  let past := index + kind.name.length
  let first := past + ((scan.text.drop past).takeWhile Text.isBlank).length
  have hblank : ((scan.text.drop past).take (first - past)).all Text.isBlank := by
    have htake : (scan.text.drop past).take (first - past) =
        (scan.text.drop past).takeWhile Text.isBlank := by
      rw [Nat.add_sub_cancel_left]
      exact (List.prefix_iff_eq_take.mp (List.takeWhile_prefix _)).symm
    rw [htake]
    exact List.all_takeWhile
  change scan.callFrom index kind (first : Nat) = .ok call at h
  -- the arguments are read at `paren`, with or without type arguments before it
  have assemble (paren : Nat) (types : Option Text) (span : Span)
      (hopens : scan.OpensArguments past paren)
      (hspan : scan.callArguments kind paren = .ok span)
      (hcall : (⟨kind, index, span.stop, span.inner, types⟩ : MacroCall) = call) :
      call.kind = kind ∧ call.start = index ∧ scan.IsCall kind index call.stop call.arguments := by
    subst hcall
    obtain ⟨hregion, hinner⟩ := callArguments_eq_ok hspan
    exact ⟨rfl, rfl, hcode, hnamed, paren, hopens, hregion, hinner⟩
  unfold callFrom at h
  split at h
  · next hangle =>
    have hfirst : scan.text[first]? = some '<' := by simpa [Text.at?] using hangle
    split at h
    · cases h
    · next angle paren hends =>
      obtain ⟨hle, hlt, hcode', hangle', hblank'⟩ := typesEnd?_eq_some hends
      cases hspan : scan.callArguments kind paren with
      | error fault => rw [hspan] at h; cases h
      | ok span =>
        rw [hspan] at h
        refine assemble paren _ span ⟨first, by omega, hblank, .inr ⟨hfirst, angle, ?_, hlt, hcode',
          hangle', hblank'⟩⟩ hspan (Except.ok.inj h)
        omega
  · cases hspan : scan.callArguments kind first with
    | error fault => rw [hspan] at h; cases h
    | ok span =>
      rw [hspan] at h
      exact assemble first _ span ⟨first, by omega, hblank, .inl rfl⟩ hspan (Except.ok.inj h)

end Scan

end SetupScript
