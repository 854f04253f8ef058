import Mathlib.Order.Bounds.Basic
import SetupScript.Draft.Basic
import SetupScript.Proofs.LocatedCalls

/-!
# The next free call

A pass looks for the next call of a macro that no recorded edit has taken. A call is recognised by its
name as a word of its own, by the mode of the first character of the name, and by what follows the name
after blanks. The search gives the least offset that is free and has such a call, and gives none only
where there is none.

One look at the mode is enough: names, blanks and the opening bracket open neither a literal nor a
comment, so all of them are read as code once the first character is.
-/

namespace SetupScript

/-- The name stands at `p` as a word of its own, its first character in code, and blanks lead from it to
an opening parenthesis or angle bracket at `q`. -/
structure CallReaches (t name : Text) (p q : Nat) : Prop where
  code : (Scan.ofText t).isCode p
  spelled : name <+: t.drop p
  starts : (Text.charBefore none t p).any Text.isNameChar = false
  ends : (t.drop (p + name.length)).head?.any Text.isNameChar = false
  opens : LeadsTo t (p + name.length) '(' q ∨ LeadsTo t (p + name.length) '<' q

variable {t name : Text} {p q : Nat}

/-- A call of a name is one that reaches its opening bracket. -/
theorem isCalledAt_iff_reaches (hname : name.all Text.isNameChar) (hne : name ≠ []) :
    IsCalledAt t name p ↔ ∃ q, CallReaches t name p q := by
  constructor
  · rintro ⟨⟨hcode, hspelled, hstarts, hends⟩, gap, opener, rest, htext, hgap, hopener⟩
    have hfirst : (Scan.ofText t).isCode p := hcode 0 (List.length_pos_iff.mpr hne)
    refine ⟨p + name.length + gap.length, hfirst, hspelled, hstarts, hends, ?_⟩
    rcases hopener with rfl | rfl
    · exact .inl ⟨gap, rest, htext, hgap, rfl⟩
    · exact .inr ⟨gap, rest, htext, hgap, rfl⟩
  · rintro ⟨q, hcode, hspelled, hstarts, hends, hopens⟩
    refine ⟨⟨Scan.isCode_of_word hname hcode hspelled, hspelled, hstarts, hends⟩, ?_⟩
    rcases hopens with ⟨gap, rest, htext, hgap, -⟩ | ⟨gap, rest, htext, hgap, -⟩
    · exact ⟨gap, '(', rest, htext, hgap, .inl rfl⟩
    · exact ⟨gap, '<', rest, htext, hgap, .inr rfl⟩

/-- From a character in code on, plain characters are all in code. -/
theorem Scan.isCode_of_plain {a : Text} (hplain : a.all isPlain) (hcode : (ofText t).isCode p)
    (hspelled : a <+: t.drop p) {i : Nat} (hi : i < a.length) : (ofText t).isCode (p + i) := by
  obtain ⟨rest, hrest⟩ := hspelled
  rw [isCode, ← List.getElem?_drop, drop_cells hcode, ← hrest, (labelFrom_plain hplain rest).1,
    List.getElem?_append_left (by rwa [List.length_map]), List.getElem?_map,
    List.getElem?_eq_getElem hi]
  rfl

/-- From the name to the opening bracket a call is in code. -/
theorem CallReaches.isCode (hname : name.all Text.isNameChar) (h : CallReaches t name p q) {i : Nat}
    (hp : p ≤ i) (hq : i ≤ q) : (Scan.ofText t).isCode i := by
  have hreached {c : Char} (hc : isPlain c) (hopens : LeadsTo t (p + name.length) c q) :
      (Scan.ofText t).isCode i := by
    obtain ⟨gap, rest, htext, hgap, rfl⟩ := hopens
    have hplain : (name ++ (gap ++ [c])).all isPlain := by
      simp [all_isPlain_of_inert (all_isInert_of_word hname), all_isPlain_of_blanks hgap, hc]
    have hspelled : name ++ (gap ++ [c]) <+: t.drop p := by
      rw [drop_of_isPrefix h.spelled, htext]
      exact ⟨rest, by simp⟩
    obtain ⟨k, rfl⟩ := Nat.exists_eq_add_of_le hp
    refine Scan.isCode_of_plain hplain h.code hspelled ?_
    simp only [List.length_append, List.length_singleton]
    omega
  rcases h.opens with hopens | hopens
  · exact hreached (by decide) hopens
  · exact hreached (by decide) hopens

/-- In an increasing list the first member with a property is the least. -/
theorem find?_eq_some_iff_isLeast {l : List Nat} (hordered : l.Pairwise (· < ·)) {f : Nat → Bool} :
    l.find? f = some p ↔ IsLeast {q | q ∈ l ∧ f q} p := by
  have hleast {k : Nat} (hfound : l.find? f = some k) : IsLeast {q | q ∈ l ∧ f q} k := by
    obtain ⟨hk, before, after, rfl, hbefore⟩ := List.find?_eq_some_iff_append.mp hfound
    refine ⟨⟨by simp, hk⟩, fun q hq => ?_⟩
    obtain ⟨hmem, hfq⟩ := hq
    rcases List.mem_append.mp hmem with hearlier | hlater
    · have hrefused := hbefore q hearlier
      rw [hfq] at hrefused
      cases hrefused
    · rcases List.mem_cons.mp hlater with rfl | hlater
      · exact Nat.le_refl _
      · have hrest := (List.pairwise_append.mp hordered).2.1
        exact Nat.le_of_lt ((List.pairwise_cons.mp hrest).1 q hlater)
  refine ⟨hleast, fun hp => ?_⟩
  obtain ⟨k, hfound⟩ := Option.isSome_iff_exists.mp (List.find?_isSome.mpr ⟨p, hp.1⟩)
  rw [hfound, (hleast hfound).unique hp]

namespace Draft

/-- A call of the name stands at `p`, at or after the offset, where no recorded edit has taken it. -/
structure IsFreeCall (draft : Draft) (name : Text) (offset : Int) (p : Nat) : Prop where
  reached : offset ≤ p
  free : ∀ edit ∈ draft.edits, ¬ (edit.start ≤ p ∧ p ≤ edit.stop)
  called : ∃ q, CallReaches draft.source name p q

variable {draft : Draft} {offset : Int}

/-- The offsets that the search admits are those of the free calls. -/
theorem isFreeCall_iff (hscan : draft.scan = Scan.ofText draft.source)
    (hname : name.all Text.isNameChar) (hne : name ≠ []) :
    draft.IsFreeCall name offset p ↔ p ∈ draft.scan.callOffsets name ∧
      (decide (offset ≤ p) && !draft.edits.covers p) = true := by
  have hcalled : p ∈ draft.scan.callOffsets name ↔ ∃ q, CallReaches draft.source name p q := by
    rw [hscan, Scan.mem_callOffsets_iff hname hne, isCalledAt_iff_reaches hname hne]
  rw [hcalled, Bool.and_eq_true, decide_eq_true_eq, Bool.not_eq_true', EditList.covers_eq_false]
  exact ⟨fun h => ⟨h.called, h.reached, h.free⟩, fun h => ⟨h.2.1, h.2.2, h.1⟩⟩

/-- The search for the next call of a name gives the least offset at or after the given one that no edit
has taken and where the name is called, and gives none just where there is no such offset. From the
name to its opening bracket every character of a call is code. Any edits may be recorded; the scan is
that of the source, as it is in every draft that compiling reaches (`Sound.scanned`). -/
theorem next_call_is_least_free (draft : Draft) (hscan : draft.scan = Scan.ofText draft.source)
    (name : Text) (hne : name ≠ []) (hname : name.all Text.isNameChar) (offset : Int) :
    (∀ p, draft.nextCall? name offset = some p ↔ IsLeast {p | draft.IsFreeCall name offset p} p) ∧
    (draft.nextCall? name offset = none ↔ ∀ p, ¬ draft.IsFreeCall name offset p) ∧
    ∀ p q, CallReaches draft.source name p q → ∀ i, p ≤ i → i ≤ q → draft.scan.isCode i := by
  have hordered : (draft.scan.callOffsets name).Pairwise (· < ·) := pairwise_callOffsetsFrom _ _ _ _
  simp only [isFreeCall_iff hscan hname hne]
  refine ⟨fun p => find?_eq_some_iff_isLeast hordered, ?_, fun p q hreaches i hp hq => ?_⟩
  · rw [nextCall?, List.find?_eq_none]
    simp only [not_and]
  · rw [hscan]
    exact hreaches.isCode hname hp hq

/-- A script with a call that an edit takes, its name in a string, in a longer name, and in a call with
type arguments. -/
def takenCall : Text := "defineProps(['a']); 'defineProps('; redefineProps(); defineProps <T>()"

/-- From before the script on, the search passes over all but the last of them. -/
theorem next_call_past_taken :
    let draft := { start {} takenCall none none with edits := [⟨0, 17, []⟩] }
    draft.scan = Scan.ofText draft.source ∧ draft.nextCall? "defineProps" (-1) = some 53 ∧
      IsLeast {p | draft.IsFreeCall "defineProps" (-1) p} 53 := by
  intro draft
  have hfound : draft.nextCall? "defineProps" (-1) = some 53 := by decide +kernel
  have hleast := (next_call_is_least_free draft rfl "defineProps" (by decide) (by decide) (-1)).1 53
  exact ⟨rfl, hfound, hleast.mp hfound⟩

end Draft

end SetupScript
