import SetupScript.Proofs.CleanedCode
import SetupScript.Proofs.EditedText
import SetupScript.Proofs.Recompilation
import SetupScript.Proofs.ReplacementTexts

/-!
# The code that survives compilation

Compilation takes the ranges of its edits out of a script and keeps the rest. An edit whose text ends
in a line comment, as a marker does, comments out what follows it on its line, and the marker's line
is dropped afterwards. So what stands between such an edit and the next line break that is kept is
lost. Apart from such code, and from places where an edit makes or breaks up a comment of the script,
the code outside the edits reaches the module, in order.

The run over the edits is followed with the context of the scan on both sides. Either the edited text
is in code where the source is, or it is in a line comment that an edit has opened.
-/

namespace SetupScript

/-! ## Cells at chosen offsets -/

/-- The cells whose offsets are chosen, among cells that start at offset `pos`. -/
def chosenFrom (choose : Nat → Bool) (pos : Nat) : List Cell → List Cell
  | [] => []
  | cell :: rest =>
    let later := chosenFrom choose (pos + 1) rest
    if choose pos then cell :: later else later

section Chosen

variable {choose : Nat → Bool}

/-- Cells are chosen part by part. -/
theorem chosenFrom_append (pos : Nat) (a b : List Cell) :
    chosenFrom choose pos (a ++ b) = chosenFrom choose pos a ++ chosenFrom choose (pos + a.length) b := by
  induction a generalizing pos with
  | nil => rfl
  | cons cell rest ih =>
    have hnext : pos + 1 + rest.length = pos + (cell :: rest).length := by
      rw [List.length_cons]
      omega
    simp only [List.cons_append, chosenFrom, ih, hnext]
    split
    · rfl
    · rfl

/-- All cells are chosen where all offsets are. -/
theorem chosenFrom_eq_self {pos : Nat} {cells : List Cell}
    (h : ∀ p, pos ≤ p → p < pos + cells.length → choose p = true) : chosenFrom choose pos cells = cells := by
  induction cells generalizing pos with
  | nil => rfl
  | cons cell rest ih =>
    rw [List.length_cons] at h
    rw [chosenFrom, if_pos (h pos (Nat.le_refl _) (by omega)),
      ih fun p hp hlt => h p (by omega) (by omega)]

/-- No cell is chosen where no offset is. -/
theorem chosenFrom_eq_nil {pos : Nat} {cells : List Cell}
    (h : ∀ p, pos ≤ p → p < pos + cells.length → choose p = false) : chosenFrom choose pos cells = [] := by
  induction cells generalizing pos with
  | nil => rfl
  | cons cell rest ih =>
    rw [List.length_cons] at h
    have hfirst : choose pos = false := h pos (Nat.le_refl _) (by omega)
    have hlater : chosenFrom choose (pos + 1) rest = [] :=
      ih fun p hp hlt => h p (by omega) (by omega)
    simp [chosenFrom, hfirst, hlater]

/-- What is significant among the chosen cells, with the first one apart. -/
theorem significant_chosenFrom_cons (pos : Nat) (cell : Cell) (rest : List Cell) :
    significant (chosenFrom choose pos (cell :: rest)) =
      (if choose pos then significant [cell] else []) ++ significant (chosenFrom choose (pos + 1) rest) := by
  rw [chosenFrom]
  split
  · rw [significant_cons]
  · rfl

/-- Fewer chosen offsets give part of what is significant, and all of it exactly when nothing
significant stands at the offsets that are no longer chosen. -/
theorem significant_chosenFrom_of_le {fewer : Nat → Bool} (hle : ∀ p, fewer p = true → choose p = true)
    (pos : Nat) (cells : List Cell) :
    (significant (chosenFrom fewer pos cells)).Sublist (significant (chosenFrom choose pos cells)) ∧
      (significant (chosenFrom fewer pos cells) = significant (chosenFrom choose pos cells) ↔
        ∀ k, choose (pos + k) = true → fewer (pos + k) = false → significant cells[k]?.toList = []) := by
  induction cells generalizing pos with
  | nil => simp [chosenFrom]
  | cons cell rest ih =>
    obtain ⟨hsub, hiff⟩ := ih (pos + 1)
    have hrest : (∀ k, choose (pos + (k + 1)) = true → fewer (pos + (k + 1)) = false →
          significant (cell :: rest)[k + 1]?.toList = []) ↔
        significant (chosenFrom fewer (pos + 1) rest) = significant (chosenFrom choose (pos + 1) rest) := by
      rw [hiff]
      simp only [List.getElem?_cons_succ, Nat.add_assoc, Nat.add_comm 1]
    rw [significant_chosenFrom_cons, significant_chosenFrom_cons, ← Nat.and_forall_add_one, hrest]
    by_cases hfewer : fewer pos = true
    · simp [hfewer, hle pos hfewer, hsub]
    · by_cases hchoose : choose pos = true
      · -- the first cell is lost, so what is left is shorter unless that cell does not count
        rw [if_neg hfewer, if_pos hchoose, List.nil_append]
        refine ⟨hsub.trans (List.sublist_append_right ..), fun heq => ?_, fun h => ?_⟩
        · have hlength := congrArg List.length heq
          rw [List.length_append] at hlength
          have hnone : significant [cell] = [] := by
            apply List.eq_nil_of_length_eq_zero
            have hshorter := hsub.length_le
            omega
          rw [hnone, List.nil_append] at heq
          exact ⟨fun _ _ => hnone, heq⟩
        · have hnone : significant [cell] = [] := h.1 hchoose (by simpa using hfewer)
          rw [hnone, List.nil_append, h.2]
      · simp [hfewer, hchoose, hsub]

end Chosen

/-! ## Code that an edit comments out -/

/-- The code of a source that lies outside every edit, without white space and semicolons. -/
def keptCode (source : Text) (edits : EditList) : Text :=
  significant (chosenFrom (fun p => !edits.covers p) 0 (Scan.ofText source).cells)

/-- The offset comes after an edit whose text ends in a line comment, and no line break between the
two is kept. -/
def Hidden (source : Text) (edits : EditList) (p : Nat) : Prop :=
  ∃ edit ∈ edits, EndsInComment edit.replacement ∧ edit.stop < p ∧
    ∀ q < p, edit.stop < q → source[q]? = some '\n' → edits.covers q = true

instance (source : Text) (edits : EditList) (p : Nat) : Decidable (Hidden source edits p) :=
  inferInstanceAs (Decidable (∃ edit ∈ edits, _ ∧ _ ∧ ∀ q < p, _ → _ → _))

/-- No code that counts is commented out by an edit before it on its line. -/
def NothingHidden (source : Text) (edits : EditList) : Prop :=
  ∀ p < source.length, edits.covers p = false → Hidden source edits p →
    significant ((Scan.ofText source).cells[p]?).toList = []

/-- No edit puts in code that counts. -/
def AddsNothing (edits : EditList) : Prop :=
  ∀ edit ∈ edits, significant (Scan.ofText edit.replacement).cells = []

/-- The comments that edits open do not run into literals and comments of the source, none comes about
where the text of an edit meets the source, and no line is mistaken for a marker. -/
structure Orderly (source : Text) (edits : EditList) : Prop where
  /-- The line break that ends a comment opened by an edit leads to code in the source too. -/
  breaks : ∀ p < source.length, Hidden source edits p → edits.covers p = false →
    source[p]? = some '\n' → Context.code.after (source.take (p + 1)) = .code
  /-- The text of an edit that is commented out has no line break. -/
  single : ∀ edit ∈ edits, Hidden source edits edit.start.toNat → '\n' ∉ edit.replacement
  /-- A slash right before an edit does not open a comment together with the text of the edit. -/
  slashes : ∀ edit ∈ edits,
    (Scan.ofText (source.take edit.start.toNat)).cells.getLast? = some ⟨'/', .code⟩ →
      edit.replacement ≠ [] ∧ isUnsought edit.replacement.head?
  /-- A line of the edited text that reads as a marker and starts outside code holds no code and
  leaves the context as it was. -/
  markers : MarkersHarmless {} .code (Text.lines (edits.apply source))

section Hidden

variable {source : Text} {edits rest : EditList} {edit : Edit} {pos p k : Nat}

/-- What is hidden stays so as long as no line break is kept. -/
theorem Hidden.mono (h : Hidden source edits pos) (hle : pos ≤ k)
    (hbreaks : ∀ q, pos ≤ q → q < k → source[q]? = some '\n' → edits.covers q = true) :
    Hidden source edits k := by
  obtain ⟨edit, hedit, hcomment, hstop, hcovered⟩ := h
  refine ⟨edit, hedit, hcomment, by omega, ?_⟩
  intro q hq hafter hbreak
  by_cases hlt : q < pos
  · exact hcovered q hlt hafter hbreak
  · exact hbreaks q (by omega) hq hbreak

/-- What is hidden stays so up to the end of the line. -/
theorem Hidden.upTo (h : Hidden source edits pos) (hline : '\n' ∉ (source.drop pos).take (k - pos)) (p : Nat)
    (hpos : pos ≤ p) (hp : p ≤ k) : Hidden source edits p := by
  refine h.mono hpos fun q hq hlt hchar => absurd ?_ hline
  rw [List.mem_iff_getElem?]
  refine ⟨q - pos, ?_⟩
  rw [List.getElem?_take_of_lt (by omega), List.getElem?_drop, Nat.add_sub_of_le hq, hchar]

/-- What is hidden was so before, back to the last edit that ends in a comment. -/
theorem Hidden.back (h : Hidden source edits k) (hle : pos ≤ k)
    (hedits : ∀ edit ∈ edits, EndsInComment edit.replacement → edit.stop < k → edit.stop < pos) :
    Hidden source edits pos := by
  obtain ⟨edit, hedit, hcomment, hstop, hcovered⟩ := h
  refine ⟨edit, hedit, hcomment, hedits edit hedit hcomment hstop, ?_⟩
  intro q hq hafter hbreak
  exact hcovered q (by omega) hafter hbreak

/-- Right after an edit that ends in a comment everything is hidden. -/
theorem hidden_succ {stop : Nat} (hedit : edit ∈ edits) (hcomment : EndsInComment edit.replacement)
    (hstop : edit.stop = stop) : Hidden source edits (stop + 1) :=
  ⟨edit, hedit, hcomment, by omega, by omega⟩

/-- Nothing is hidden right after a line break that is kept. -/
theorem not_hidden_succ (hvalid : edits.Valid (Scan.ofText source)) (hbreak : source[p]? = some '\n')
    (hfree : edits.covers p = false) : ¬ Hidden source edits (p + 1) := by
  intro h
  obtain ⟨edit, hedit, hcomment, hstop, hcovered⟩ := h
  have hordered := (hvalid.within edit hedit).ordered
  have hne := EditList.covers_eq_false.mp hfree edit hedit
  have hcovers := hcovered p (by omega) (by omega) hbreak
  rw [hfree] at hcovers
  cases hcovers

end Hidden

/-! ## What can be seen of a source -/

section Visible

variable {source : Text} {edits : EditList} {pos k : Nat}

/-- The code from an offset on that is neither edited nor hidden. -/
def visibleCode (source : Text) (edits : EditList) (pos : Nat) : Text :=
  significant (chosenFrom (fun p => !edits.covers p && !decide (Hidden source edits p)) pos
    ((labelFrom .code source).drop pos))

/-- What can be seen from an offset on, with a stretch apart. -/
theorem visibleCode_split (hle : pos ≤ k) (hk : k ≤ source.length) :
    visibleCode source edits pos =
      significant (chosenFrom (fun p => !edits.covers p && !decide (Hidden source edits p)) pos
        (((labelFrom .code source).drop pos).take (k - pos))) ++ visibleCode source edits k := by
  have hlength : (((labelFrom .code source).drop pos).take (k - pos)).length = k - pos := by
    rw [List.length_take, List.length_drop, length_labelFrom]
    omega
  have hcells : (labelFrom .code source).drop pos =
      ((labelFrom .code source).drop pos).take (k - pos) ++ (labelFrom .code source).drop k := by
    rw [← Nat.add_sub_of_le hle, ← List.drop_drop, Nat.add_sub_of_le hle, List.take_append_drop]
  rw [visibleCode]
  conv_lhs => rw [hcells]
  rw [chosenFrom_append, significant_append, hlength, Nat.add_sub_of_le hle, visibleCode]

/-- There is nothing to see at the end. -/
theorem visibleCode_length (source : Text) (edits : EditList) :
    visibleCode source edits source.length = [] := by
  rw [visibleCode, List.drop_of_length_le (by simp)]
  rfl

/-- A stretch that is neither edited nor hidden can be seen. -/
theorem visibleCode_of_free (hle : pos ≤ k) (hk : k ≤ source.length)
    (hfree : ∀ p, pos ≤ p → p < k → edits.covers p = false ∧ ¬ Hidden source edits p) :
    visibleCode source edits pos =
      significant (((labelFrom .code source).drop pos).take (k - pos)) ++ visibleCode source edits k := by
  rw [visibleCode_split hle hk, chosenFrom_eq_self]
  intro p hp hlt
  rw [List.length_take] at hlt
  obtain ⟨hcovers, hseen⟩ := hfree p hp (by omega)
  simp [hcovers, hseen]

/-- A stretch that is edited or hidden cannot be seen. -/
theorem visibleCode_of_lost (hle : pos ≤ k) (hk : k ≤ source.length)
    (hlost : ∀ p, pos ≤ p → p < k → edits.covers p = true ∨ Hidden source edits p) :
    visibleCode source edits pos = visibleCode source edits k := by
  rw [visibleCode_split hle hk, chosenFrom_eq_nil, significant_nil, List.nil_append]
  intro p hp hlt
  rw [List.length_take] at hlt
  rcases hlost p hp (by omega) with hcovers | hhidden
  · simp [hcovers]
  · simp [hhidden]

/-- Part of the code that is kept can be seen, and all of it when nothing is hidden. -/
theorem visibleCode_zero (source : Text) (edits : EditList) :
    (visibleCode source edits 0).Sublist (keptCode source edits) ∧
      (visibleCode source edits 0 = keptCode source edits ↔ NothingHidden source edits) := by
  have hle : ∀ p : Nat, (!edits.covers (p : Int) && !decide (Hidden source edits p)) = true →
      (!edits.covers (p : Int)) = true := by
    intro p hp
    rw [Bool.and_eq_true] at hp
    exact hp.1
  obtain ⟨hsub, hiff⟩ := significant_chosenFrom_of_le hle 0 (labelFrom .code source)
  refine ⟨hsub, hiff.trans ⟨fun h p _ hfree hhidden => ?_, fun h k hfree hlost => ?_⟩⟩
  · have hcell := h p (by simpa using hfree) (by simpa using fun _ => hhidden)
    exact hcell
  · simp only [Nat.zero_add, Bool.not_eq_true', Bool.and_eq_false_imp, Bool.not_eq_false',
      decide_eq_true_eq] at hfree hlost
    by_cases hk : k < source.length
    · exact h k hk hfree (hlost hfree)
    · rw [List.getElem?_eq_none (by rw [length_labelFrom]; omega)]
      rfl

end Visible

/-! ## The run over the edits -/

/-- Between code that can be seen and code of the edited text: the one survives in the other, and
there is nothing else in it when the edits put in nothing. -/
structure Accounts (edits : EditList) (visible result : Text) : Prop where
  survives : visible.Sublist result
  complete : AddsNothing edits → result.Sublist visible

/-- The edited text is in code at an offset where the source is, and nothing is hidden there. -/
structure InSync (source : Text) (edits : EditList) (pos : Nat) : Prop where
  code : Context.code.after (source.take pos) = .code
  apart : ¬ SlashMeets (labelFrom .code (source.take pos)) (source.drop pos)
  seen : ¬ Hidden source edits pos

/-- What can be seen survives in the edited text wherever the two are in step. -/
def SurvivesInCode (source : Text) (edits rest : EditList) : Prop :=
  ∀ pos, EditList.RunsAt source edits pos rest → InSync source edits pos →
    Accounts edits (visibleCode source edits pos)
      (significant (labelFrom .code (EditList.applyFrom source pos rest)))

/-- What can be seen survives in the edited text after a comment that an edit has opened. -/
def SurvivesInComment (source : Text) (edits rest : EditList) : Prop :=
  ∀ pos, EditList.RunsAt source edits pos rest → Hidden source edits pos →
    Accounts edits (visibleCode source edits pos)
      (significant (labelFrom .lineComment (EditList.applyFrom source pos rest)))

namespace Accounts

variable {edits : EditList} {visible result : Text}

/-- The same code on both sides. -/
theorem refl (edits : EditList) (t : Text) : Accounts edits t t :=
  ⟨List.Sublist.refl t, fun _ => List.Sublist.refl t⟩

/-- A common stretch before both. -/
theorem append (h : Accounts edits visible result) (t : Text) :
    Accounts edits (t ++ visible) (t ++ result) :=
  ⟨h.survives.append_left t, fun hadds => (h.complete hadds).append_left t⟩

/-- The text of an edit before the result. -/
theorem insert {edit : Edit} (h : Accounts edits visible result) (hedit : edit ∈ edits) :
    Accounts edits visible (significant (labelFrom .code edit.replacement) ++ result) := by
  refine ⟨h.survives.trans (List.sublist_append_right ..), fun hadds => ?_⟩
  have hnone : significant (labelFrom .code edit.replacement) = [] := hadds edit hedit
  rw [hnone, List.nil_append]
  exact h.complete hadds

end Accounts

section Run

variable {source : Text} {edits rest : EditList} {edit : Edit} {pos k : Nat}

/-- In step, the rest of the source has its cells of the whole source. -/
theorem InSync.cells (h : InSync source edits pos) (hpos : pos ≤ source.length) :
    labelFrom .code (source.drop pos) = (labelFrom .code source).drop pos := by
  have hsplit := (labelFrom_append h.code h.apart).1
  rw [List.take_append_drop] at hsplit
  have hlength : (labelFrom .code (source.take pos)).length = pos := by
    rw [length_labelFrom, List.length_take, Nat.min_eq_left hpos]
  rw [hsplit, List.drop_left' hlength]

/-- Up to the next edit nothing is covered, and nothing is hidden that was not so before. -/
theorem free_of_seen (hrun : EditList.RunsAt source edits pos rest)
    (hvalid : edits.Valid (Scan.ofText source)) (hseen : ¬ Hidden source edits pos) {p : Nat}
    (hpos : pos ≤ p) (hp : p < EditList.nextStart source rest) :
    edits.covers p = false ∧ ¬ Hidden source edits p := by
  obtain ⟨hfree, hover⟩ := hrun.free hvalid hpos hp
  refine ⟨hfree, fun hhidden => hseen (hhidden.back hpos ?_)⟩
  intro edit hedit _ hstop
  exact hover edit hedit (by omega)

/-- After the last edit the rest of the source is copied. -/
theorem survivesInCode_nil (hvalid : edits.Valid (Scan.ofText source)) :
    SurvivesInCode source edits [] := by
  intro pos hrun hsync
  have htext : EditList.applyFrom source pos [] = source.drop pos := by
    rw [EditList.applyFrom, Text.slice_natCast, List.take_of_length_le (by simp)]
  have hvisible : visibleCode source edits pos = significant ((labelFrom .code source).drop pos) := by
    rw [visibleCode_of_free hrun.inside (Nat.le_refl _) fun p hp hlt =>
      free_of_seen hrun hvalid hsync.seen hp hlt, visibleCode_length, List.append_nil,
      List.take_of_length_le (by simp)]
  rw [htext, hsync.cells hrun.inside, hvisible]
  exact Accounts.refl edits _

/-- In step, the stretch up to an edit has its cells of the source, ends in code, and no slash at its
end meets the text of the edit. -/
theorem InSync.stretch {start : Nat} {c : Char} (h : InSync source edits pos)
    (hpos : pos ≤ start) (hcode : (labelFrom .code source)[start]? = some ⟨c, .code⟩)
    (hslash : (labelFrom .code (source.take start)).getLast? = some ⟨'/', .code⟩ →
      edit.replacement ≠ [] ∧ isUnsought edit.replacement.head?) (after : Text) :
    ((labelFrom .code source).drop pos).take (start - pos) =
        labelFrom .code ((source.drop pos).take (start - pos)) ∧
      Context.code.after ((source.drop pos).take (start - pos)) = .code ∧
      ¬ SlashMeets (labelFrom .code ((source.drop pos).take (start - pos))) (edit.replacement ++ after) := by
  have hstart : start < source.length := by
    obtain ⟨hlt, -⟩ := List.getElem?_eq_some_iff.mp hcode
    rwa [length_labelFrom] at hlt
  have hcells := h.cells (by omega : pos ≤ source.length)
  have hcode' : (labelFrom .code (source.drop pos))[start - pos]? = some ⟨c, .code⟩ := by
    rw [hcells, List.getElem?_drop, Nat.add_sub_of_le hpos, hcode]
  have hlength : (labelFrom .code ((source.drop pos).take (start - pos))).length = start - pos := by
    rw [length_labelFrom, List.length_take, List.length_drop]
    omega
  have hgap : ((labelFrom .code source).drop pos).take (start - pos) =
      labelFrom .code ((source.drop pos).take (start - pos)) := by
    rw [← hcells, labelFrom_split hcode', List.take_left' hlength]
  refine ⟨hgap, (after_take_of_code hcode').1, fun hmeets => ?_⟩
  -- seen from the start of the source, the same slash stands right before the edit
  have hbefore : labelFrom .code (source.take start) = (labelFrom .code source).take pos ++
      labelFrom .code ((source.drop pos).take (start - pos)) := by
    rw [← hgap, ← List.take_add, Nat.add_sub_of_le hpos, labelFrom_split hcode,
      List.take_left' (by simp; omega)]
  obtain ⟨hlast, hhead⟩ := hmeets.append_left ((labelFrom .code source).take pos)
  rw [← hbefore] at hlast
  obtain ⟨hne, hunsought⟩ := hslash hlast
  rw [List.head?_append_of_ne_nil _ hne] at hhead
  simp only [isUnsought, Bool.and_eq_true, bne_iff_ne] at hunsought
  rcases hhead with hsame | hsame
  · exact hunsought.1 hsame
  · exact hunsought.2 hsame

/-- After an edit whose text ends in code the two are in step again. -/
theorem InSync.next {stop : Nat} (h : InSync source edits pos)
    (hrun : EditList.RunsAt source edits pos (edit :: rest))
    (hvalid : edits.Valid (Scan.ofText source)) (hends : EndsInCode edit.replacement)
    (hstop : edit.stop = stop) (hcloses : (labelFrom .code source)[stop]? = some ⟨')', .code⟩) :
    InSync source edits (stop + 1) := by
  have hinside : stop < source.length := by
    obtain ⟨hlt, -⟩ := List.getElem?_eq_some_iff.mp hcloses
    rwa [length_labelFrom] at hlt
  have hchar : source[stop]? = some ')' := by
    rw [← map_char_labelFrom .code source, List.getElem?_map, hcloses]
    rfl
  have hlast : (source.take (stop + 1)).getLast? ≠ some '/' := by
    rw [List.getLast?_take, if_neg (by omega), Nat.add_sub_cancel, hchar]
    simp
  refine ⟨after_take_succ_of_code hcloses, not_slashMeets_of_last hlast _, fun hhidden => h.seen ?_⟩
  have hwithin := hvalid.within edit (hrun.mem edit (List.mem_cons_self ..))
  have hahead := hrun.ahead edit (List.mem_cons_self ..)
  have hordered := hwithin.ordered
  refine hhidden.back (by omega) fun other hother hcomment hover => ?_
  rcases hrun.done other hother with hmem | hdone
  · rcases List.mem_cons.mp hmem with rfl | hmem
    · rw [EndsInComment, hends.1] at hcomment
      cases hcomment
    · have hlater := (List.pairwise_cons.mp hrun.ordered).1 other hmem
      have hother' := (hvalid.within other hother).ordered
      omega
  · exact hdone

/-- In step, one more edit: the stretch before it is copied, and its text leads to code or into a
comment. -/
theorem survivesInCode_cons (hvalid : edits.Valid (Scan.ofText source))
    (hforms : ∀ edit ∈ edits, edit.HasForm {} (Scan.ofText source)) (horderly : Orderly source edits)
    (hcode : SurvivesInCode source edits rest) (hcomment : SurvivesInComment source edits rest) :
    SurvivesInCode source edits (edit :: rest) := by
  intro pos hrun hsync
  have hedit := hrun.mem edit (List.mem_cons_self ..)
  obtain ⟨start, stop, hstart, hstop, hpos, hle, hinside, hnext⟩ := hrun.first hvalid
  obtain ⟨c, hcell⟩ := hvalid.cell_start hedit hstart
  have hslash := horderly.slashes edit hedit
  rw [hstart, Int.toNat_natCast] at hslash
  obtain ⟨hgap, hends, hapart⟩ :=
    hsync.stretch hpos hcell hslash (EditList.applyFrom source (stop + 1 : Nat) rest)
  have hvisible : visibleCode source edits pos =
      significant (labelFrom .code ((source.drop pos).take (start - pos))) ++
        visibleCode source edits (stop + 1) := by
    rw [visibleCode_of_free hpos (by omega) fun p hp hlt =>
      free_of_seen hrun hvalid hsync.seen hp (hnext ▸ hlt), hgap]
    congr 1
    exact visibleCode_of_lost (by omega) (by omega) fun p hp hlt =>
      .inl (EditList.covers_of_mem hedit (by omega) (by omega))
  rw [EditList.applyFrom_gap hrun hvalid hpos hnext.ge, EditList.applyFrom_edit hstart hstop,
    (labelFrom_append hends hapart).1, significant_append, hvisible]
  refine Accounts.append ?_ _
  rcases (hforms edit hedit).ends with hcommented | ⟨hcoded, stop', hstop', hcloses⟩
  · rw [(labelFrom_append_of_lineComment hcommented _).1, significant_append]
    refine Accounts.insert ?_ hedit
    exact hcomment (stop + 1) (hrun.next hstart hstop hle hinside) (hidden_succ hedit hcommented hstop)
  · obtain rfl : stop' = stop := by omega
    rw [(labelFrom_append hcoded.1 (not_slashMeets_of_last hcoded.2 _)).1, significant_append]
    refine Accounts.insert ?_ hedit
    exact hcode (stop' + 1) (hrun.next hstart hstop hle hinside)
      (hsync.next hrun hvalid hcoded hstop hcloses)

/-- A stretch with a line break has a first one. -/
theorem exists_first_break {t : Text} {n : Nat} (h : '\n' ∈ t.take n) :
    ∃ k < n, t[k]? = some '\n' ∧ '\n' ∉ t.take k := by
  obtain ⟨line, later, hsplit, hline⟩ := List.eq_append_cons_of_mem h
  have hlength := congrArg List.length hsplit
  rw [List.length_take, List.length_append, List.length_cons] at hlength
  have hlt : line.length < n := by omega
  refine ⟨line.length, hlt, ?_, ?_⟩
  · rw [← List.getElem?_take_of_lt hlt, hsplit, List.getElem?_append_right (Nat.le_refl _), Nat.sub_self]
    rfl
  · rw [← Nat.min_eq_left (Nat.le_of_lt hlt), ← List.take_take, hsplit, List.take_left]
    exact hline

/-- A comment that an edit has opened ends at the first line break that is kept, and the two are in
step from there. -/
theorem accounts_of_break (hvalid : edits.Valid (Scan.ofText source)) (horderly : Orderly source edits)
    (hcode : SurvivesInCode source edits rest) (hrun : EditList.RunsAt source edits pos rest)
    (hhidden : Hidden source edits pos)
    (hbreak : '\n' ∈ (source.drop pos).take (EditList.nextStart source rest - pos)) :
    Accounts edits (visibleCode source edits pos)
      (significant (labelFrom .lineComment (EditList.applyFrom source pos rest))) := by
  obtain ⟨k, hk, hat, hline⟩ := exists_first_break hbreak
  obtain ⟨hpos, hend⟩ := hrun.le_nextStart hvalid
  have hchar : source[pos + k]? = some '\n' := by rwa [List.getElem?_drop] at hat
  have hlines : ∀ q, pos ≤ q → q ≤ pos + k → Hidden source edits q :=
    hhidden.upTo (by rwa [Nat.add_sub_cancel_left])
  have hfree : edits.covers (pos + k : Nat) = false :=
    (hrun.free hvalid (Nat.le_add_right pos k) (by omega)).1
  have hlast : (source.take (pos + k + 1)).getLast? ≠ some '/' := by
    rw [List.getLast?_take, if_neg (by omega), Nat.add_sub_cancel, hchar]
    simp
  have hsync : InSync source edits (pos + k + 1) :=
    ⟨horderly.breaks (pos + k) (by omega) (hlines _ (Nat.le_add_right _ _) (Nat.le_refl _)) hfree hchar,
      not_slashMeets_of_last hlast _, not_hidden_succ hvalid hchar hfree⟩
  have htext : EditList.applyFrom source pos rest =
      (source.drop pos).take k ++ '\n' :: EditList.applyFrom source (pos + k + 1 : Nat) rest := by
    have hcopied : (source.drop pos).take (pos + k + 1 - pos) = (source.drop pos).take k ++ ['\n'] := by
      rw [Nat.add_assoc, Nat.add_sub_cancel_left, List.take_add_one, hat]
      rfl
    rw [EditList.applyFrom_gap hrun hvalid (by omega : pos ≤ pos + k + 1) (by omega), hcopied,
      List.append_assoc]
    rfl
  rw [htext, significant_append_comment hline, (labelFrom_lineComment_break _).1, significant_cons,
    significant_blank rfl, List.nil_append,
    visibleCode_of_lost (by omega : pos ≤ pos + k + 1) (by omega) fun q hq hlt =>
      .inr (hlines q hq (by omega))]
  exact hcode (pos + k + 1) (hrun.move (by omega) (by omega) hvalid) hsync

/-- In a comment that an edit has opened, after the last edit. -/
theorem survivesInComment_nil (hvalid : edits.Valid (Scan.ofText source)) (horderly : Orderly source edits) :
    SurvivesInComment source edits [] := by
  intro pos hrun hhidden
  by_cases hbreak : '\n' ∈ (source.drop pos).take (EditList.nextStart source [] - pos)
  · exact accounts_of_break hvalid horderly (survivesInCode_nil hvalid) hrun hhidden hbreak
  · rw [EditList.nextStart] at hbreak
    have htext : EditList.applyFrom source pos [] = (source.drop pos).take (source.length - pos) := by
      rw [EditList.applyFrom, Text.slice_natCast]
    have hend : visibleCode source edits pos = [] := by
      rw [visibleCode_of_lost hrun.inside (Nat.le_refl _) fun p hp hlt =>
        .inr (hhidden.upTo hbreak p hp (by omega)), visibleCode_length]
    rw [htext, ← List.append_nil (List.take _ _), significant_append_comment hbreak, labelFrom_nil, hend]
    exact Accounts.refl edits []

/-- In a comment that an edit has opened, one more edit: its text is commented out too. -/
theorem survivesInComment_cons (hvalid : edits.Valid (Scan.ofText source)) (horderly : Orderly source edits)
    (hcode : SurvivesInCode source edits (edit :: rest)) (hcomment : SurvivesInComment source edits rest) :
    SurvivesInComment source edits (edit :: rest) := by
  intro pos hrun hhidden
  by_cases hbreak : '\n' ∈ (source.drop pos).take (EditList.nextStart source (edit :: rest) - pos)
  · exact accounts_of_break hvalid horderly hcode hrun hhidden hbreak
  · have hedit := hrun.mem edit (List.mem_cons_self ..)
    obtain ⟨start, stop, hstart, hstop, hpos, hle, hinside, hnext⟩ := hrun.first hvalid
    rw [hnext] at hbreak
    have hlines := hhidden.upTo hbreak
    have hsingle := horderly.single edit hedit
    rw [hstart, Int.toNat_natCast] at hsingle
    have hinner : ∀ p : Nat, start ≤ p → p < stop + 1 → edits.covers p = true := by
      intro p hp hlt
      exact EditList.covers_of_mem hedit (by omega) (by omega)
    have hhidden' : Hidden source edits (stop + 1) :=
      (hlines start hpos (Nat.le_refl _)).mono (by omega) fun q hq hlt _ => hinner q hq hlt
    have hvisible : visibleCode source edits pos = visibleCode source edits (stop + 1) := by
      refine visibleCode_of_lost (by omega) (by omega) fun p hp hlt => ?_
      by_cases hbefore : p ≤ start
      · exact .inr (hlines p hp hbefore)
      · exact .inl (hinner p (by omega) hlt)
    rw [EditList.applyFrom_gap hrun hvalid hpos hnext.ge, EditList.applyFrom_edit hstart hstop,
      significant_append_comment hbreak,
      significant_append_comment (hsingle (hlines start hpos (Nat.le_refl _))), hvisible]
    exact hcomment (stop + 1) (hrun.next hstart hstop hle hinside) hhidden'

/-- What can be seen survives through a whole run, from code and from comments. -/
theorem survives (hvalid : edits.Valid (Scan.ofText source))
    (hforms : ∀ edit ∈ edits, edit.HasForm {} (Scan.ofText source)) (horderly : Orderly source edits)
    (rest : EditList) : SurvivesInCode source edits rest ∧ SurvivesInComment source edits rest := by
  induction rest with
  | nil => exact ⟨survivesInCode_nil hvalid, survivesInComment_nil hvalid horderly⟩
  | cons edit rest ih =>
    have hcode : SurvivesInCode source edits (edit :: rest) :=
      survivesInCode_cons hvalid hforms horderly ih.1 ih.2
    exact ⟨hcode, survivesInComment_cons hvalid horderly hcode ih.2⟩

end Run

/-! ## Compiling -/

/-- A source is in step with its edited text at the beginning, before all edits. -/
theorem inSync_zero {source : Text} {edits : EditList} (hvalid : edits.Valid (Scan.ofText source)) :
    InSync source edits 0 := by
  refine ⟨rfl, not_slashMeets_nil _, fun hhidden => ?_⟩
  obtain ⟨edit, hedit, -, hstop, -⟩ := hhidden
  have hwithin := hvalid.within edit hedit
  have hnonneg := hwithin.nonneg
  have hordered := hwithin.ordered
  omega

/-- What can be seen of a source survives in the edited text. -/
theorem accounts_apply {source : Text} {edits : EditList} (hvalid : edits.Valid (Scan.ofText source))
    (hforms : ∀ edit ∈ edits, edit.HasForm {} (Scan.ofText source)) (horderly : Orderly source edits) :
    Accounts edits (visibleCode source edits 0) (significant (labelFrom .code (edits.apply source))) :=
  (survives hvalid hforms horderly _).1 0 hvalid.runsAt (inSync_zero hvalid)

/-- The edits that compiling a script records. -/
def recordedEdits (source : Text) (name : Option Text) (strict : Option Bool) : EditList :=
  (expandScript {} source name strict).draft.edits

/-- The recorded edits of an accepted script give its edited text. -/
theorem recordedEdits_apply {source : Text} {name : Option Text} {strict : Option Bool}
    {output : Output} (hcompile : (compileScript {} source name strict).value = .ok output) :
    (recordedEdits source name strict).apply source = (expandScript {} source name strict).draft.edited := by
  obtain ⟨-, -, hsame, -⟩ := expandScript_of_compiles hcompile
  have hsource : (expandScript {} source name strict).draft.source = source := hsame.source
  rw [Draft.edited, hsource, recordedEdits]

/-- The code outside the edits counts. -/
theorem filter_keptCode (source : Text) (edits : EditList) :
    (keptCode source edits).filter isSignificant = keptCode source edits := by
  rw [List.filter_eq_self]
  intro c hc
  rw [keptCode, significant, List.mem_map] at hc
  obtain ⟨cell, hcell, rfl⟩ := hc
  have hcounts := (List.mem_filter.mp hcell).2
  rw [Bool.and_eq_true] at hcounts
  exact hcounts.2

/-- The code of an accepted script that no edit takes reaches the module in order, as long as no edit
comments it out: where the edits are orderly, it does when nothing is hidden, and only then if the
edits put in no code of their own. -/
theorem kept_code_survives {source : Text} {name : Option Text} {strict : Option Bool}
    {output : Output} (hcompile : (compileScript {} source name strict).value = .ok output)
    (horderly : Orderly source (recordedEdits source name strict)) :
    output.code = (expandScript {} source name strict).draft.moduleText
        (cleanedBody source name strict) output.bindings output.isAsync ∧
      (NothingHidden source (recordedEdits source name strict) →
        (keptCode source (recordedEdits source name strict)).Sublist
          (codeText (cleanedBody source name strict))) ∧
      (AddsNothing (recordedEdits source name strict) →
        (keptCode source (recordedEdits source name strict)).Sublist
          (codeText (cleanedBody source name strict)) →
        NothingHidden source (recordedEdits source name strict)) := by
  have hedited := recordedEdits_apply hcompile
  obtain ⟨-, rfl, hsame, hsound⟩ := expandScript_of_compiles hcompile
  have hsettings : (expandScript {} source name strict).draft.settings = {} := hsame.settings
  have hscan : (expandScript {} source name strict).draft.scan = Scan.ofText source := hsame.scan
  have hvalid : (recordedEdits source name strict).Valid (Scan.ofText source) := hscan ▸ hsound.valid
  have hforms : ∀ edit ∈ recordedEdits source name strict, edit.HasForm {} (Scan.ofText source) := by
    intro edit hedit
    have hform := hsound.forms edit hedit
    rwa [hsettings, hscan] at hform
  have hbody : (codeText (cleanedBody source name strict)).filter isSignificant =
      significant (labelFrom .code ((recordedEdits source name strict).apply source)) := by
    have hmarkers := horderly.markers
    rw [hedited] at hmarkers ⊢
    rw [← significant_ofText, cleanedBody, Draft.significant_body]
    · rw [hsettings]
      decide
    · rw [hsettings]
      exact hmarkers
  have haccounts := accounts_apply hvalid hforms horderly
  rw [← hbody] at haccounts
  obtain ⟨hpart, hwhole⟩ := visibleCode_zero source (recordedEdits source name strict)
  refine ⟨rfl, fun hnothing => ?_, fun hadds hsurvives => ?_⟩
  · rw [← hwhole.mpr hnothing]
    exact haccounts.survives.trans List.filter_sublist
  · have hkept := hsurvives.filter isSignificant
    rw [filter_keptCode] at hkept
    exact hwhole.mp (hpart.antisymm (hkept.trans (haccounts.complete hadds)))

/-- A script in which nothing but a semicolon and a comment follows a marker on its line. -/
def tidyScript : Text := "defineProps(['a']); // props\nconst emit = defineEmits(['b'])\nf(emit)"

/-- All code of the tidy script outside its two edits is in the body. -/
theorem kept_code_survives_tidyScript :
    keptCode tidyScript (recordedEdits tidyScript none none) = ("constemit=f(emit)" : Text) ∧
      (keptCode tidyScript (recordedEdits tidyScript none none)).Sublist
        (codeText (cleanedBody tidyScript none none)) := by
  obtain ⟨hcompile, hdraft, hedited, -⟩ := compileScript_of_importless tidyScript (by decide +kernel)
    (by decide +kernel) (by decide +kernel) (by decide +kernel)
  have hedits : recordedEdits tidyScript none none = (importlessDraft tidyScript).edits :=
    congrArg Draft.edits hdraft
  have horderly : Orderly tidyScript (recordedEdits tidyScript none none) := by
    refine ⟨?_, ?_, ?_, ?_⟩
    · rw [hedits]
      decide +kernel
    · rw [hedits]
      decide +kernel
    · rw [hedits]
      decide +kernel
    · rw [recordedEdits_apply hcompile, hdraft, hedited]
      decide +kernel
  have hnothing : NothingHidden tidyScript (recordedEdits tidyScript none none) := by
    rw [hedits]
    unfold NothingHidden
    decide +kernel
  refine ⟨?_, (kept_code_survives hcompile horderly).2.1 hnothing⟩
  rw [hedits]
  decide +kernel

/-- A script in which a call follows a marker on its line. -/
def crowdedScript : Text := "defineProps(['a']); f()"

/-- The call after the marker is not in the body, although the script compiles. -/
theorem call_lost_after_marker :
    (compileScript {} crowdedScript none none).value = .ok (importlessOutput crowdedScript) ∧
      keptCode crowdedScript (recordedEdits crowdedScript none none) = ("f()" : Text) ∧
      codeText (cleanedBody crowdedScript none none) = [] ∧
      ¬ (keptCode crowdedScript (recordedEdits crowdedScript none none)).Sublist
        (codeText (cleanedBody crowdedScript none none)) := by
  obtain ⟨hcompile, hdraft, -, hbody⟩ := compileScript_of_importless crowdedScript (by decide +kernel)
    (by decide +kernel) (by decide +kernel) (by decide +kernel)
  have hkept : keptCode crowdedScript (recordedEdits crowdedScript none none) = ("f()" : Text) := by
    rw [recordedEdits, hdraft]
    decide +kernel
  have hcode : codeText (cleanedBody crowdedScript none none) = [] := by
    rw [hbody]
    decide +kernel
  refine ⟨hcompile, hkept, hcode, ?_⟩
  rw [hkept, hcode]
  decide

end SetupScript
