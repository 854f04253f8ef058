import SetupScript.Proofs.CallForms

/-!
# The items of an argument list

An item can be told apart from its neighbours in a list: read from code it ends in code, it closes as
many brackets of each kind as it opens, and its commas stand inside brackets, literals or comments.
Items joined by commas are split into just these items, with or without a space after each comma, and
with or without a comma after the last.

The scan looks one character ahead, so the last character of an item is read together with what
follows the item. That is a comma, which opens nothing, not even together with a slash.
-/

namespace SetupScript

/-- A text that is cut off whole at a comma after it. -/
structure Uncut (t : Text) : Prop where
  code : Context.code.after t = .code
  closed : ∀ kind ∈ bracketKinds, surplus [kind.1] [kind.2] (labelFrom .code t) = 0
  noComma : NoComma t

/-- A text that may be an item of an argument list. -/
structure IsItem (t : Text) : Prop where
  nonempty : t ≠ []
  trimmed : Text.trim t = t
  /-- Read from code it ends in code. -/
  code : Context.code.after t = .code
  /-- At its end the count of every kind of bracket is zero. -/
  closed : ∀ kind ∈ bracketKinds, surplus [kind.1] [kind.2] (labelFrom .code t) = 0
  /-- Before a comma in code some count is not. -/
  inside : ∀ k, (labelFrom .code t)[k]? = some ⟨',', .code⟩ →
    ∃ kind ∈ bracketKinds, surplus [kind.1] [kind.2] ((labelFrom .code t).take k) ≠ 0

instance (t : Text) : Decidable (IsItem t) :=
  decidable_of_iff
    (t ≠ [] ∧ Text.trim t = t ∧ Context.code.after t = .code ∧
      (bracketKinds.all fun kind => surplus [kind.1] [kind.2] (labelFrom .code t) = 0) ∧
      (List.range t.length).all fun k => (labelFrom .code t)[k]? ≠ some ⟨',', .code⟩ ∨
        bracketKinds.any fun kind => surplus [kind.1] [kind.2] ((labelFrom .code t).take k) ≠ 0)
    (by
      constructor
      · rintro ⟨hne, htrim, hcode, hclosed, hinside⟩
        refine ⟨hne, htrim, hcode, by simpa using hclosed, fun k hk => ?_⟩
        have hlt := (List.getElem?_eq_some_iff.mp hk).1
        rw [length_labelFrom] at hlt
        simpa [hk] using List.all_eq_true.mp hinside k (List.mem_range.mpr hlt)
      · rintro ⟨hne, htrim, hcode, hclosed, hinside⟩
        refine ⟨hne, htrim, hcode, by simpa using hclosed, List.all_eq_true.mpr fun k _ => ?_⟩
        have hk := hinside k
        simpa [imp_iff_not_or] using hk)

/-! ## Where a list is cut -/

/-- A character is marked when it is a comma in code before which all three counts are zero. -/
theorem Scan.getElem?_markCommas (paren brace bracket : Int) (cells : List Cell) (n : Nat) :
    (markCommas paren brace bracket cells)[n]? = cells[n]?.map fun cell =>
      (cell.char, cell.isCode && cell.char == ',' && paren + surplus ['('] [')'] (cells.take n) == 0 &&
        brace + surplus ['{'] ['}'] (cells.take n) == 0 &&
        bracket + surplus ['['] [']'] (cells.take n) == 0) := by
  induction cells generalizing paren brace bracket n with
  | nil => rfl
  | cons cell rest ih =>
    rw [markCommas_eq_cons]
    cases n with
    | zero => simp
    | succ n => simp only [List.getElem?_cons_succ, ih, List.take_succ_cons, surplus_cons, Int.add_assoc]

namespace IsItem

variable {t : Text}

/-- The commas of an item are not marked. -/
theorem noComma (h : IsItem t) : NoComma t := by
  refine List.all_eq_true.mpr fun mark hmark => ?_
  obtain ⟨n, hn⟩ := List.mem_iff_getElem?.mp hmark
  rw [Scan.getElem?_markCommas] at hn
  obtain ⟨⟨c, mode⟩, hcell, rfl⟩ := Option.map_eq_some_iff.mp hn
  by_contra hcut
  simp only [Int.zero_add, Bool.not_eq_true, Bool.not_eq_false', Bool.and_eq_true, beq_iff_eq,
    Cell.isCode] at hcut
  obtain ⟨⟨⟨⟨rfl, rfl⟩, hparen⟩, hbrace⟩, hbracket⟩ := hcut
  obtain ⟨kind, hkind, hopen⟩ := h.inside n hcell
  simp only [bracketKinds, List.mem_cons, List.not_mem_nil, or_false] at hkind
  rcases hkind with rfl | rfl | rfl
  · exact hopen hparen
  · exact hopen hbrace
  · exact hopen hbracket

/-- An item is cut off whole. -/
theorem uncut (h : IsItem t) : Uncut t := ⟨h.code, h.closed, h.noComma⟩

end IsItem

/-- So is an item with a space before it. -/
theorem Uncut.space_cons {t : Text} (h : Uncut t) : Uncut (' ' :: t) := by
  have hstep : Context.step .code ' ' t.head? = (.code, 1) := step_of_isPlain (by decide) _
  refine ⟨by rw [Context.after_single hstep, h.code], fun kind hkind => ?_, ?_⟩
  · have hspace : Cell.delimiterStep [kind.1] [kind.2] ⟨' ', .code⟩ = 0 := by
      simp only [bracketKinds, List.mem_cons, List.not_mem_nil, or_false] at hkind
      rcases hkind with rfl | rfl | rfl <;> rfl
    rw [labelFrom_single hstep, surplus_cons, h.closed kind hkind, Int.add_zero]
    exact hspace
  · rw [NoComma, labelFrom_single hstep, Scan.markCommas_eq_cons]
    exact h.noComma

/-- So is nothing, which stands after a comma at the end. -/
theorem uncut_nil : Uncut [] := ⟨by simp, by simp, by simp [NoComma, Scan.markCommas]⟩

/-- Texts that are cut off whole are the pieces of the list that they make. -/
theorem cutMarked_joinWith_comma {piece : Text} {rest : List Text} (h : ∀ p ∈ piece :: rest, Uncut p) :
    Text.cutMarked (Scan.markCommas 0 0 0 (labelFrom .code (Text.joinWith "," (piece :: rest)))) =
      piece :: rest := by
  induction rest generalizing piece with
  | nil =>
    rw [Text.joinWith, List.intercalate_singleton]
    exact (h piece List.mem_cons_self).noComma.cutMarked
  | cons next rest ih =>
    obtain ⟨hpiece, hrest⟩ := List.forall_mem_cons.mp h
    have hjoined : Text.joinWith "," (piece :: next :: rest) =
        piece ++ ',' :: Text.joinWith "," (next :: rest) := by
      rw [Text.joinWith, List.intercalate_cons_cons, List.append_assoc]
      rfl
    rw [hjoined, hpiece.noComma.cutMarked_append hpiece.code hpiece.closed, ih hrest]

/-- Such a list has its trimmed pieces as arguments. -/
theorem arguments_joinWith_comma {pieces : List Text} (h : ∀ piece ∈ pieces, Uncut piece) :
    (Scan.ofText (Text.joinWith "," pieces)).arguments = Text.trimItems pieces := by
  cases pieces with
  | nil => rfl
  | cons piece rest => exact congrArg Text.trimItems (cutMarked_joinWith_comma h)

/-! ## Spaces after the commas and a comma at the end -/

namespace Text

/-- A space after each comma is one before each text but the first. -/
theorem joinWith_comma_space (first : Text) (rest : List Text) :
    joinWith ", " (first :: rest) = joinWith "," (first :: rest.map (' ' :: ·)) := by
  induction rest generalizing first with
  | nil => rfl
  | cons next rest ih =>
    have hnext : joinWith "," ((' ' :: next) :: rest.map (' ' :: ·)) = ' ' :: joinWith ", " (next :: rest) := by
      rw [ih]
      exact joinWith_consFirst "," ' ' (List.cons_ne_nil next _)
    rw [List.map_cons, joinWith, joinWith, List.intercalate_cons_cons, List.intercalate_cons_cons]
    rw [joinWith, joinWith] at hnext
    rw [hnext, List.append_assoc, List.append_assoc]
    rfl

/-- A comma after the last text is one before nothing. -/
theorem joinWith_comma_concat_nil {pieces : List Text} (h : pieces ≠ []) :
    joinWith "," (pieces ++ [[]]) = joinWith "," pieces ++ "," := by
  induction pieces with
  | nil => exact absurd rfl h
  | cons piece rest ih =>
    cases rest with
    | nil => simp [joinWith, List.intercalate_cons_cons]
    | cons next rest =>
      have hlater := ih (List.cons_ne_nil next rest)
      simp only [joinWith, List.cons_append] at hlater ⊢
      rw [List.intercalate_cons_cons, hlater, List.intercalate_cons_cons]
      simp only [List.append_assoc]

/-- Where no item is blank, all of them are kept. -/
theorem trimItems_of_ne_nil {pieces : List Text} (h : ∀ piece ∈ pieces, trim piece ≠ []) :
    trimItems pieces = pieces.map trim := by
  induction pieces with
  | nil => rfl
  | cons piece rest ih =>
    obtain ⟨hpiece, hrest⟩ := List.forall_mem_cons.mp h
    cases rest with
    | nil => simp [trimItems, hpiece]
    | cons next rest => exact congrArg (trim piece :: ·) (ih hrest)

/-- An empty item at the end is dropped. -/
theorem trimItems_concat_nil (pieces : List Text) : trimItems (pieces ++ [[]]) = pieces.map trim := by
  induction pieces with
  | nil => rfl
  | cons piece rest ih =>
    rw [List.map_cons, ← ih]
    cases rest <;> rfl

end Text

/-- Pieces that are cut off whole and not blank are the items of their list, also with a comma at the
end. -/
theorem arguments_of_pieces {pieces items : List Text} (huncut : ∀ piece ∈ pieces, Uncut piece)
    (htrim : pieces.map Text.trim = items) (hne : ∀ item ∈ items, item ≠ []) :
    (Scan.ofText (Text.joinWith "," pieces)).arguments = items ∧
      (items ≠ [] → (Scan.ofText (Text.joinWith "," pieces ++ ",")).arguments = items) := by
  subst htrim
  constructor
  · rw [arguments_joinWith_comma huncut]
    exact Text.trimItems_of_ne_nil fun piece hpiece => hne _ (List.mem_map_of_mem hpiece)
  · intro hsome
    have hpieces : pieces ≠ [] := by simpa using hsome
    have hall : ∀ piece ∈ pieces ++ [[]], Uncut piece :=
      List.forall_mem_append.mpr ⟨huncut, List.forall_mem_singleton.mpr uncut_nil⟩
    rw [← Text.joinWith_comma_concat_nil hpieces, arguments_joinWith_comma hall, Text.trimItems_concat_nil]

/-- Splitting undoes joining: the arguments of a list of items are these items, whether a comma or a
comma and a space stands between them, and a comma after the last of them adds none. -/
theorem arguments_of_joined_items (items : List Text) (h : ∀ item ∈ items, IsItem item) :
    ∀ sep ∈ ([",", ", "] : List Text), (Scan.ofText (Text.joinWith sep items)).arguments = items ∧
      (items ≠ [] → (Scan.ofText (Text.joinWith sep items ++ ",")).arguments = items) := by
  have huncut : ∀ item ∈ items, Uncut item := fun item hitem => (h item hitem).uncut
  have htrim : ∀ item ∈ items, Text.trim item = item := fun item hitem => (h item hitem).trimmed
  have hne : ∀ item ∈ items, item ≠ [] := fun item hitem => (h item hitem).nonempty
  refine List.forall_mem_cons.mpr ⟨?_, List.forall_mem_singleton.mpr ?_⟩
  · exact arguments_of_pieces huncut ((List.map_congr_left htrim).trans (List.map_id items)) hne
  · cases items with
    | nil => exact ⟨rfl, fun hsome => absurd rfl hsome⟩
    | cons first rest =>
      -- the space after a comma belongs to the next piece and is trimmed away
      obtain ⟨hfirst, hrest⟩ := List.forall_mem_cons.mp huncut
      obtain ⟨htrim, htrims⟩ := List.forall_mem_cons.mp htrim
      rw [Text.joinWith_comma_space]
      refine arguments_of_pieces (List.forall_mem_cons.mpr ⟨hfirst, ?_⟩) ?_ hne
      · exact List.forall_mem_map.mpr fun item hitem => (hrest item hitem).space_cons
      · rw [List.map_cons, List.map_map, htrim]
        exact congrArg (first :: ·) ((List.map_congr_left htrims).trans (List.map_id rest))

/-- Items with commas in a call, in literals, in a comment and in nested brackets, and one with brackets
the wrong way round. -/
def mixedItems : List Text :=
  ["f(a, b)", "'x,\\\\'", "\x60,\x60 /* , */", "\x7bk: [1, 2]\x7d", "a),(b", "c /"]

/-- A list of such items is split into them. -/
theorem arguments_of_mixedItems :
    (∀ item ∈ mixedItems, IsItem item) ∧
      (Scan.ofText (Text.joinWith "," mixedItems)).arguments = mixedItems ∧
      (Scan.ofText (Text.joinWith ", " mixedItems ++ ",")).arguments = mixedItems := by
  have hitems : ∀ item ∈ mixedItems, IsItem item := by decide +kernel
  have hsplit := arguments_of_joined_items mixedItems hitems
  exact ⟨hitems, (hsplit "," (by simp)).1, (hsplit ", " (by simp)).2 (by simp [mixedItems])⟩

end SetupScript
