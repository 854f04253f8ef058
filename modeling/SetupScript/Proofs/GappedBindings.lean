import Mathlib.Data.List.Forall2
import SetupScript.Proofs.ExtractedRegions
import SetupScript.Proofs.GappedPatterns
import SetupScript.Proofs.StatementLeads

/-!
# Declarations in texts with gaps

The searches for declarations find the same ones in the two texts of a text with gaps, at
corresponding places, if no gap stands between two characters that join. Corresponding places have the
same brace depth, and the regions from there on correspond too, so the two texts declare the same
names at statement level.
-/

namespace SetupScript.Gapped

variable {α : Type} {g : Gapped}

/-! ## Matches -/

/-- Two matches of one value at corresponding places, which start with the first letter of a word that
declares and end with a character. -/
def MatchAlike (g : Gapped) (found found' : Text.Match α) : Prop :=
  ∃ (done front rest : Gapped) (value : α), g = done ++ (front ++ rest) ∧
    (∃ c, Text.startsDeclaring c ∧ front.head? = some (some c)) ∧ EndsKept front ∧
    found = ⟨(closed done).length, (closed done).length + (closed front).length, value⟩ ∧
    found' = ⟨done.length, done.length + front.length, value⟩

/-- A match of a word that declares may start in both texts or in neither. -/
theorem outsideMember_texts {done rest : Gapped} {c : Char} (hc : Text.startsDeclaring c)
    (hapart : ApartFrom none (done ++ some c :: rest)) :
    Text.outsideMember (closed done).getLast? = Text.outsideMember (filled done).getLast? := by
  obtain rfl | ⟨init, place, rfl⟩ := List.eq_nil_or_concat done
  · rfl
  rw [List.concat_eq_append] at hapart ⊢
  cases place with
  | some d => simp
  | none =>
    -- The space in the gap admits a match; so must the character before the gap, which joins not.
    have hspace : Text.outsideMember (filled (init ++ [none])).getLast? = true := by
      simp [Text.outsideMember]
      decide
    rw [hspace, closed_append, closed_none, closed_nil, List.append_nil]
    cases hlast : (closed init).getLast? with
    | none => rfl
    | some a =>
      rw [List.append_assoc] at hapart
      have hgap := hapart.append.2
      rw [hlast] at hgap
      have hjoins : Text.joins a c = false := hgap.1 a rfl c rfl
      have hname := Text.isNameChar_of_startsDeclaring hc
      simp only [Text.joins, hc, hname, Bool.and_true, Bool.or_true, Bool.or_eq_false_iff] at hjoins
      simp [Text.outsideMember, hjoins.1.1.1]

/-- A reader that agrees, of words that declare, finds matches at corresponding places from one place
of the text on, where `done` is what stands before it. -/
theorem findAllFrom_texts {reader : Reader α}
    (hagrees : ∀ {before : Option Char} {g : Gapped}, ApartFrom before g → Flush g →
      Agrees reader g fun _ front _ => EndsKept front)
    (hfirst : ∀ c t, (reader (c :: t)).isSome → Text.startsDeclaring c) (done rest : Gapped)
    (hapart : ApartFrom none (done ++ rest)) :
    List.Forall₂ (MatchAlike (done ++ rest))
      (Text.findAllFrom Text.outsideMember reader (closed done).getLast? (closed done).length 0
        (closed rest))
      (Text.findAllFrom Text.outsideMember reader (filled done).getLast? done.length 0
        (filled rest)) := by
  induction hn : rest.length using Nat.strong_induction_on generalizing done rest with
  | _ n ih =>
    cases rest with
    | nil => exact .nil
    | cons place rest =>
      have hdone : done ++ place :: rest = done ++ [place] ++ rest := by simp
      have hpast := ih rest.length (by simp [← hn]) (done ++ [place]) rest (hdone ▸ hapart) rfl
      rw [← hdone] at hpast
      cases place with
      | none =>
        have hspace : reader (' ' :: filled rest) = none := by
          by_contra hread
          exact absurd (hfirst _ _ (Option.isSome_iff_ne_none.mpr hread)) (by decide)
        rw [filled_none, Text.findAllFrom_refused fun _ => hspace]
        simpa using hpast
      | some c =>
        cases hagrees hapart.append.2 (by simp [Flush]) with
        | refused hclosed hfilled =>
          rw [closed_some] at hclosed ⊢
          rw [filled_some] at hfilled ⊢
          rw [Text.findAllFrom_refused fun _ => hclosed, Text.findAllFrom_refused fun _ => hfilled]
          simpa using hpast
        | read value front left hsplit hends hclosed hfilled =>
          have hdeclares := hfirst c _ (Option.isSome_of_eq_some hclosed)
          have hadmits := outsideMember_texts hdeclares hapart
          by_cases hadmit : Text.outsideMember (closed done).getLast?
          · obtain ⟨d, hlast⟩ := hends
            obtain ⟨init, rfl⟩ := List.getLast?_eq_some_iff.mp hlast
            rw [hsplit] at hapart hclosed hfilled ⊢
            have hlater := ih left.length (by rw [← hn, hsplit]; simp; omega) (done ++ (init ++ [some d])) left
              (by rwa [List.append_assoc]) rfl
            rw [List.append_assoc] at hlater
            rw [closed_append _ left] at hclosed ⊢
            rw [filled_append _ left] at hfilled ⊢
            rw [Text.findAllFrom_read (by simp) hadmit hclosed,
              Text.findAllFrom_read (by simp) (hadmits ▸ hadmit) hfilled]
            have hhead : (init ++ [some d]).head? = some (some c) := by
              have hplace := congrArg List.head? hsplit
              cases init <;> exact hplace.symm
            refine .cons ⟨done, init ++ [some d], left, value, rfl, ⟨c, hdeclares, hhead⟩, ⟨d, hlast⟩, rfl,
              by simp⟩ ?_
            simpa using hlater
          · rw [closed_some, filled_some, Text.findAllFrom_refused (absurd · hadmit),
              Text.findAllFrom_refused (absurd · (hadmits ▸ hadmit))]
            simpa using hpast

/-- A declaration starts with the first letter of a word that declares. -/
theorem first_of_declarationWord {second : Reader α} {c : Char} {t : Text}
    (h : ((Reader.declarationWord >>= fun _ => second) (c :: t)).isSome) : Text.startsDeclaring c := by
  obtain ⟨⟨value, left⟩, hread⟩ := Option.isSome_iff_exists.mp h
  rw [Reader.declarationWord, bind_assoc] at hread
  obtain ⟨word, rest, hword, -⟩ := Reader.bind_eq_some.mp hread
  obtain ⟨hmem, hsplit⟩ := Reader.oneOf_eq_some hword
  simp only [List.mem_cons, List.not_mem_nil, or_false] at hmem
  rcases hmem with rfl | rfl | rfl <;> cases hsplit <;> rfl

/-- A function declaration starts with the first letter of a word that declares. -/
theorem first_of_functionDeclaration {c : Char} {t : Text}
    (h : (Reader.functionDeclaration (c :: t)).isSome) : Text.startsDeclaring c := by
  obtain ⟨⟨value, left⟩, hread⟩ := Option.isSome_iff_exists.mp h
  obtain ⟨u, rest, hword, -⟩ := Reader.bind_eq_some.mp hread
  cases Reader.literal_eq_some.mp hword
  rfl

/-- The matches of two searches that are filtered alike give the same, if those that stay do. -/
theorem flatMap_filter_of_forall₂ {β γ δ : Type} {R : β → γ → Prop} {founds : List β}
    {founds' : List γ} (h : List.Forall₂ R founds founds') {p : β → Bool} {q : γ → Bool}
    {f : β → List δ} {f' : γ → List δ} (hfilter : ∀ a, ∀ b ∈ founds', R a b → p a = q b)
    (hgives : ∀ a b, R a b → f a = f' b) :
    (founds.filter p).flatMap f = (founds'.filter q).flatMap f' := by
  induction h with
  | nil => rfl
  | @cons a b _ _ hab _ ih =>
    have hrest := ih fun a b hb => hfilter a b (List.mem_cons_of_mem _ hb)
    rw [List.filter_cons, List.filter_cons, ← hfilter a b (List.mem_cons_self ..) hab]
    split
    · rw [List.flatMap_cons, List.flatMap_cons, hgives a b hab, hrest]
    · exact hrest

/-- The matches that stay of one search give part of what those of the other give, if the other keeps
all that correspond to them. -/
theorem map_filter_sublist_of_forall₂ {β γ δ : Type} {R : β → γ → Prop} {founds : List β}
    {founds' : List γ} (h : List.Forall₂ R founds founds') {p : β → Bool} {q : γ → Bool}
    {f : β → δ} {f' : γ → δ} (hfilter : ∀ a b, R a b → q b → p a) (hgives : ∀ a b, R a b → f a = f' b) :
    ((founds'.filter q).map f').Sublist ((founds.filter p).map f) := by
  induction h with
  | nil => exact .slnil
  | @cons a b _ _ hab _ ih =>
    cases hq : q b with
    | true =>
      rw [List.filter_cons_of_pos hq, List.filter_cons_of_pos (hfilter a b hab hq), List.map_cons,
        List.map_cons, hgives a b hab]
      exact ih.cons_cons _
    | false =>
      rw [List.filter_cons_of_neg (by simp [hq])]
      exact ih.trans ((List.sublist_cons_self ..).filter p |>.map f)

/-! ## Cells -/

/-- The cells of a text with gaps, its gaps closed up. -/
def closedCells (cells : List (Option Cell)) : List Cell := cells.filterMap id

/-- The cells of a text with gaps, with spaces in code in its gaps. -/
def filledCells (cells : List (Option Cell)) : List Cell := cells.map (·.getD ⟨' ', .code⟩)

/-- The text of cells with gaps. -/
def chars (cells : List (Option Cell)) : Gapped := cells.map (Option.map Cell.char)

/-- The scans of the two texts of cells with gaps are these cells, with the gaps closed or filled. -/
structure Scanned (cells : List (Option Cell)) : Prop where
  closed : (Scan.ofText (closed (chars cells))).cells = closedCells cells
  filled : (Scan.ofText (filled (chars cells))).cells = filledCells cells

variable {cells : List (Option Cell)}

/-- The texts of the cells are those of the text with gaps. -/
theorem map_char_cells (cells : List (Option Cell)) :
    (closedCells cells).map Cell.char = closed (chars cells) ∧
      (filledCells cells).map Cell.char = filled (chars cells) := by
  induction cells with
  | nil => exact ⟨rfl, rfl⟩
  | cons place rest ih =>
    cases place with
    | none => exact ⟨ih.1, congrArg (' ' :: ·) ih.2⟩
    | some cell => exact ⟨congrArg (cell.char :: ·) ih.1, congrArg (cell.char :: ·) ih.2⟩

theorem length_closedCells (cells : List (Option Cell)) :
    (closedCells cells).length = (closed (chars cells)).length := by
  rw [← (map_char_cells cells).1, List.length_map]

theorem countP_isSome (cells : List (Option Cell)) :
    cells.countP Option.isSome = (closedCells cells).length := by
  rw [length_closedCells, length_closed, chars, List.countP_map]
  exact List.countP_congr fun place _ => by cases place <;> rfl

theorem length_filledCells (cells : List (Option Cell)) : (filledCells cells).length = cells.length :=
  List.length_map _

theorem length_chars (cells : List (Option Cell)) : (chars cells).length = cells.length :=
  List.length_map _

theorem chars_append (a b : List (Option Cell)) : chars (a ++ b) = chars a ++ chars b := List.map_append

theorem closedCells_append (a b : List (Option Cell)) :
    closedCells (a ++ b) = closedCells a ++ closedCells b := List.filterMap_append

theorem filledCells_append (a b : List (Option Cell)) :
    filledCells (a ++ b) = filledCells a ++ filledCells b := List.map_append

theorem closedCells_cut (a b : List (Option Cell)) (cell : Cell) :
    closedCells (a ++ some cell :: b) = closedCells a ++ cell :: closedCells b := closedCells_append ..

theorem filledCells_cut (a b : List (Option Cell)) (cell : Cell) :
    filledCells (a ++ some cell :: b) = filledCells a ++ cell :: filledCells b := filledCells_append ..

theorem braceTotal_filledCells (cells : List (Option Cell)) :
    braceTotal (filledCells cells) = braceTotal (closedCells cells) := by
  induction cells with
  | nil => rfl
  | cons place rest ih =>
    cases place with
    | none =>
      have hspace : Cell.braceStep ⟨' ', .code⟩ = 0 := rfl
      calc braceTotal (⟨' ', .code⟩ :: filledCells rest)
          = braceTotal (filledCells rest) := by rw [braceTotal_cons, hspace, Int.zero_add]
        _ = braceTotal (closedCells rest) := ih
    | some cell => exact congrArg (cell.braceStep + ·) ih

/-- A cell is at statement level if it is code and the cells before it add no depth. -/
theorem isTopLevel_of_cells {t : Text} {a b : List Cell} {cell : Cell}
    (hcells : (Scan.ofText t).cells = a ++ cell :: b) :
    (Scan.ofText t).isTopLevel a.length = (cell.isCode && braceTotal a == 0) := by
  have hlength : a.length ≤ t.length := by
    have hlength := congrArg List.length hcells
    simp only [Scan.ofText, length_labelFrom, List.length_append, List.length_cons] at hlength
    omega
  rw [Scan.isTopLevel, Scan.isCode, Scan.depthAt_ofText hlength, hcells, List.take_left,
    List.getElem?_append_right (Nat.le_refl _), Nat.sub_self]
  rfl

/-- Corresponding characters are at statement level in both texts or in neither. -/
theorem Scanned.isTopLevel {a b : List (Option Cell)} {cell : Cell}
    (h : Scanned (a ++ some cell :: b)) :
    (Scan.ofText (Gapped.closed (chars (a ++ some cell :: b)))).isTopLevel (closedCells a).length =
      (Scan.ofText (Gapped.filled (chars (a ++ some cell :: b)))).isTopLevel a.length := by
  have hlevel := isTopLevel_of_cells (h.filled.trans (filledCells_cut a b cell))
  rw [length_filledCells, braceTotal_filledCells] at hlevel
  rw [isTopLevel_of_cells (h.closed.trans (closedCells_cut a b cell)), hlevel]

/-- A place of the text of cells is one of the cells. -/
theorem exists_cells_of_split {done rest : Gapped} (h : chars cells = done ++ rest) :
    ∃ a b, cells = a ++ b ∧ chars a = done ∧ chars b = rest := by
  obtain ⟨a, b, rfl, rfl, rfl⟩ := List.map_eq_append_iff.mp h
  exact ⟨a, b, rfl, rfl, rfl⟩

/-- Matches at corresponding places are at statement level in both texts or in neither. -/
theorem MatchAlike.isTopLevel {found found' : Text.Match α} (h : Scanned cells)
    (hmatch : MatchAlike (chars cells) found found') :
    (Scan.ofText (closed (chars cells))).isTopLevel found.start =
      (Scan.ofText (filled (chars cells))).isTopLevel found'.start := by
  obtain ⟨done, front, rest, value, hsplit, ⟨c, -, hhead⟩, -, rfl, rfl⟩ := hmatch
  obtain ⟨more, rfl⟩ := List.head?_eq_some_iff.mp hhead
  obtain ⟨a, b, rfl, rfl, hb⟩ := exists_cells_of_split hsplit
  obtain ⟨cell, b, rfl⟩ : ∃ cell more, b = some cell :: more := by
    cases b with
    | nil => cases hb
    | cons place more =>
      cases place with
      | some cell => exact ⟨cell, more, rfl⟩
      | none => cases hb
  have hlevel := h.isTopLevel
  rw [length_closedCells] at hlevel
  rw [length_chars]
  exact hlevel

/-- The plain declarations of the two texts are the same. -/
theorem plainNames_texts (h : Scanned cells) (hapart : ApartFrom none (chars cells)) :
    Bindings.plainNames (Scan.ofText (closed (chars cells))) =
      Bindings.plainNames (Scan.ofText (filled (chars cells))) := by
  have hfound := findAllFrom_texts (fun hapart hflush => Agrees.nameDeclaration hapart hflush)
    (fun c t => first_of_declarationWord) [] (chars cells) hapart
  rw [Bindings.plainNames, Bindings.plainNames, List.map_eq_flatMap, List.map_eq_flatMap,
    Scan.text_ofText, Scan.text_ofText]
  refine flatMap_filter_of_forall₂ hfound (fun _ _ _ hmatch => hmatch.isTopLevel h) ?_
  rintro _ _ ⟨_, _, _, value, -, -, -, rfl, rfl⟩
  rfl

/-! ## Regions -/

variable {o c : Char}

theorem isDelimiter_space (h : o ≠ ' ') : Cell.isDelimiter ⟨' ', .code⟩ [o] = false := by
  simp [Cell.isDelimiter, h]

/-- The first opening delimiter is found at the same place. -/
theorem openingFrom_cells (ho : o ≠ ' ') (n m : Nat) (cells : List (Option Cell)) :
    StopAlike Option.isSome (fun back => ∃ cell rest, back = some cell :: rest) n m cells
      (Scan.openingFrom [o] n (closedCells cells)) (Scan.openingFrom [o] m (filledCells cells)) := by
  induction cells generalizing n m with
  | nil => exact .inl ⟨rfl, rfl⟩
  | cons place rest ih =>
    cases place with
    | none =>
      have hstep : Scan.openingFrom [o] m (filledCells (none :: rest)) =
          Scan.openingFrom [o] (m + 1) (filledCells rest) := by
        simp [filledCells, Scan.openingFrom, isDelimiter_space ho]
      rw [hstep]
      exact (ih n (m + 1)).past_gap rfl
    | some cell =>
      change StopAlike _ _ n m _ (Scan.openingFrom [o] n (cell :: closedCells rest))
        (Scan.openingFrom [o] m (cell :: filledCells rest))
      simp only [Scan.openingFrom]
      split
      · exact .inr ⟨[], _, rfl, ⟨cell, rest, rfl⟩, rfl, rfl⟩
      · exact (ih _ _).past_kept rfl

/-- The closing delimiter of a region is found at the same place. -/
theorem closingFrom_cells (ho : o ≠ ' ') (hc : c ≠ ' ') (depth n m : Nat) (cells : List (Option Cell)) :
    StopAlike Option.isSome (fun back => ∃ cell rest, back = some cell :: rest) n m cells
      (Scan.closingFrom [o] [c] depth n (closedCells cells))
      (Scan.closingFrom [o] [c] depth m (filledCells cells)) := by
  induction cells generalizing depth n m with
  | nil => exact .inl ⟨rfl, rfl⟩
  | cons place rest ih =>
    cases place with
    | none =>
      have hstep : Scan.closingFrom [o] [c] depth m (filledCells (none :: rest)) =
          Scan.closingFrom [o] [c] depth (m + 1) (filledCells rest) := by
        simp [filledCells, Scan.closingFrom, isDelimiter_space ho, isDelimiter_space hc]
      rw [hstep]
      exact (ih depth n (m + 1)).past_gap rfl
    | some cell =>
      change StopAlike _ _ n m _ (Scan.closingFrom [o] [c] depth n (cell :: closedCells rest))
        (Scan.closingFrom [o] [c] depth m (cell :: filledCells rest))
      simp only [Scan.closingFrom]
      split
      · exact (ih _ _ _).past_kept rfl
      split
      · split
        · exact .inr ⟨[], _, rfl, ⟨cell, rest, rfl⟩, rfl, rfl⟩
        · exact (ih _ _ _).past_kept rfl
      · exact (ih _ _ _).past_kept rfl

section Cut

variable {scan : Scan} {a front inner rest : List Cell} {first last : Cell}

/-- Where no opening delimiter follows there is no region. -/
theorem balanced?_of_not_opened (hcells : scan.cells = a ++ rest)
    (hopening : Scan.openingFrom [o] a.length rest = none) : scan.balanced? a.length [o] [c] = none := by
  refine Option.eq_none_iff_forall_ne_some.mpr fun span hspan => ?_
  obtain ⟨-, hfound, -⟩ := Scan.balanced?_eq_some_searches.mp hspan
  rw [Int.toNat_natCast, hcells, List.drop_left, hopening] at hfound
  cases hfound

/-- The two searches for a region, in the cells that each of them sees. -/
theorem balanced?_eq_some_cut (hcells : scan.cells = a ++ (front ++ first :: rest))
    (hopening : Scan.openingFrom [o] a.length (front ++ first :: rest) = some (a.length + front.length))
    {span : Span} :
    scan.balanced? a.length [o] [c] = some span ↔ span.start = a.length + front.length ∧
      Scan.closingFrom [o] [c] 1 (span.start + 1) rest = some span.stop ∧
      span.text = (scan.text.drop span.start).take (span.stop + 1 - span.start) := by
  have hinside : (a.length : Int) < scan.cells.length := by
    rw [hcells, List.length_append, List.length_append, List.length_cons]
    omega
  have hrest : scan.cells.drop (a.length + front.length + 1) = rest := by
    rw [hcells, ← List.append_assoc, ← List.length_append, List.drop_length_add_append]
    rfl
  rw [Scan.balanced?_eq_some_searches, Int.toNat_natCast]
  nth_rewrite 2 [hcells]
  rw [List.drop_left, hopening, Option.some_inj, eq_comm]
  constructor
  · rintro ⟨-, hstart, hclosing, htext⟩
    rw [hstart, hrest, ← hstart] at hclosing
    exact ⟨hstart, hclosing, htext⟩
  · rintro ⟨hstart, hclosing, htext⟩
    refine ⟨⟨Int.natCast_nonneg _, hinside⟩, hstart, ?_, htext⟩
    rw [hstart, hrest, ← hstart, hclosing]

/-- Where the first opening delimiter is never closed there is no region. -/
theorem balanced?_of_not_closed (hcells : scan.cells = a ++ (front ++ first :: rest))
    (hopening : Scan.openingFrom [o] a.length (front ++ first :: rest) = some (a.length + front.length))
    (hclosing : Scan.closingFrom [o] [c] 1 (a.length + front.length + 1) rest = none) :
    scan.balanced? a.length [o] [c] = none := by
  refine Option.eq_none_iff_forall_ne_some.mpr fun span hspan => ?_
  obtain ⟨hstart, hfound, -⟩ := (balanced?_eq_some_cut hcells hopening).mp hspan
  rw [hstart, hclosing] at hfound
  cases hfound

/-- The region that the two searches find holds the cells from the one delimiter to the other. -/
theorem exists_balanced? (hcells : scan.cells = a ++ (front ++ first :: (inner ++ last :: rest)))
    (hopening : Scan.openingFrom [o] a.length (front ++ first :: (inner ++ last :: rest)) =
      some (a.length + front.length))
    (hclosing : Scan.closingFrom [o] [c] 1 (a.length + front.length + 1) (inner ++ last :: rest) =
      some (a.length + front.length + 1 + inner.length)) :
    ∃ span, scan.balanced? a.length [o] [c] = some span ∧
      span.text = (first :: (inner ++ [last])).map Cell.char ∧
      scan.text.drop (span.stop + 1) = rest.map Cell.char := by
  have htext : scan.text = (a ++ front).map Cell.char ++
      ((first :: (inner ++ [last])).map Cell.char ++ rest.map Cell.char) := by
    simp [Scan.text, hcells]
  have hstart : ((a ++ front).map Cell.char).length = a.length + front.length := by simp
  have hlength : ((first :: (inner ++ [last])).map Cell.char).length = inner.length + 2 := by simp
  refine ⟨⟨a.length + front.length, a.length + front.length + 1 + inner.length, _⟩,
    (balanced?_eq_some_cut hcells hopening).mpr ⟨rfl, hclosing, ?_⟩, rfl, ?_⟩
  · dsimp only
    rw [htext, List.drop_left' hstart, List.take_left' (by omega), List.map_cons]
  · dsimp only
    rw [htext, ← List.append_assoc, List.drop_left' (by rw [List.length_append]; omega)]

end Cut

/-- The regions from one place on in both texts are the texts of one part, and what comes after them
are the texts of the rest. -/
theorem Scanned.balanced? {a b : List (Option Cell)} (h : Scanned (a ++ b)) (ho : o ≠ ' ') (hc : c ≠ ' ') :
    let scan := Scan.ofText (Gapped.closed (chars (a ++ b)))
    let scan' := Scan.ofText (Gapped.filled (chars (a ++ b)))
    scan.balanced? (closedCells a).length [o] [c] = none ∧ scan'.balanced? a.length [o] [c] = none ∨
      ∃ front region rest span span', a ++ b = front ++ (region ++ rest) ∧
        scan.balanced? (closedCells a).length [o] [c] = some span ∧
        scan'.balanced? a.length [o] [c] = some span' ∧
        span.text = Gapped.closed (chars region) ∧ span'.text = Gapped.filled (chars region) ∧
        scan.text.drop (span.stop + 1) = Gapped.closed (chars rest) ∧
        scan'.text.drop (span'.stop + 1) = Gapped.filled (chars rest) := by
  intro scan scan'
  have hcells : scan.cells = closedCells a ++ closedCells b := h.closed.trans (closedCells_append a b)
  have hcells' : scan'.cells = filledCells a ++ filledCells b := h.filled.trans (filledCells_append a b)
  rw [← length_filledCells a]
  obtain ⟨hnone, hnone'⟩ | ⟨front, back, rfl, ⟨first, rest, rfl⟩, hopening, hopening'⟩ :=
    openingFrom_cells ho (closedCells a).length (filledCells a).length b
  · exact .inl ⟨balanced?_of_not_opened hcells hnone, balanced?_of_not_opened hcells' hnone'⟩
  rw [closedCells_cut] at hcells hopening
  rw [filledCells_cut] at hcells' hopening'
  rw [countP_isSome] at hopening
  rw [← length_filledCells front] at hopening'
  -- The closing delimiter is looked for right after the opening one.
  obtain ⟨hnone, hnone'⟩ | ⟨inner, back, rfl, ⟨last, after, rfl⟩, hclosing, hclosing'⟩ :=
    closingFrom_cells ho hc 1 ((closedCells a).length + (closedCells front).length + 1)
      ((filledCells a).length + (filledCells front).length + 1) rest
  · exact .inl ⟨balanced?_of_not_closed hcells hopening hnone,
      balanced?_of_not_closed hcells' hopening' hnone'⟩
  rw [closedCells_cut inner] at hcells hopening hclosing
  rw [filledCells_cut inner] at hcells' hopening' hclosing'
  rw [countP_isSome] at hclosing
  rw [← length_filledCells inner] at hclosing'
  obtain ⟨span, hspan, hregion, hafter⟩ := exists_balanced? hcells hopening hclosing
  obtain ⟨span', hspan', hregion', hafter'⟩ := exists_balanced? hcells' hopening' hclosing'
  rw [(map_char_cells after).1] at hafter
  rw [(map_char_cells after).2] at hafter'
  refine .inr ⟨a ++ front, some first :: (inner ++ [some last]), after, span, span', by simp, hspan,
    hspan', ?_, ?_, hafter, hafter'⟩
  · rw [hregion, ← (map_char_cells _).1]
    exact congrArg (List.map Cell.char <| first :: ·) (closedCells_cut inner [] last).symm
  · rw [hregion', ← (map_char_cells _).2]
    exact congrArg (List.map Cell.char <| first :: ·) (filledCells_cut inner [] last).symm

/-- The cells up to the last character of a match, and from there on. -/
theorem MatchAlike.exists_last {found found' : Text.Match α} (hmatch : MatchAlike (chars cells) found found') :
    ∃ a cell b, cells = a ++ some cell :: b ∧ found.stop - 1 = (closedCells a).length ∧
      found'.stop - 1 = a.length := by
  obtain ⟨done, front, rest, value, hsplit, -, ⟨d, hlast⟩, rfl, rfl⟩ := hmatch
  obtain ⟨init, rfl⟩ := List.getLast?_eq_some_iff.mp hlast
  obtain ⟨a, b, rfl, hdone, hb⟩ := exists_cells_of_split
    (show chars cells = (done ++ init) ++ some d :: rest by rw [hsplit]; simp)
  cases b with
  | nil => cases hb
  | cons place more =>
    cases place with
    | none => cases hb
    | some cell =>
      refine ⟨a, cell, more, rfl, ?_, ?_⟩
      · rw [length_closedCells, hdone]
        simp
      · rw [← length_chars a, hdone]
        simp

/-- The patterns of the two texts bind the same names. -/
theorem patternNames_texts {settings : Settings} (hparam : settings.propsParam.all Text.isNameChar)
    (h : Scanned cells) (hapart : ApartFrom none (chars cells)) {opener : Char} (ho : opener ≠ ' ') :
    (Bindings.patternNames settings (Scan.ofText (closed (chars cells))) opener).1 =
      (Bindings.patternNames settings (Scan.ofText (filled (chars cells))) opener).1 := by
  have hfound := findAllFrom_texts
    (fun hapart hflush => (Agrees.patternDeclaration hapart hflush).imp fun opener _ _ hlast => ⟨opener, hlast⟩)
    (fun c t => first_of_declarationWord) [] (chars cells) hapart
  have hcloser : patternCloser opener ≠ ' ' := by
    unfold patternCloser
    split <;> decide
  rw [Bindings.patternNames, Bindings.patternNames, Scan.text_ofText, Scan.text_ofText]
  simp only [List.flatMap_map]
  refine flatMap_filter_of_forall₂ hfound (fun found found' _ hmatch => ?_) fun found found' hmatch => ?_
  · rw [hmatch.isTopLevel h]
    obtain ⟨_, _, _, value, -, -, -, rfl, rfl⟩ := hmatch
    rfl
  · obtain ⟨a, cell, b, rfl, hstop, hstop'⟩ := hmatch.exists_last
    rw [hstop, hstop']
    obtain ⟨hnone, hnone'⟩ | ⟨front, region, rest, span, span', hsplit, hspan, hspan', htext, htext', hrest,
      hrest'⟩ := h.balanced? ho hcloser
    · rw [hnone, hnone']
    · rw [Scan.text_ofText] at hrest hrest'
      simp only [hspan, hspan', htext, htext', hrest, hrest']
      have hchars : chars (a ++ some cell :: b) = chars front ++ chars region ++ chars rest := by
        rw [hsplit, chars_append, chars_append, List.append_assoc]
      rw [hchars] at hapart
      have hassignment := (Agrees.assignment hapart.append.2).isSome_eq
      have hparams := (Agrees.assignmentOf hparam hapart.append.2).isSome_eq
      have hnames := names_texts (hapart.of_part ⟨chars front, chars rest, rfl⟩)
      rw [hassignment, ← Option.not_isSome, ← Option.not_isSome, hparams, hnames]

/-! ## Functions -/

/-- The matches of function declarations in the two texts. -/
theorem functions_texts (hapart : ApartFrom none g) :
    List.Forall₂ (MatchAlike g) (Text.findAll Text.outsideMember Reader.functionDeclaration (closed g))
      (Text.findAll Text.outsideMember Reader.functionDeclaration (filled g)) :=
  findAllFrom_texts (fun hapart hflush => Agrees.functionDeclaration hapart hflush)
    (fun _ _ => first_of_functionDeclaration) [] g hapart

/-- Before a match, the two texts have the same leads; within the window the closed text shows no less. -/
theorem MatchAlike.starts {found found' : Text.Match α} (hapart : ApartFrom none g)
    (hmatch : MatchAlike g found found') :
    (Bindings.startsStatement (filled g) found'.start → Bindings.startsStatement (closed g) found.start) ∧
      (Bindings.startsStatement (closed g) found.start →
        Bindings.followsLead ((filled g).take found'.start)) := by
  obtain ⟨done, front, rest, value, rfl, ⟨c, hc, hhead⟩, -, rfl, rfl⟩ := hmatch
  obtain ⟨more, rfl⟩ := List.head?_eq_some_iff.mp hhead
  have hname := Text.isNameChar_of_startsDeclaring hc
  have hdone : ApartFrom none (done ++ [some c]) := by
    rw [List.cons_append, List.append_cons] at hapart
    exact hapart.append.1
  rw [closed_append, filled_append]
  refine ⟨startsStatement_of_filled hname hdone, fun hstarts => ?_⟩
  rw [List.take_left' (length_filled done)]
  exact followsLead_of_closed hname hdone hstarts

/-- The functions of the filled text are among those of the closed text. -/
theorem functionNames_sublist (h : Scanned cells) (hapart : ApartFrom none (chars cells)) :
    (Bindings.functionNames (Scan.ofText (filled (chars cells)))).Sublist
      (Bindings.functionNames (Scan.ofText (closed (chars cells)))) := by
  rw [Bindings.functionNames, Bindings.functionNames, Scan.text_ofText, Scan.text_ofText]
  refine map_filter_sublist_of_forall₂ (functions_texts hapart) (fun found found' hmatch hstays => ?_) ?_
  · rw [Bool.and_eq_true] at hstays ⊢
    exact ⟨hmatch.isTopLevel h ▸ hstays.1, (hmatch.starts hapart).1 hstays.2⟩
  · rintro _ _ ⟨_, _, _, value, -, -, -, rfl, rfl⟩
    rfl

/-- The functions of the two texts are the same where all leads fit into the window. -/
theorem functionNames_texts (h : Scanned cells) (hapart : ApartFrom none (chars cells))
    (hwindow : Bindings.LeadsInWindow (filled (chars cells))) :
    Bindings.functionNames (Scan.ofText (closed (chars cells))) =
      Bindings.functionNames (Scan.ofText (filled (chars cells))) := by
  rw [Bindings.functionNames, Bindings.functionNames, Scan.text_ofText, Scan.text_ofText,
    List.map_eq_flatMap, List.map_eq_flatMap]
  refine flatMap_filter_of_forall₂ (functions_texts hapart) (fun found found' hfound hmatch => ?_) ?_
  · obtain ⟨left, -, hread, -⟩ := Text.mem_findAll hfound
    have hstarts := hmatch.starts hapart
    rw [hmatch.isTopLevel h, Bool.eq_iff_iff, Bool.and_eq_true, Bool.and_eq_true]
    refine and_congr_right fun htop => ⟨fun hclosed => ?_, hstarts.1⟩
    exact hwindow found'.start htop (Option.isSome_of_eq_some hread) (hstarts.2 hclosed)
  · rintro _ _ ⟨_, _, _, value, -, -, -, rfl, rfl⟩
    rfl

end SetupScript.Gapped
