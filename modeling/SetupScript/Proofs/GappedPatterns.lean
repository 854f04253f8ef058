import Mathlib.Data.List.DropRight
import SetupScript.Proofs.GappedText
import SetupScript.Proofs.NestedText

/-!
# Patterns with gaps

A pattern binds the same names whether its gaps are closed up or hold spaces, if no gap stands between
two characters that join. The walk over a pattern gives corresponding places the same bracket depth,
so the two texts are cut into elements, keys and nested patterns at corresponding places.
-/

namespace SetupScript.Gapped

open Pattern

variable {g h : Gapped}

/-! ## Trimming -/

/-- The text without the gaps and blanks at its two ends. -/
def trim (g : Gapped) : Gapped := (g.dropWhile isOpen).rdropWhile isOpen

theorem closed_reverse (g : Gapped) : closed g.reverse = (closed g).reverse := List.filterMap_reverse

theorem filled_reverse (g : Gapped) : filled g.reverse = (filled g).reverse := List.map_reverse

/-- Trimming a text with gaps trims both its texts. -/
theorem trim_texts (g : Gapped) :
    closed (trim g) = Text.trim (closed g) ∧ filled (trim g) = Text.trim (filled g) := by
  have hstart := dropWhile_isOpen g
  have hend := dropWhile_isOpen (g.dropWhile isOpen).reverse
  rw [trim, List.rdropWhile, closed_reverse, filled_reverse, hend.1, hend.2, closed_reverse,
    filled_reverse, hstart.1, hstart.2]
  exact ⟨rfl, rfl⟩

theorem trim_part (g : Gapped) : trim g <:+: g :=
  (List.rdropWhile_prefix _ _).isInfix.trans (List.dropWhile_suffix _).isInfix

/-- A trimmed text begins with a character that is not blank. -/
theorem isOpen_of_head?_trim {place : Option Char} (h : (trim g).head? = some place) :
    isOpen place = false := by
  obtain ⟨back, hback⟩ := List.rdropWhile_prefix isOpen (g.dropWhile isOpen)
  have hopen := List.head?_dropWhile_not isOpen g
  rw [trim] at h
  rw [← hback, List.head?_append, h] at hopen
  exact hopen

theorem flush_trim (g : Gapped) : Flush (trim g) := fun hhead =>
  absurd (isOpen_of_head?_trim hhead) (by decide)

theorem flush_reverse_trim (g : Gapped) : Flush (trim g).reverse := by
  rw [trim, List.rdropWhile, List.reverse_reverse]
  exact flush_dropWhile _

/-- The two texts of a trimmed text end alike. -/
theorem getLast?_trim (g : Gapped) : (filled (trim g)).getLast? = (closed (trim g)).getLast? := by
  rw [← List.head?_reverse, ← List.head?_reverse, ← filled_reverse, ← closed_reverse]
  exact head?_of_flush (flush_reverse_trim g)

/-! ## The walk -/

/-- Every place of a text with the bracket depth before it, or with none inside a quoted string. -/
def walkGaps (quote : Option Char) (before : Char) (depth : Int) :
    Gapped → List (Option Char × Option Int)
  | [] => []
  | none :: rest =>
    (none, if quote.isSome then none else some depth) :: walkGaps quote before depth rest
  | some c :: rest =>
    match quote with
    | some q =>
      (some c, none) :: walkGaps (if c = q ∧ before ≠ '\\' then none else some q) c depth rest
    | none =>
      if c = '\x27' ∨ c = '\x22' then (some c, none) :: walkGaps (some c) c depth rest
      else (some c, some depth) :: walkGaps none c (depth + depthStep c) rest

/-- The places that hold a character. -/
def closedPlaces (places : List (Option Char × Option Int)) : List (Char × Option Int) :=
  places.filterMap fun place => place.1.map fun c => (c, place.2)

/-- All places, with spaces in the gaps. -/
def filledPlaces (places : List (Option Char × Option Int)) : List (Char × Option Int) :=
  places.map fun place => (place.1.getD ' ', place.2)

theorem walkFrom_closed (quote : Option Char) (before : Char) (depth : Int) (g : Gapped) :
    walkFrom quote before depth (closed g) = closedPlaces (walkGaps quote before depth g) := by
  induction g generalizing quote before depth with
  | nil => rfl
  | cons place rest ih =>
    cases place with
    | none => simpa [walkGaps, closedPlaces] using ih quote before depth
    | some c =>
      cases quote with
      | some q => simp [walkGaps, walkFrom, closedPlaces, ih]
      | none =>
        simp only [closed_some, walkGaps, walkFrom]
        split <;> simp [closedPlaces, ih]

/-- A gap leaves the walk in its state: the character before it is then a space, which matters for a
backslash and a quote only, and those join. -/
theorem walkFrom_filled (quote : Option Char) (before before' : Char) (depth : Int) (g : Gapped)
    (hquote : ∀ q ∈ quote, q = '\x27' ∨ q = '\x22') (hapart : ApartFrom (some before) g)
    (hbefore : before' = before ∨
      before' = ' ' ∧ ∀ b ∈ (closed g).head?, Text.joins before b = false) :
    walkFrom quote before' depth (filled g) = filledPlaces (walkGaps quote before depth g) := by
  induction g generalizing quote before before' depth with
  | nil => rfl
  | cons place rest ih =>
    cases place with
    | none =>
      have hspace : ' ' = ' ' ∧ ∀ b ∈ (closed rest).head?, Text.joins before b = false :=
        ⟨rfl, fun b hb => hapart.1 before rfl b hb⟩
      have hrest := ih quote before ' ' depth hquote hapart.2 (.inr hspace)
      cases quote with
      | none => simpa [walkGaps, walkFrom, filledPlaces, depthStep, isOpener, isCloser] using hrest
      | some q =>
        have hq : ' ' ≠ q := by
          rintro rfl
          exact absurd (hquote ' ' rfl) (by decide)
        simpa [walkGaps, walkFrom, filledPlaces, hq] using hrest
    | some c =>
      have hrest : ApartFrom (some c) rest := hapart
      cases quote with
      | some q =>
        have hescape : (c = q ∧ before' ≠ '\\') ↔ (c = q ∧ before ≠ '\\') := by
          obtain rfl | ⟨rfl, hjoins⟩ := hbefore
          · rfl
          refine and_congr_right ?_
          rintro rfl
          refine ⟨?_, fun _ => by decide⟩
          rintro - rfl
          have hjoins := hjoins c rfl
          rcases hquote c rfl with rfl | rfl <;> exact absurd hjoins (by decide)
        have hnext : ∀ q' ∈ (if c = q ∧ before ≠ '\\' then none else some q),
            q' = '\x27' ∨ q' = '\x22' := by
          intro q' hq'
          split at hq'
          · cases hq'
          · exact hquote q' hq'
        simp only [filled_some, walkGaps, walkFrom, hescape]
        rw [ih _ c c depth hnext hrest (.inl rfl)]
        rfl
      | none =>
        simp only [filled_some, walkGaps, walkFrom]
        split
        · next hc =>
          rw [ih (some c) c c depth (fun q hq => by cases hq; exact hc) hrest (.inl rfl)]
          rfl
        · rw [ih none c c _ (by simp) hrest (.inl rfl)]
          rfl

theorem map_fst_walkGaps (quote : Option Char) (before : Char) (depth : Int) (g : Gapped) :
    (walkGaps quote before depth g).map Prod.fst = g := by
  induction g generalizing quote before depth with
  | nil => rfl
  | cons place rest ih =>
    cases place with
    | none => simp [walkGaps, ih]
    | some c =>
      cases quote with
      | some q => simp [walkGaps, ih]
      | none =>
        simp only [walkGaps]
        split <;> simp [ih]

/-- No character joins with a blank before it. -/
theorem ApartFrom.after_space (hapart : ApartFrom none g) : ApartFrom (some ' ') g := by
  induction g with
  | nil => trivial
  | cons place rest ih =>
    cases place with
    | none =>
      refine ⟨?_, ih hapart.2⟩
      intro a ha b _
      cases ha
      by_contra hjoins
      exact absurd (Text.not_blank_of_joins (by simpa using hjoins)).1 (by decide)
    | some c => exact hapart

/-- The walks over the two texts are those over the places of the text with gaps. -/
theorem exists_walk (hapart : ApartFrom none g) :
    ∃ places : List (Option Char × Option Int), places.map Prod.fst = g ∧
      walk (closed g) = closedPlaces places ∧ walk (filled g) = filledPlaces places :=
  ⟨walkGaps none ' ' 0 g, map_fst_walkGaps .., walkFrom_closed ..,
    walkFrom_filled none ' ' ' ' 0 g (by simp) hapart.after_space (.inl rfl)⟩

/-! ## Cutting at places -/

variable {places : List (Option Char × Option Int)}

theorem cutMarked_cons (cell : Char × Bool) (cells : List (Char × Bool)) :
    Text.cutMarked (cell :: cells) =
      if cell.2 then [] :: Text.cutMarked cells else Text.consFirst cell.1 (Text.cutMarked cells) := rfl

/-- The two texts are cut at commas into the texts of the same pieces. -/
theorem exists_cut (places : List (Option Char × Option Int)) :
    ∃ (first : Gapped) (others : List Gapped),
      Text.cutMarked ((closedPlaces places).map cutCell) = (first :: others).map closed ∧
      Text.cutMarked ((filledPlaces places).map cutCell) = (first :: others).map filled ∧
      first <+: places.map Prod.fst ∧ ∀ piece ∈ others, piece <:+: places.map Prod.fst := by
  induction places with
  | nil => exact ⟨[], [], rfl, rfl, List.nil_prefix, by simp⟩
  | cons place rest ih =>
    obtain ⟨first, others, hclosed, hfilled, hfirst, hothers⟩ := ih
    obtain ⟨c, depth⟩ := place
    have hothers' : ∀ piece ∈ others, piece <:+: c :: rest.map Prod.fst := fun piece hpiece =>
      (hothers piece hpiece).trans (List.suffix_cons ..).isInfix
    cases c with
    | none =>
      refine ⟨none :: first, others, hclosed, ?_, List.cons_prefix_cons.mpr ⟨rfl, hfirst⟩, hothers'⟩
      change Text.consFirst ' ' (Text.cutMarked ((filledPlaces rest).map cutCell)) = _
      rw [hfilled]
      rfl
    | some c =>
      have hcells : (closedPlaces ((some c, depth) :: rest)).map cutCell =
            cutCell (c, depth) :: (closedPlaces rest).map cutCell ∧
          (filledPlaces ((some c, depth) :: rest)).map cutCell =
            cutCell (c, depth) :: (filledPlaces rest).map cutCell := ⟨rfl, rfl⟩
      rw [hcells.1, hcells.2, cutMarked_cons, cutMarked_cons, hclosed, hfilled]
      split
      · refine ⟨[], first :: others, rfl, rfl, List.nil_prefix, ?_⟩
        intro piece hpiece
        obtain rfl | hpiece := List.mem_cons.mp hpiece
        · exact hfirst.isInfix.trans (List.suffix_cons ..).isInfix
        · exact hothers' piece hpiece
      · exact ⟨some c :: first, others, rfl, rfl, List.cons_prefix_cons.mpr ⟨rfl, hfirst⟩, hothers'⟩

/-- The place holds a character. -/
def isKept (place : Option Char × Option Int) : Bool := place.1.isSome

theorem countP_isKept (places : List (Option Char × Option Int)) :
    places.countP isKept = (closed (places.map Prod.fst)).length := by
  rw [length_closed, List.countP_map]
  rfl

theorem closedPlaces_some (c : Char) (depth : Option Int) (places : List (Option Char × Option Int)) :
    closedPlaces ((some c, depth) :: places) = (c, depth) :: closedPlaces places := rfl

theorem filledPlaces_some (c : Char) (depth : Option Int) (places : List (Option Char × Option Int)) :
    filledPlaces ((some c, depth) :: places) = (c, depth) :: filledPlaces places := rfl

/-- The colon between key and target is found at the same place. -/
theorem colonFrom_places (n m : Nat) (places : List (Option Char × Option Int)) :
    StopAlike isKept (fun back => ∃ depth rest, back = (some ':', depth) :: rest) n m places
      (colonFrom n (closedPlaces places)) (colonFrom m (filledPlaces places)) := by
  induction places generalizing n m with
  | nil => exact .inl ⟨rfl, rfl⟩
  | cons place rest ih =>
    obtain ⟨_ | c, depth⟩ := place
    · have hstep : colonFrom m (filledPlaces ((none, depth) :: rest)) =
          colonFrom (m + 1) (filledPlaces rest) := by
        simp [filledPlaces, colonFrom]
      rw [hstep]
      exact (ih n (m + 1)).past_gap rfl
    · rw [closedPlaces_some, filledPlaces_some]
      simp only [colonFrom]
      split
      · split
        · exact .inl ⟨rfl, rfl⟩
        · split
          · next hc => exact .inr ⟨[], _, rfl, ⟨depth, rest, by rw [hc]⟩, rfl, rfl⟩
          · exact (ih _ _).past_kept rfl
      · exact (ih _ _).past_kept rfl

/-- The region of a leading pattern ends at the same place. -/
theorem closeLength_places {opener closer : Char} (hopener : opener ≠ ' ') (hcloser : closer ≠ ' ')
    (depth : Int) (n m : Nat) (places : List (Option Char × Option Int)) :
    StopAlike isKept (fun _ => True) n m places
      (closeLength opener closer depth n (closedPlaces places))
      (closeLength opener closer depth m (filledPlaces places)) := by
  induction places generalizing depth n m with
  | nil => exact .inl ⟨rfl, rfl⟩
  | cons place rest ih =>
    obtain ⟨_ | c, inner⟩ := place
    · have hstep : closeLength opener closer depth m (filledPlaces ((none, inner) :: rest)) =
          closeLength opener closer depth (m + 1) (filledPlaces rest) := by
        simp [filledPlaces, closeLength, hopener.symm, hcloser.symm]
      rw [hstep]
      exact (ih depth n (m + 1)).past_gap rfl
    · rw [closedPlaces_some, filledPlaces_some]
      simp only [closeLength]
      split
      · exact (ih _ _ _).past_kept rfl
      split
      · exact (ih _ _ _).past_kept rfl
      split
      · split
        · exact .inr ⟨[(some c, inner)], rest, rfl, trivial, rfl, rfl⟩
        · exact (ih _ _ _).past_kept rfl
      · exact (ih _ _ _).past_kept rfl

/-! ## Names -/

/-- A trimmed text with a name among its two texts has no gap. -/
theorem closed_eq_filled_of_name (hapart : ApartFrom none (trim g))
    (hname : Text.isIdentifier (closed (trim g)) ∨ Text.isIdentifier (filled (trim g))) :
    closed (trim g) = filled (trim g) := by
  have hlast := flush_reverse_trim g
  have hflush := flush_trim g
  generalize trim g = k at hapart hname hlast hflush
  cases k with
  | nil => rfl
  | cons place rest =>
    cases place with
    | none => exact absurd rfl hflush
    | some c =>
      simp only [closed_some, filled_some, Text.isIdentifier, Bool.and_eq_true, ← and_or_left] at hname
      obtain ⟨run, left, rfl, -, hclosed, hfilled⟩ :=
        run_of_name hapart (Text.isNameChar_of_isNameStart hname.1)
      have hdrop {t left : Text} (hall : t.all Text.isNameChar)
          (hmany : Reader.many Text.isNameChar t = some (run, left)) : left = [] := by
        simp only [Reader.many, Option.some.injEq, Prod.mk.injEq] at hmany
        rw [← hmany.2, List.dropWhile_eq_nil_iff]
        exact List.all_eq_true.mp hall
      -- What is left after the run holds no character, and a gap cannot stand last.
      have hleft : left = [] := by
        by_contra hne
        obtain ⟨place, hplace⟩ := Option.ne_none_iff_exists'.mp (mt List.getLast?_eq_none_iff.mp hne)
        cases place with
        | none =>
          refine hlast ?_
          rw [List.head?_reverse, ← List.cons_append, List.getLast?_append, hplace, Option.some_or]
        | some d =>
          have hd : d ∈ closed left := List.mem_filterMap.mpr ⟨some d, List.mem_of_getLast? hplace, rfl⟩
          obtain hall | hall := hname.2
          · simp [hdrop hall hclosed] at hd
          · simpa [hne] using congrArg List.length (hdrop hall hfilled)
      simp [hleft]

/-- A plain target has the same name in both texts, if it has one. -/
theorem plainName_texts (hapart : ApartFrom none g) : plainName (closed g) = plainName (filled g) := by
  have htake : closed (g.takeWhile (· != some '=')) = (closed g).takeWhile (· != '=') ∧
      filled (g.takeWhile (· != some '=')) = (filled g).takeWhile (· != '=') := by
    clear hapart
    induction g with
    | nil => exact ⟨rfl, rfl⟩
    | cons place rest ih =>
      cases place with
      | none => simpa using ih
      | some c =>
        by_cases hc : c = '='
        · simp [hc]
        · simpa [hc] using ih
  have hpart : g.takeWhile (· != some '=') <:+: g := (List.takeWhile_prefix _).isInfix
  have htrim := trim_texts (g.takeWhile (· != some '='))
  rw [htake.1, htake.2] at htrim
  have hapart' := hapart.of_part ((trim_part _).trans hpart)
  rw [plainName, plainName, nameOf, nameOf, ← htrim.1, ← htrim.2]
  by_cases hname : Text.isIdentifier (closed (trim (g.takeWhile (· != some '=')))) ∨
      Text.isIdentifier (filled (trim (g.takeWhile (· != some '='))))
  · rw [closed_eq_filled_of_name hapart' hname]
  · obtain ⟨hclosed, hfilled⟩ := not_or.mp hname
    rw [if_neg hclosed, if_neg hfilled]

/-- The texts of a leading pattern are those of one part of the text with gaps. -/
theorem exists_leading (hapart : ApartFrom none g) :
    leading? (closed g) = none ∧ leading? (filled g) = none ∨
      ∃ inner, inner <:+: g ∧ leading? (closed g) = some (closed inner) ∧
        leading? (filled g) = some (filled inner) := by
  have htrim := trim_texts g
  have hpart := trim_part g
  obtain ⟨places, hplaces, hclosed, hfilled⟩ := exists_walk (hapart.of_part hpart)
  have hhead := head?_of_flush (flush_trim g)
  rw [leading?, leading?, ← htrim.1, ← htrim.2, hhead, hclosed, hfilled]
  cases hopener : (closed (trim g)).head? with
  | none => exact .inl ⟨rfl, rfl⟩
  | some opener =>
    have hblank : opener ≠ ' ' := by
      rintro rfl
      have hplace : (trim g).head? = some (some ' ') := by
        cases hcases : trim g with
        | nil => simp [hcases] at hopener
        | cons place rest =>
          cases place with
          | none => exact absurd (congrArg List.head? hcases) (flush_trim g)
          | some c => simpa [hcases] using hopener
      exact absurd (isOpen_of_head?_trim hplace) (by decide)
    have hcloser : (if opener = '{' then '}' else ']') ≠ ' ' := by split <;> decide
    refine .inr ?_
    obtain ⟨hc, hf⟩ | ⟨front, back, hsplit, -, hc, hf⟩ :=
      closeLength_places hblank hcloser 0 0 0 places
    · exact ⟨trim g, hpart, by simp [hc], by simp [hf]⟩
    · have hg : trim g = front.map Prod.fst ++ back.map Prod.fst := by
        rw [← hplaces, hsplit, List.map_append]
      refine ⟨front.map Prod.fst, ((List.prefix_append _ _).isInfix).trans (hg ▸ hpart), ?_, ?_⟩
      · simp [hc, hg, countP_isKept]
      · simp [hf, hg]

/-- The texts of the nested pattern that a target is are those of one part of it. -/
theorem exists_nested (hapart : ApartFrom none g) :
    nested? (closed g) = none ∧ nested? (filled g) = none ∨
      ∃ inner, inner <:+: g ∧ nested? (closed g) = some (closed inner) ∧
        nested? (filled g) = some (filled inner) := by
  have htrim := trim_texts g
  have hpart := trim_part g
  have hhead := head?_of_flush (flush_trim g)
  rw [nested?, nested?, ← htrim.1, ← htrim.2, hhead]
  split
  · obtain hnone | ⟨inner, hinner, hread⟩ := exists_leading (hapart.of_part hpart)
    · exact .inl hnone
    · exact .inr ⟨inner, hinner.trans hpart, hread⟩
  · exact .inl ⟨rfl, rfl⟩

/-- A target binds the same in both texts if every pattern does that is part of it. -/
theorem targetNames_texts (hapart : ApartFrom none g)
    (hinner : ∀ inner, inner <:+: g → names (closed inner) = names (filled inner)) :
    targetNames (closed g) = targetNames (filled g) := by
  rw [targetNames, targetNames]
  obtain ⟨hclosed, hfilled⟩ | ⟨inner, hpart, hclosed, hfilled⟩ := exists_nested hapart
  · rw [hclosed, hfilled, ← (trim_texts g).1, ← (trim_texts g).2]
    exact plainName_texts (hapart.of_part (trim_part g))
  · rw [hclosed, hfilled]
    exact hinner inner hpart

/-- An element binds the same in both texts if every pattern does that is part of it. -/
theorem elementNames_texts (inArray : Bool) (hapart : ApartFrom none g) (hflush : Flush g)
    (hinner : ∀ inner, inner <:+: g → names (closed inner) = names (filled inner)) :
    elementNames inArray (closed g) = elementNames inArray (filled g) := by
  have hdots : ("..." : Text).IsChain fun a b => Text.joins a b :=
    .cons_cons (by decide) (.cons_cons (by decide) (.singleton _))
  rw [elementNames, elementNames, readElement, readElement]
  obtain ⟨hclosed, hfilled⟩ | ⟨rest, hsplit, hclosed, hfilled⟩ :=
    isPrefixOf?_of_chain hapart hdots (.inl hflush)
  · rw [hclosed, hfilled]
    cases inArray with
    | true => exact targetNames_texts hapart hinner
    | false =>
      obtain ⟨places, rfl, hclosed, hfilled⟩ := exists_walk hapart
      simp only [Bool.false_eq_true, if_false, colon?, hclosed, hfilled]
      obtain ⟨hc, hf⟩ | ⟨front, _, rfl, ⟨depth, back, rfl⟩, hc, hf⟩ := colonFrom_places 0 0 places
      · rw [hc, hf]
        exact plainName_texts hapart
      · rw [hc, hf]
        have hsplit : (front ++ (some ':', depth) :: back).map Prod.fst =
            (front.map Prod.fst ++ [some ':']) ++ back.map Prod.fst := by simp
        rw [hsplit] at hapart hinner ⊢
        have hback := (List.suffix_append (front.map Prod.fst ++ [some ':']) (back.map Prod.fst)).isInfix
        have hdrop : (closed ((front.map Prod.fst ++ [some ':']) ++ back.map Prod.fst)).drop
              (0 + front.countP isKept + 1) = closed (back.map Prod.fst) ∧
            (filled ((front.map Prod.fst ++ [some ':']) ++ back.map Prod.fst)).drop
              (0 + front.length + 1) = filled (back.map Prod.fst) := by
          rw [closed_append, filled_append]
          exact ⟨List.drop_left' (by simp [countP_isKept]), List.drop_left' (by simp)⟩
        simp only [hdrop]
        exact targetNames_texts (hapart.of_part hback) fun inner hpart => hinner inner (hpart.trans hback)
  · rw [hclosed, hfilled]
    exact plainName_texts (hapart.of_part (hsplit ▸ (List.suffix_append _ _).isInfix))

/-- The names of a list of elements are those of the pieces of the text with gaps. -/
theorem exists_elements (inArray : Bool) (hapart : ApartFrom none g) :
    ∃ pieces : List Gapped, (∀ piece ∈ pieces, piece <:+: g) ∧
      (elements (closed g)).flatMap (elementNames inArray) =
        pieces.flatMap (fun piece => elementNames inArray (closed (trim piece))) ∧
      (elements (filled g)).flatMap (elementNames inArray) =
        pieces.flatMap (fun piece => elementNames inArray (filled (trim piece))) := by
  obtain ⟨places, rfl, hclosed, hfilled⟩ := exists_walk hapart
  obtain ⟨first, others, hcut, hcut', hfirst, hothers⟩ := exists_cut places
  have helements (t : Text) : elements t = Text.trimItems (Text.cutMarked ((walk t).map cutCell)) := rfl
  refine ⟨first :: others, ?_, ?_, ?_⟩
  · intro piece hpiece
    obtain rfl | hpiece := List.mem_cons.mp hpiece
    · exact hfirst.isInfix
    · exact hothers piece hpiece
  · rw [helements, hclosed, hcut, flatMap_trimItems (elementNames_nil inArray), List.flatMap_map]
    simp only [(trim_texts _).1]
  · rw [helements, hfilled, hcut', flatMap_trimItems (elementNames_nil inArray), List.flatMap_map]
    simp only [(trim_texts _).2]

/-- A trimmed text whose two texts stand in brackets is a text with gaps between the brackets. -/
theorem exists_between (hbody : isObject (closed (trim g)) || isArray (closed (trim g))) :
    ∃ opener mid closer, trim g = some opener :: (mid ++ [some closer]) := by
  have hflush := flush_trim g
  have hend := flush_reverse_trim g
  generalize trim g = k at hbody hflush hend
  cases k with
  | nil => exact absurd hbody (by decide)
  | cons place rest =>
    cases place with
    | none => exact absurd rfl hflush
    | some opener =>
      obtain rfl | ⟨mid, place, rfl⟩ := List.eq_nil_or_concat rest
      · -- One character cannot be both brackets.
        simp only [isObject, isArray, closed_some, closed_nil, List.head?_cons,
          List.getLast?_singleton, Bool.or_eq_true, Bool.and_eq_true, beq_iff_eq, Option.some.injEq] at hbody
        obtain ⟨rfl, h⟩ | ⟨rfl, h⟩ := hbody <;> exact absurd h (by decide)
      · rw [List.concat_eq_append] at hend ⊢
        cases place with
        | none => exact absurd (by simp) hend
        | some closer => exact ⟨opener, mid, closer, rfl⟩

/-- A pattern binds the same names, in the same order, in both texts. -/
theorem names_texts (hapart : ApartFrom none g) : names (closed g) = names (filled g) := by
  induction hn : g.length using Nat.strong_induction_on generalizing g with
  | _ n ih =>
    have hhead := head?_of_flush (flush_trim g)
    have hlast := getLast?_trim g
    have hobject : isObject (filled (trim g)) = isObject (closed (trim g)) := by
      rw [isObject, isObject, hhead, hlast]
    have harray : isArray (filled (trim g)) = isArray (closed (trim g)) := by
      rw [isArray, isArray, hhead, hlast]
    rw [names_eq, names_eq, ← (trim_texts g).1, ← (trim_texts g).2, hobject, harray]
    split
    · next hbody =>
      obtain ⟨opener, mid, closer, htrim⟩ := exists_between hbody
      have hpart : mid <:+: trim g := by
        rw [htrim]
        exact ⟨[some opener], [some closer], rfl⟩
      have hmid := hpart.trans (trim_part g)
      have hlength : mid.length < g.length := by
        have hlength := (trim_part g).length_le
        rw [htrim] at hlength
        simp at hlength
        omega
      have htexts : ((closed (trim g)).drop 1).dropLast = closed mid ∧
          ((filled (trim g)).drop 1).dropLast = filled mid := by
        rw [htrim]
        simp
      obtain ⟨pieces, hpieces, hclosed, hfilled⟩ :=
        exists_elements (isArray (closed (trim g))) (hapart.of_part hmid)
      rw [htexts.1, htexts.2, hclosed, hfilled]
      refine List.flatMap_congr fun piece hpiece => ?_
      have hpiece := (trim_part piece).trans (hpieces piece hpiece)
      refine elementNames_texts _ (hapart.of_part (hpiece.trans hmid)) (flush_trim piece) ?_
      intro inner hinner
      have hinner := hinner.trans hpiece
      exact ih inner.length (hn ▸ hinner.length_le.trans_lt hlength) (hapart.of_part (hinner.trans hmid)) rfl
    · rfl

end SetupScript.Gapped
