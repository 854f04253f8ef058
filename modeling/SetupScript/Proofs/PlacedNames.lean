import Mathlib.Data.List.Forall2
import SetupScript.Proofs.NestedText
import SetupScript.Proofs.WrittenNames

/-!
# Where a pattern has its names

Whatever the text, reading a pattern comes to an end: a nested pattern lies between the delimiters of
the one around it and is shorter. The names that are read off are identifiers, and they stand in the
text as words of their own, one after the other in the order in which they are given.

This needs no balanced brackets and no closed strings. The text is only ever cut at characters that are
no part of a name: white space, delimiters, commas, colons, dots and equals signs. So each piece stands
apart in the whole text, and pieces that come later stand further on.
-/

namespace SetupScript

namespace Pattern

/-! ## Texts that stand apart -/

/-- The piece stands at the offset of the text, and no character of a name touches it on either side. -/
def StandsApart (t : Text) (p : Nat) (piece : Text) : Prop :=
  ∃ front back, t = front ++ (piece ++ back) ∧ p = front.length ∧
    front.getLast?.any Text.isNameChar = false ∧ back.head?.any Text.isNameChar = false

variable {t piece : Text} {p : Nat}

/-- What a piece that stands apart is cut into stands apart where the cuts are no parts of names. -/
theorem StandsApart.slice {a v b : Text} (h : StandsApart t p (a ++ (v ++ b)))
    (ha : a.getLast?.any Text.isNameChar = false) (hb : b.head?.any Text.isNameChar = false) :
    StandsApart t (p + a.length) v := by
  obtain ⟨front, back, rfl, rfl, hfront, hback⟩ := h
  refine ⟨front ++ a, b ++ back, by simp, by simp, ?_, ?_⟩
  · rw [List.getLast?_append]
    cases hlast : a.getLast? with
    | none => simpa using hfront
    | some c => simpa [hlast] using ha
  · rw [List.head?_append]
    cases hhead : b.head? with
    | none => simpa using hback
    | some c => simpa [hhead] using hb

/-- White space is no part of a name at either end. -/
theorem not_name_of_blanks {blanks : Text} (h : blanks.all Text.isBlank) :
    blanks.getLast?.any Text.isNameChar = false ∧ blanks.head?.any Text.isNameChar = false := by
  have hnone (c : Char) (hc : c ∈ blanks) : Text.isNameChar c = false :=
    Text.isNameChar_of_isBlank (List.all_eq_true.mp h c hc)
  constructor
  · cases hlast : blanks.getLast? with
    | none => rfl
    | some c => exact hnone c (List.mem_of_getLast? hlast)
  · cases hhead : blanks.head? with
    | none => rfl
    | some c => exact hnone c (List.mem_of_head? hhead)

/-- Trimmed, a piece still stands apart. -/
theorem StandsApart.trim (h : StandsApart t p piece) :
    ∃ k, StandsApart t (p + k) (Text.trim piece) ∧ k + (Text.trim piece).length ≤ piece.length := by
  obtain ⟨front, back, hpiece, hfront, hback⟩ := Text.exists_blanks_trim piece
  rw [hpiece] at h
  refine ⟨front.length, h.slice (not_name_of_blanks hfront).1 (not_name_of_blanks hback).2, ?_⟩
  have hlength := congrArg List.length hpiece
  simp only [List.length_append] at hlength
  omega

/-! ## Names in their places -/

/-- The names stand in the text between two offsets, each apart and one after the other. -/
inductive Placed (t : Text) : Nat → Nat → List Text → Prop where
  | nil {start stop : Nat} (hle : start ≤ stop) : Placed t start stop []
  | cons {start p stop : Nat} {name : Text} {rest : List Text} (hle : start ≤ p)
      (hname : StandsApart t p name) (hrest : Placed t (p + name.length) stop rest) :
      Placed t start stop (name :: rest)

namespace Placed

variable {start middle stop : Nat} {first second : List Text}

/-- Names keep their places in a wider stretch. -/
theorem mono (h : Placed t start stop first) {start' stop' : Nat} (hstart : start' ≤ start)
    (hstop : stop ≤ stop') : Placed t start' stop' first := by
  induction h generalizing start' with
  | nil hle => exact .nil (by omega)
  | cons hle hname hrest ih => exact .cons (by omega) hname (ih (Nat.le_refl _) hstop)

/-- Names of one stretch and of the next stand one after the other. -/
theorem append (h : Placed t start middle first) (h' : Placed t middle stop second) :
    Placed t start stop (first ++ second) := by
  induction h with
  | nil hle => exact h'.mono hle (Nat.le_refl _)
  | cons hle hname hrest ih => exact .cons hle hname (ih h')

/-- A name that stands apart is placed. -/
theorem single (h : StandsApart t p piece) : Placed t p (p + piece.length) [piece] :=
  .cons (Nat.le_refl _) h (.nil (Nat.le_refl _))

/-- Names in their places have offsets, which lie in the stretch and leave room for each name. -/
theorem exists_starts (h : Placed t start stop first) :
    ∃ starts, List.Forall₂ (StandsApart t) starts first ∧
      (starts.zip first).Pairwise (fun a b => a.1 + a.2.length ≤ b.1) ∧ ∀ p ∈ starts, start ≤ p := by
  induction h with
  | nil hle => exact ⟨[], .nil, .nil, by simp⟩
  | @cons start p stop name rest hle hname hrest ih =>
    obtain ⟨starts, hstand, hordered, hlater⟩ := ih
    refine ⟨p :: starts, .cons hname hstand, ?_, ?_⟩
    · rw [List.zip_cons_cons, List.pairwise_cons]
      exact ⟨fun later hmem => hlater _ (List.of_mem_zip hmem).1, hordered⟩
    · intro q hq
      rcases List.mem_cons.mp hq with rfl | hq
      · exact hle
      · have := hlater q hq
        omega

end Placed

/-! ## Reading what a pattern binds -/

/-- The name of a plain target has its place in the target. -/
theorem placed_plainName (h : StandsApart t p piece) :
    Placed t p (p + piece.length) (plainName piece) := by
  unfold plainName
  split
  · have hcut := List.takeWhile_append_dropWhile (p := (· != '=')) (l := piece)
    -- the name ends at an equals sign or with the target
    have hend : (piece.dropWhile (· != '=')).head?.any Text.isNameChar = false := by
      cases hhead : (piece.dropWhile (· != '=')).head? with
      | none => rfl
      | some c =>
        have hequals := List.head?_dropWhile_not (· != '=') piece
        rw [hhead] at hequals
        obtain rfl : c = '=' := by simpa using hequals
        rfl
    have hbefore : StandsApart t (p + 0) (piece.takeWhile (· != '=')) :=
      StandsApart.slice (a := []) (b := piece.dropWhile (· != '=')) (by simpa [hcut] using h) rfl hend
    obtain ⟨k, hname, hlength⟩ := hbefore.trim
    have hshorter : (piece.takeWhile (· != '=')).length ≤ piece.length :=
      (List.takeWhile_sublist _).length_le
    exact (Placed.single hname).mono (by omega) (by omega)
  · exact .nil (Nat.le_add_right _ _)

/-- Every text that is no longer than the bound has its names in their places, wherever it stands. -/
def PlacedUpTo (bound : Nat) : Prop :=
  ∀ inner front back : Text, inner.length ≤ bound →
    Placed (front ++ (inner ++ back)) front.length (front.length + inner.length) (names inner)

/-- A nested pattern is what a trimmed target starts with. -/
theorem nested?_isPrefix {target inner : Text} (h : nested? target = some inner) :
    inner <+: Text.trim (Text.trim target) := by
  unfold nested? leading? at h
  dsimp only at h
  split at h
  · obtain ⟨opener, -, rfl⟩ := Option.map_eq_some_iff.mp h
    split
    · exact List.take_prefix _ _
    · exact List.prefix_refl _
  · cases h

/-- The names of a target have their places in it. -/
theorem placed_targetNames (h : StandsApart t p piece) (hnested : PlacedUpTo piece.length) :
    Placed t p (p + piece.length) (targetNames piece) := by
  obtain ⟨k, hbody, hlength⟩ := h.trim
  unfold targetNames
  split
  · next inner hinner =>
    obtain ⟨rest, hrest⟩ := nested?_isPrefix hinner
    obtain ⟨k', ⟨front, back, htext, hfront, -, -⟩, hlength'⟩ := hbody.trim
    have hshorter := length_nested hinner
    have hprefix := congrArg List.length hrest
    rw [List.length_append] at hprefix
    have hplaced := hnested inner front (rest ++ back) hshorter
    rw [← List.append_assoc inner, hrest, ← htext] at hplaced
    exact hplaced.mono (by omega) (by omega)
  · exact (placed_plainName hbody).mono (by omega) (by omega)

/-- The colon of an element stands where it is found. -/
theorem getElem?_of_colonFrom {cells : List (Char × Option Int)} {offset k : Nat}
    (h : colonFrom offset cells = some k) : offset ≤ k ∧ (cells.map Prod.fst)[k - offset]? = some ':' := by
  induction cells generalizing offset with
  | nil => cases h
  | cons cell rest ih =>
    obtain ⟨c, depth⟩ := cell
    have later (h : colonFrom (offset + 1) rest = some k) :
        offset ≤ k ∧ (((c, depth) :: rest).map Prod.fst)[k - offset]? = some ':' := by
      obtain ⟨hle, hget⟩ := ih h
      refine ⟨by omega, ?_⟩
      rw [show k - offset = (k - (offset + 1)) + 1 by omega]
      exact hget
    rw [colonFrom] at h
    split at h
    · split at h
      · cases h
      · split at h
        · next hcolon =>
          obtain rfl := Option.some.inj h
          exact ⟨Nat.le_refl _, by simp [hcolon]⟩
        · exact later h
    · exact later h

/-- What follows the colon of an element stands apart. -/
theorem StandsApart.afterColon (h : StandsApart t p piece) {offset : Nat}
    (hcolon : colon? piece = some offset) :
    StandsApart t (p + (piece.take (offset + 1)).length) (piece.drop (offset + 1)) := by
  have hget := (getElem?_of_colonFrom hcolon).2
  rw [walk, map_fst_walkFrom, Nat.sub_zero] at hget
  have hlast : (piece.take (offset + 1)).getLast? = some ':' := by
    rw [List.take_add_one, hget]
    simp
  refine StandsApart.slice (b := []) ?_ (by rw [hlast]; rfl) rfl
  simpa using h

/-- What is read of an element: what follows three dots, what follows its colon, or the whole of it. -/
theorem readElement_cases (inArray : Bool) (element : Text) :
    (∃ rest, element = "..." ++ rest ∧ readElement inArray element = .name rest) ∨
      (∃ offset, colon? element = some offset ∧
        readElement inArray element = .target (element.drop (offset + 1))) ∨
      readElement inArray element = .name element ∨ readElement inArray element = .target element := by
  unfold readElement
  split
  · next rest hdots =>
    exact .inl ⟨rest, (List.isPrefixOf?_eq_some_iff_append_eq.mp hdots).symm, rfl⟩
  · cases inArray with
    | true => exact .inr (.inr (.inr rfl))
    | false =>
      cases hcolon : colon? element with
      | some offset => exact .inr (.inl ⟨offset, rfl, rfl⟩)
      | none => exact .inr (.inr (.inl rfl))

/-- The names of an element have their places in it. -/
theorem placed_elementNames (inArray : Bool) (h : StandsApart t p piece)
    (hnested : PlacedUpTo piece.length) : Placed t p (p + piece.length) (elementNames inArray piece) := by
  unfold elementNames
  rcases readElement_cases inArray piece with
    ⟨rest, rfl, hread⟩ | ⟨offset, hcolon, hread⟩ | hread | hread
  · have hrest : StandsApart t (p + 3) rest :=
      StandsApart.slice (a := "...".toList) (b := []) (by simpa using h) rfl rfl
    rw [hread]
    exact (placed_plainName hrest).mono (by omega) (by simp; omega)
  · have hlength := congrArg List.length (List.take_append_drop (offset + 1) piece)
    rw [List.length_append] at hlength
    have hplaced := placed_targetNames (h.afterColon hcolon)
      fun inner front back hle => hnested inner front back (by omega)
    rw [hread]
    exact hplaced.mono (by omega) (by omega)
  · rw [hread]
    exact placed_plainName h
  · rw [hread]
    exact placed_targetNames h hnested

/-- What is read of the pieces between commas has its places in the order of the pieces. -/
theorem placed_pieces {f : Text → List Text} {pieces : List Text}
    (hf : ∀ piece ∈ pieces, ∀ p, StandsApart t p piece → Placed t p (p + piece.length) (f piece))
    (h : StandsApart t p (Text.joinWith "," pieces)) :
    Placed t p (p + (Text.joinWith "," pieces).length) (pieces.flatMap f) := by
  induction pieces generalizing p with
  | nil => exact .nil (Nat.le_add_right _ _)
  | cons piece rest ih =>
    obtain ⟨hpiece, hrest⟩ := List.forall_mem_cons.mp hf
    cases rest with
    | nil =>
      rw [Text.joinWith_singleton] at h ⊢
      simpa using hpiece p h
    | cons next rest =>
      rw [Text.joinWith_cons_cons] at h ⊢
      have hfirst : StandsApart t p piece := StandsApart.slice (a := []) h rfl rfl
      have hlater : StandsApart t (p + (piece ++ ",".toList).length) (Text.joinWith "," (next :: rest)) :=
        StandsApart.slice (b := []) (by simpa using h) (by simp; rfl) rfl
      have hplaced := (hpiece p hfirst).append ((ih hrest hlater).mono (by simp) (Nat.le_refl _))
      rw [List.flatMap_cons]
      exact hplaced.mono (Nat.le_refl _) (by simp; omega)

/-- What is read of the elements of a text has its places in the order of the elements. -/
theorem placed_elements {whole : Text} {f : Text → List Text} (hnil : f [] = [])
    (hf : ∀ element p, element.length ≤ piece.length → StandsApart whole p element →
      Placed whole p (p + element.length) (f element)) (h : StandsApart whole p piece) :
    Placed whole p (p + piece.length) ((elements piece).flatMap f) := by
  have hcut : ∀ cell ∈ (walk piece).map cutCell, cell.2 = true → cell.1 = ',' := by
    intro cell hcell hmarked
    obtain ⟨walked, -, rfl⟩ := List.mem_map.mp hcell
    simp only [cutCell, Bool.and_eq_true, beq_iff_eq] at hmarked
    exact hmarked.1
  have hjoined : Text.joinWith "," (Text.cutMarked ((walk piece).map cutCell)) = piece := by
    refine (Text.joinWith_cutMarked hcut).trans ?_
    rw [List.map_map]
    exact map_fst_walkFrom none ' ' 0 piece
  have hread : (elements piece).flatMap f =
      (Text.cutMarked ((walk piece).map cutCell)).flatMap fun part => f (Text.trim part) :=
    flatMap_trimItems hnil _
  have hparts : ∀ part ∈ Text.cutMarked ((walk piece).map cutCell), ∀ p, StandsApart whole p part →
      Placed whole p (p + part.length) (f (Text.trim part)) := by
    intro part hpart q hstands
    obtain ⟨k, htrimmed, hlength⟩ := hstands.trim
    have hpart := length_le_of_mem_cutMarked hpart
    rw [List.length_map, walk, length_walkFrom] at hpart
    exact (hf _ _ (by omega) htrimmed).mono (by omega) (by omega)
  have hplaced := placed_pieces hparts (p := p) (by rwa [hjoined])
  rwa [hjoined, ← hread] at hplaced

/-- A pattern has a delimiter at each end, and neither is part of a name. -/
theorem exists_delimiters {body : Text} (h : isObject body || isArray body) :
    ∃ opener inner closer, body = opener :: (inner ++ [closer]) ∧ Text.isNameChar opener = false ∧
      Text.isNameChar closer = false := by
  have hends {opener closer : Char} (hne : opener ≠ closer) (hopener : body.head? = some opener)
      (hcloser : body.getLast? = some closer) : ∃ inner, body = opener :: (inner ++ [closer]) := by
    obtain ⟨rest, rfl⟩ := List.head?_eq_some_iff.mp hopener
    cases hrest : rest.getLast? with
    | none =>
      obtain rfl := List.getLast?_eq_none_iff.mp hrest
      exact absurd (by simpa using hcloser) hne
    | some last =>
      obtain ⟨inner, rfl⟩ := List.getLast?_eq_some_iff.mp hrest
      rw [← List.cons_append, List.getLast?_concat] at hcloser
      obtain rfl := Option.some.inj hcloser
      exact ⟨inner, rfl⟩
  simp only [isObject, isArray, Bool.or_eq_true, Bool.and_eq_true, beq_iff_eq] at h
  rcases h with ⟨hopener, hcloser⟩ | ⟨hopener, hcloser⟩
  · obtain ⟨inner, hbody⟩ := hends (by decide) hopener hcloser
    exact ⟨'{', inner, '}', hbody, by decide, by decide⟩
  · obtain ⟨inner, hbody⟩ := hends (by decide) hopener hcloser
    exact ⟨'[', inner, ']', hbody, by decide, by decide⟩

/-- The names of a pattern have their places in it, whatever stands around it. -/
theorem placed_names (pattern front back : Text) :
    Placed (front ++ (pattern ++ back)) front.length (front.length + pattern.length)
      (names pattern) := by
  induction hsize : pattern.length using Nat.strongRecOn generalizing pattern front back with
  | ind size ih =>
    have hnested {bound : Nat} (hbound : bound < size) : PlacedUpTo bound :=
      fun inner front back hle => ih inner.length (by omega) inner front back rfl
    rw [names_eq]
    split
    · next hbody =>
      obtain ⟨opener, inner, closer, htrim, hopener, hcloser⟩ := exists_delimiters hbody
      obtain ⟨lead, tail, hpattern, -, -⟩ := Text.exists_blanks_trim pattern
      rw [htrim] at hpattern
      have hinner : ((Text.trim pattern).drop 1).dropLast = inner := by simp [htrim]
      have hlength := congrArg List.length hpattern
      simp only [List.length_append, List.length_cons, List.length_nil] at hlength
      -- what stands between the delimiters stands apart, since these are no parts of names
      have hstands : StandsApart (front ++ (pattern ++ back)) (front ++ (lead ++ [opener])).length inner :=
        ⟨front ++ (lead ++ [opener]), closer :: (tail ++ back), by simp [hpattern], rfl,
          by simp [hopener], by simp [hcloser]⟩
      rw [hinner]
      have hplaced := placed_elements (elementNames_nil _)
        (fun element p hle hapart => placed_elementNames (isArray (Text.trim pattern)) hapart
          (hnested (by omega))) hstands
      exact hplaced.mono (by simp) (by simp only [List.length_append, List.length_singleton]; omega)
    · exact .nil (Nat.le_add_right _ _)

/-! ## Coming to an end -/

/-- What might keep a pattern from being read. -/
inductive ReadFault where
  /-- The first character is asked of a text that has none. -/
  | noCharacter
  /-- A nested pattern is as long as the pattern around it. -/
  | notShorter
  /-- More patterns are nested in one another than may be. -/
  | tooDeep

/-- What a target binds, its nested pattern read by `read`. The delimiter of a nested pattern is the
first character of its text, so there must be one, and the text must be shorter than `bound`. -/
def readTarget (read : Text → Except ReadFault (List Text)) (bound : Nat) (target : Text) :
    Except ReadFault (List Text) :=
  let body := Text.trim target
  if body.head? = some '{' ∨ body.head? = some '[' then
    match leading? body with
    | some inner => if inner.length < bound then read inner else .error .notShorter
    | none => .error .noCharacter
  else .ok (plainName body)

/-- What a pattern binds, read with all that might go wrong as a fault, and with at most `depth`
patterns nested in one another. -/
def readWithin : Nat → Text → Except ReadFault (List Text)
  | 0, _ => .error .tooDeep
  | depth + 1, pattern =>
    let body := Text.trim pattern
    if isObject body || isArray body then
      (elements (body.drop 1).dropLast).flatMapM fun element =>
        match readElement (isArray body) element with
        | .name text => .ok (plainName text)
        | .target target => readTarget (readWithin depth) pattern.length target
    else .ok []

/-- A text that starts with a delimiter has a first character after trimming, too. -/
theorem exists_leading {body : Text} (h : body.head? = some '{' ∨ body.head? = some '[') :
    ∃ inner, leading? body = some inner := by
  suffices hne : Text.trim body ≠ [] by
    obtain ⟨c, rest, hbody⟩ := List.exists_cons_of_ne_nil hne
    exact Option.isSome_iff_exists.mp (by simp [leading?, hbody])
  intro hnone
  obtain ⟨front, back, hbody, hfront, hback⟩ := Text.exists_blanks_trim body
  rw [hnone, List.nil_append] at hbody
  have hblank (c : Char) (hc : body.head? = some c) : Text.isBlank c := by
    have hmem := List.mem_of_head? hc
    rw [hbody, List.mem_append] at hmem
    exact hmem.elim (List.all_eq_true.mp hfront c) (List.all_eq_true.mp hback c)
  rcases h with h | h
  · exact absurd (hblank _ h) (by decide)
  · exact absurd (hblank _ h) (by decide)

/-- A target is read without a fault where its nested pattern is short enough and read without one. -/
theorem readTarget_eq {read : Text → Except ReadFault (List Text)} {bound : Nat} {target : Text}
    (h : ∀ inner, nested? target = some inner → inner.length < bound ∧ read inner = .ok (names inner)) :
    readTarget read bound target = .ok (targetNames target) := by
  by_cases hopens : (Text.trim target).head? = some '{' ∨ (Text.trim target).head? = some '['
  · have hnested : nested? target = leading? (Text.trim target) := if_pos hopens
    obtain ⟨inner, hinner⟩ := exists_leading hopens
    obtain ⟨hshorter, hread⟩ := h inner (hnested.trans hinner)
    rw [readTarget, if_pos hopens, hinner, targetNames, hnested, hinner]
    exact (if_pos hshorter).trans hread
  · have hnested : nested? target = none := if_neg hopens
    rw [readTarget, if_neg hopens, targetNames, hnested]

/-- What is read of each item without a fault is read of all of them. -/
theorem flatMapM_eq_ok {f : Text → Except ReadFault (List Text)} {g : Text → List Text}
    {items : List Text} (h : ∀ item ∈ items, f item = .ok (g item)) :
    items.flatMapM f = .ok (items.flatMap g) := by
  induction items with
  | nil => rfl
  | cons item rest ih =>
    obtain ⟨hitem, hrest⟩ := List.forall_mem_cons.mp h
    rw [List.flatMapM_cons, hitem, ih hrest, List.flatMap_cons]
    rfl

/-- A pattern is read without a fault as deep as it is long. -/
theorem readWithin_eq {depth : Nat} {pattern : Text} (h : pattern.length < depth) :
    readWithin depth pattern = .ok (names pattern) := by
  induction depth generalizing pattern with
  | zero => cases h
  | succ depth ih =>
    rw [readWithin, names_eq]
    split
    · next hbody =>
      refine flatMapM_eq_ok fun element helement => ?_
      unfold elementNames
      cases hread : readElement (isArray (Text.trim pattern)) element with
      | name text => rfl
      | target target =>
        refine readTarget_eq fun inner hinner => ?_
        have hshorter : inner.length < pattern.length :=
          Nat.lt_of_lt_of_le (length_lt_of_nested hbody helement hread hinner) (length_trim_le pattern)
        exact ⟨hshorter, ih (by omega)⟩
    · rfl

/-- Every text can be read as a pattern. Each nested pattern is shorter than the one around it, so that
reading ends, with at most as many patterns in one another as the text has characters, and no text
without characters is ever asked for its first one. The names are identifiers. They stand in the text
as words of their own, each further on than the one before and past its end. -/
theorem names_read_off_any_text (pattern : Text) :
    (∀ depth, pattern.length < depth → readWithin depth pattern = .ok (names pattern)) ∧
    (∀ name ∈ names pattern, Text.isIdentifier name) ∧
    ∃ starts, List.Forall₂ (StandsApart pattern) starts (names pattern) ∧
      (starts.zip (names pattern)).Pairwise fun a b => a.1 < b.1 ∧ a.1 + a.2.length ≤ b.1 := by
  have hplaced := placed_names pattern [] []
  rw [List.nil_append, List.append_nil] at hplaced
  obtain ⟨starts, hstand, hordered, -⟩ := hplaced.exists_starts
  refine ⟨fun depth => readWithin_eq, fun name => isIdentifier_of_mem_names, starts, hstand, ?_⟩
  refine hordered.imp_of_mem fun {a b} ha _ hab => ⟨?_, hab⟩
  have hname := (Text.word_of_isIdentifier (isIdentifier_of_mem_names (List.of_mem_zip ha).2)).2
  have hpos := List.length_pos_iff.mpr hname
  omega

end Pattern

end SetupScript
