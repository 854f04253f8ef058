import Mathlib.Data.List.Basic
import Mathlib.Data.List.TakeWhile
import SetupScript.Text.Word

/-!
# Lines, words and trimming

Lines are what stands between line breaks, so a text is its lines joined by line breaks, and the
lines of two texts with a line break between them are those of both. In the same way the words of two
texts with white space between them are those of both.
-/

namespace SetupScript.Text

/-- There is always a first piece. -/
theorem cutMarked_ne_nil (marked : List (Char × Bool)) : cutMarked marked ≠ [] := by
  cases marked with
  | nil => simp [cutMarked]
  | cons first rest =>
    obtain ⟨c, cut⟩ := first
    cases cut with
    | true => simp [cutMarked]
    | false => cases h : cutMarked rest <;> simp [cutMarked, consFirst, h]

/-- A character is put at the front of the first of all pieces. -/
theorem consFirst_append {pieces : List Text} (h : pieces ≠ []) (c : Char) (more : List Text) :
    consFirst c (pieces ++ more) = consFirst c pieces ++ more := by
  cases pieces with
  | nil => exact absurd rfl h
  | cons piece rest => rfl

/-- A marked character separates the pieces before it from those after it. -/
theorem cutMarked_append_cut (a : List (Char × Bool)) (c : Char) (b : List (Char × Bool)) :
    cutMarked (a ++ (c, true) :: b) = cutMarked a ++ cutMarked b := by
  induction a with
  | nil => simp [cutMarked]
  | cons first rest ih =>
    obtain ⟨d, cut⟩ := first
    cases cut with
    | true => simp [cutMarked, ih]
    | false =>
      have hcut (marked : List (Char × Bool)) :
          cutMarked ((d, false) :: marked) = consFirst d (cutMarked marked) := by simp [cutMarked]
      rw [List.cons_append, hcut, ih, hcut, consFirst_append (cutMarked_ne_nil rest)]

/-- Characters without a mark are one piece. -/
theorem cutMarked_of_unmarked {marked : List (Char × Bool)} (h : marked.all (!·.2)) :
    cutMarked marked = [marked.map Prod.fst] := by
  induction marked with
  | nil => rfl
  | cons first rest ih =>
    simp only [List.all_cons, Bool.and_eq_true, Bool.not_eq_true'] at h
    simp [cutMarked, h.1, ih h.2, consFirst]

/-- A separator separates the pieces before it from those after it. -/
theorem cutAt_append_sep {sep : Char → Bool} {c : Char} (hc : sep c) (a b : Text) :
    cutAt sep (a ++ c :: b) = cutAt sep a ++ cutAt sep b := by
  rw [cutAt, List.map_append, List.map_cons, hc, cutMarked_append_cut]
  rfl

/-- A line break separates the lines before it from those after it. -/
theorem lines_append_break (a b : Text) : lines (a ++ '\n' :: b) = lines a ++ lines b :=
  cutAt_append_sep rfl a b

/-- A text without separators is one piece. -/
theorem cutAt_of_solid {sep : Char → Bool} {t : Text} (h : t.all (!sep ·)) : cutAt sep t = [t] := by
  rw [cutAt, cutMarked_of_unmarked (by simpa using h), List.map_map]
  exact congrArg (fun t => [t]) (List.map_id t)

theorem joinWith_singleton (sep piece : Text) : joinWith sep [piece] = piece := by
  rw [joinWith, List.intercalate_singleton]

theorem joinWith_cons_cons (sep piece next : Text) (rest : List Text) :
    joinWith sep (piece :: next :: rest) = piece ++ (sep ++ joinWith sep (next :: rest)) := by
  rw [joinWith, List.intercalate_cons_cons, List.append_assoc]
  rfl

/-- Texts without separators are the pieces of what they make when joined. -/
theorem cutAt_joinWith {sep : Char → Bool} {c : Char} (hc : sep c) {pieces : List Text} (hne : pieces ≠ [])
    (h : ∀ piece ∈ pieces, piece.all (!sep ·)) : cutAt sep (joinWith [c] pieces) = pieces := by
  induction pieces with
  | nil => exact absurd rfl hne
  | cons piece rest ih =>
    obtain ⟨hpiece, hrest⟩ := List.forall_mem_cons.mp h
    cases rest with
    | nil => rw [joinWith_singleton, cutAt_of_solid hpiece]
    | cons next rest =>
      rw [joinWith_cons_cons, List.singleton_append, cutAt_append_sep hc, cutAt_of_solid hpiece,
        ih (List.cons_ne_nil next rest) hrest]
      rfl

/-- White space separates the words before it from those after it. -/
theorem words_append_gap {gap : Text} (hblank : gap.all isBlank) (hne : gap ≠ []) (a b : Text) :
    words (a ++ (gap ++ b)) = words a ++ words b := by
  induction gap generalizing a with
  | nil => exact absurd rfl hne
  | cons c rest ih =>
    simp only [List.all_cons, Bool.and_eq_true] at hblank
    have hsplit : words (a ++ c :: (rest ++ b)) = words a ++ words (rest ++ b) := by
      rw [words, cutAt_append_sep hblank.1, List.filter_append]
      rfl
    rw [List.cons_append, hsplit]
    by_cases hrest : rest = []
    · rw [hrest, List.nil_append]
    · rw [← List.nil_append (rest ++ b), ih hblank.2 hrest []]
      rfl

/-- White space at the end adds no word. -/
theorem words_append_blanks {blanks : Text} (h : blanks.all isBlank) (t : Text) :
    words (t ++ blanks) = words t := by
  by_cases hne : blanks = []
  · rw [hne, List.append_nil]
  · rw [← List.append_nil blanks, words_append_gap h hne]
    exact List.append_nil _

/-- A text without white space is one word. -/
theorem words_of_solid {t : Text} (h : t.all (!isBlank ·)) (hne : t ≠ []) : words t = [t] := by
  rw [words, cutAt_of_solid h]
  simp [hne]

/-- A text that starts with a character other than white space holds a word. -/
theorem words_ne_nil {c : Char} (h : isBlank c = false) (t : Text) : words (c :: t) ≠ [] := by
  have hcut : cutAt isBlank (c :: t) = consFirst c (cutAt isBlank t) := by
    simp [cutAt, cutMarked, h]
  rw [words, hcut]
  cases hpieces : cutAt isBlank t with
  | nil => exact absurd hpieces (cutMarked_ne_nil _)
  | cons piece rest => simp [consFirst]

/-- Ranges that share no number. -/
theorem inRanges_eq_false_of_apart {a b : List (Nat × Nat)}
    (hapart : a.all fun r => b.all fun s => decide (r.2 < s.1 ∨ s.2 < r.1)) {n : Nat}
    (h : inRanges a n) : inRanges b n = false := by
  obtain ⟨r, hr, hwithin⟩ := List.any_eq_true.mp h
  refine List.any_eq_false.mpr fun s hs => ?_
  have hrs := List.all_eq_true.mp (List.all_eq_true.mp hapart r hr) s hs
  simp only [Bool.and_eq_true, decide_eq_true_eq] at hwithin hrs ⊢
  omega

/-- White space is no part of a name. -/
theorem isNameChar_of_isBlank {c : Char} (h : isBlank c) : isNameChar c = false := by
  by_cases hascii : c.toNat < 0x80
  · have hall : ∀ n < 0x80, isBlank (Char.ofNat n) → isNameChar (Char.ofNat n) = false := by decide
    have hchar := hall c.toNat hascii
    rw [Char.ofNat_toNat] at hchar
    exact hchar h
  · have hrange : inRanges alphanumericRanges c.toNat = false :=
      inRanges_eq_false_of_apart (by decide +kernel) h
    have hdollar : c ≠ '$' := by
      rintro rfl
      exact hascii (by decide)
    have hunderscore : c ≠ '_' := by
      rintro rfl
      exact hascii (by decide)
    simp [isNameChar, isWordChar, isAlphanumeric, hascii, hrange, hdollar, hunderscore]

/-- What starts a name continues one. -/
theorem isNameChar_of_isNameStart {c : Char} (h : isNameStart c) : isNameChar c := by
  simp only [isNameStart, Bool.or_eq_true, beq_iff_eq] at h
  rcases h with (rfl | rfl) | halpha
  · decide
  · decide
  · have hascii : c.toNat < 0x80 := by
      have hlast : ('Z').val.toNat = 90 ∧ ('z').val.toNat = 122 := ⟨rfl, rfl⟩
      have hletter : (decide ('A'.val ≤ c.val ∧ c.val ≤ 'Z'.val) ||
        (decide ('a'.val ≤ c.val) && decide (c.val ≤ 'z'.val))) = true := halpha
      simp only [Bool.or_eq_true, Bool.and_eq_true, decide_eq_true_eq, UInt32.le_iff_toNat_le] at hletter
      rw [Char.toNat]
      omega
    simp [isNameChar, isWordChar, isAlphanumeric, hascii, Char.isAlphanum, halpha]

/-- An identifier is a word. -/
theorem word_of_isIdentifier {t : Text} (h : isIdentifier t) : t.all isNameChar ∧ t ≠ [] := by
  cases t with
  | nil => cases h
  | cons c rest =>
    rw [isIdentifier, Bool.and_eq_true] at h
    rw [List.all_cons, isNameChar_of_isNameStart h.1, h.2]
    exact ⟨rfl, List.cons_ne_nil _ _⟩

/-- A text of name characters holds no white space. -/
theorem all_solid_of_word {t : Text} (h : t.all isNameChar) : t.all (!isBlank ·) := by
  refine List.all_eq_true.mpr fun c hc => ?_
  by_contra hblank
  have hname := isNameChar_of_isBlank (c := c) (by simpa using hblank)
  rw [List.all_eq_true.mp h c hc] at hname
  cases hname

/-- No piece of a cut holds a character that was cut at. -/
theorem sep_eq_false_of_mem_cutAt {sep : Char → Bool} {t piece : Text} (h : piece ∈ cutAt sep t) {c : Char}
    (hc : c ∈ piece) : sep c = false := by
  induction t generalizing piece with
  | nil =>
    obtain rfl : piece = [] := by simpa [cutAt, cutMarked] using h
    cases hc
  | cons d rest ih =>
    cases hd : sep d with
    | true =>
      have hcut : cutAt sep (d :: rest) = [] :: cutAt sep rest := by simp [cutAt, cutMarked, hd]
      rw [hcut, List.mem_cons] at h
      rcases h with rfl | h
      · cases hc
      · exact ih h hc
    | false =>
      have hcut : cutAt sep (d :: rest) = consFirst d (cutAt sep rest) := by
        simp [cutAt, cutMarked, hd]
      obtain ⟨first, more, hpieces⟩ := List.exists_cons_of_ne_nil (cutMarked_ne_nil
        (rest.map fun c => (c, sep c)))
      have hfirst : first ∈ cutAt sep rest := by simp [cutAt, hpieces]
      rw [hcut, cutAt, hpieces, consFirst, List.mem_cons] at h
      rcases h with rfl | h
      · rcases List.mem_cons.mp hc with rfl | hc
        · exact hd
        · exact ih hfirst hc
      · exact ih (by simp [cutAt, hpieces, h]) hc

/-- A line holds no line break. -/
theorem not_mem_of_mem_lines {t line : Text} (h : line ∈ lines t) : '\n' ∉ line := by
  intro hmem
  have hbreak := sep_eq_false_of_mem_cutAt h hmem
  simp at hbreak

/-- The words of a text, with spaces between them, stand on one line. -/
theorem not_mem_joinWith_words (t : Text) : '\n' ∉ joinWith " " (words t) := by
  have hword : ∀ word ∈ words t, '\n' ∉ word := by
    intro word hword hmem
    have hblank := sep_eq_false_of_mem_cutAt (List.mem_of_mem_filter hword) hmem
    exact absurd hblank (by decide)
  unfold joinWith
  generalize words t = pieces at hword
  induction pieces with
  | nil => simp
  | cons piece rest ih =>
    obtain ⟨hpiece, hrest⟩ := List.forall_mem_cons.mp hword
    cases rest with
    | nil => simpa using hpiece
    | cons next rest =>
      rw [List.intercalate_cons_cons]
      simp only [List.mem_append, not_or]
      exact ⟨⟨hpiece, by decide⟩, ih hrest⟩

/-- A character at the front of the first piece stands at the front of what is joined. -/
theorem joinWith_consFirst (sep : Text) (c : Char) {pieces : List Text} (h : pieces ≠ []) :
    joinWith sep (consFirst c pieces) = c :: joinWith sep pieces := by
  unfold joinWith
  cases pieces with
  | nil => exact absurd rfl h
  | cons piece rest =>
    cases rest with
    | nil => simp [consFirst]
    | cons next rest => simp [consFirst, List.intercalate_cons_cons]

/-- A text is its pieces with the character between them that it was cut at. -/
theorem joinWith_cutMarked {c : Char} {marked : List (Char × Bool)}
    (h : ∀ cell ∈ marked, cell.2 = true → cell.1 = c) :
    joinWith [c] (cutMarked marked) = marked.map Prod.fst := by
  induction marked with
  | nil => rfl
  | cons first rest ih =>
    obtain ⟨hfirst, hrest⟩ := List.forall_mem_cons.mp h
    obtain ⟨d, cut⟩ := first
    cases cut with
    | true =>
      obtain rfl : d = c := hfirst rfl
      obtain ⟨piece, more, hpieces⟩ := List.exists_cons_of_ne_nil (cutMarked_ne_nil rest)
      have hcut : cutMarked ((d, true) :: rest) = [] :: cutMarked rest := rfl
      rw [hcut, hpieces, joinWith_cons_cons, ← hpieces, ih hrest]
      rfl
    | false =>
      have hcut : cutMarked ((d, false) :: rest) = consFirst d (cutMarked rest) := rfl
      rw [hcut, joinWith_consFirst _ _ (cutMarked_ne_nil rest), ih hrest]
      rfl

/-- A text is its lines with line breaks between them. -/
theorem joinWith_lines (t : Text) : joinWith "\n" (lines t) = t := by
  have hcut : ∀ cell ∈ t.map fun c => (c, c == '\n'), cell.2 = true → cell.1 = '\n' := by
    intro cell hcell hmarked
    obtain ⟨c, -, rfl⟩ := List.mem_map.mp hcell
    exact beq_iff_eq.mp hmarked
  refine (joinWith_cutMarked hcut).trans ?_
  rw [List.map_map]
  exact List.map_id t

/-- A text whose ends are not blank is trimmed. -/
theorem trim_of_ends {t : Text} (hhead : t.head?.any isBlank = false)
    (hlast : t.getLast?.any isBlank = false) : trim t = t := by
  have hfront {s : Text} (h : s.head?.any isBlank = false) : s.dropWhile isBlank = s := by
    cases s with
    | nil => rfl
    | cons c rest => exact List.dropWhile_cons_of_neg (by simpa using h)
  unfold trim trimEnd trimStart
  rw [hfront hhead, hfront (by simpa using hlast), List.reverse_reverse]

/-- Trimming takes white space off both ends. -/
theorem exists_blanks_trim (t : Text) :
    ∃ front back, t = front ++ (trim t ++ back) ∧ front.all isBlank ∧ back.all isBlank := by
  have hback (s : Text) : ∃ back, s = trimEnd s ++ back ∧ back.all isBlank := by
    refine ⟨(s.reverse.takeWhile isBlank).reverse, ?_, ?_⟩
    · rw [trimEnd, ← List.reverse_append, List.takeWhile_append_dropWhile, List.reverse_reverse]
    · rw [List.all_reverse]
      exact List.all_takeWhile
  obtain ⟨back, hends, hblank⟩ := hback (trimStart t)
  refine ⟨t.takeWhile isBlank, back, ?_, List.all_takeWhile, hblank⟩
  rw [trim, ← hends]
  exact (List.takeWhile_append_dropWhile).symm

/-- The text starts and ends with characters that are not blank. -/
structure Edged (t : Text) : Prop where
  first : ∃ c rest, t = c :: rest ∧ isBlank c = false
  last : ∃ front c, t = front ++ [c] ∧ isBlank c = false

/-- Trimming at the end stops at a character that is not blank. -/
theorem trimEnd_append_cons {c : Char} (hc : isBlank c = false) (s t : Text) :
    trimEnd (s ++ c :: t) = s ++ c :: trimEnd t := by
  unfold trimEnd
  rw [List.reverse_append, List.reverse_cons, List.append_assoc, List.dropWhile_append]
  split
  · next hblank => simp [List.isEmpty_iff.mp hblank, hc]
  · simp

/-- White space is trimmed away. -/
theorem trimEnd_blanks {t : Text} (h : t.all isBlank) : trimEnd t = [] := by
  rw [trimEnd, List.reverse_eq_nil_iff, List.dropWhile_eq_nil_iff]
  simpa using h

/-- Nothing is left of white space. -/
theorem trim_blanks {t : Text} (h : t.all isBlank) : trim t = [] := by
  rw [trim, trimStart, List.dropWhile_eq_nil_iff.mpr (by simpa using h)]
  rfl

/-- White space in front of a text is trimmed away, and so is what is blank at the end after it. -/
theorem Edged.trim {core : Text} (h : Edged core) {gap : Text} (hgap : gap.all isBlank) (tail : Text) :
    Text.trim (gap ++ core ++ tail) = core ++ trimEnd tail := by
  obtain ⟨c, rest, hfirst, hc⟩ := h.first
  obtain ⟨front, d, hlast, hd⟩ := h.last
  have hstart : trimStart (gap ++ core ++ tail) = core ++ tail := by
    rw [trimStart, List.append_assoc, List.dropWhile_append_of_pos (by simpa using hgap), hfirst,
      List.cons_append, List.dropWhile_cons_of_neg (by simp [hc])]
  rw [Text.trim, hstart, hlast, List.append_assoc, List.append_assoc]
  exact trimEnd_append_cons hd front tail

/-- What starts like one text and ends like another has the ends of both. -/
theorem Edged.append {s t : Text} (ht : Edged t) (hs : ∃ c rest, s = c :: rest ∧ isBlank c = false)
    (middle : Text) : Edged (s ++ middle ++ t) := by
  obtain ⟨c, rest, rfl, hc⟩ := hs
  obtain ⟨front, d, rfl, hd⟩ := ht.last
  exact ⟨⟨c, rest ++ middle ++ (front ++ [d]), by simp, hc⟩,
    ⟨c :: rest ++ middle ++ front, d, by simp, hd⟩⟩

/-- Text without white space has such ends. -/
theorem edged_of_solid {t : Text} (hne : t ≠ []) (h : t.all (!isBlank ·)) : Edged t := by
  have hsolid (c : Char) (hc : c ∈ t) : isBlank c = false := by
    simpa using List.all_eq_true.mp h c hc
  constructor
  · obtain ⟨c, rest, rfl⟩ := List.exists_cons_of_ne_nil hne
    exact ⟨c, rest, rfl, hsolid c List.mem_cons_self⟩
  · refine ⟨t.dropLast, t.getLast hne, (List.dropLast_append_getLast hne).symm, ?_⟩
    exact hsolid _ (List.getLast_mem hne)

/-- Digits are not blank. -/
theorem isBlank_of_isDigit {c : Char} (h : c.isDigit) : isBlank c = false := by
  have hrange : inRanges [('0'.toNat, '9'.toNat)] c.toNat := by
    have hbounds : (decide ('0'.val ≤ c.val) && decide (c.val ≤ '9'.val)) = true := h
    simp only [Bool.and_eq_true, decide_eq_true_eq, UInt32.le_iff_toNat_le] at hbounds
    refine List.any_eq_true.mpr ⟨('0'.toNat, '9'.toNat), List.mem_singleton_self _, ?_⟩
    simp only [Bool.and_eq_true, decide_eq_true_eq]
    exact hbounds
  exact inRanges_eq_false_of_apart (by decide) hrange

/-- A class of characters cuts a text at the first character outside it in one way only. -/
theorem cut_unique {p : Char → Bool} {a b : Text} {c d : Char} {rest rest' : Text} (ha : a.all p)
    (hb : b.all p) (hc : p c = false) (hd : p d = false) (h : a ++ c :: rest = b ++ d :: rest') :
    a = b ∧ c = d := by
  have htaken (a : Text) (c : Char) (rest : Text) (ha : a.all p) (hc : p c = false) :
      (a ++ c :: rest).takeWhile p = a := by
    rw [List.takeWhile_append_of_pos (by simpa using ha), List.takeWhile_cons_of_neg (by simp [hc]),
      List.append_nil]
  have hab : a = b := by rw [← htaken a c rest ha hc, h, htaken b d rest' hb hd]
  subst hab
  simp only [List.append_cancel_left_eq, List.cons.injEq] at h
  exact ⟨rfl, h.1⟩

end SetupScript.Text
