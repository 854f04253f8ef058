import SetupScript.Proofs.GappedText
import SetupScript.Proofs.ScanComposition

/-!
# What leads up to a statement

Between the start of a statement and a function that it declares stand only spaces, tabs and statement
words. A lead is read by a pass over its characters that keeps the letters of the word at hand; in the
two texts of a text with gaps it is a lead in both or in neither. The start is looked for within a
window, so a text whose gaps hold spaces may show the start of a statement too far away.
-/

namespace SetupScript

namespace Bindings

/-- What a statement lead stands after: a semicolon, a closing brace, a line break or the end of a
comment. -/
def statementMarks : List Text := [";", "\x7d", "\n", "*/"]

/-- The rest of the words of a lead, each with white space after it, where `word` holds the letters of
the word at hand. -/
def leadFrom (word : Text) : Text → Bool
  | [] => word.isEmpty
  | c :: rest =>
    if Text.isBlank c then (word.isEmpty || statementWords.contains word) && leadFrom [] rest
    else leadFrom (word ++ [c]) rest

/-- The pass over the characters decides whether all words are statement words and the last one is
over. -/
theorem leadFrom_eq_words {word : Text} (hword : word.all (!Text.isBlank ·)) (t : Text) :
    leadFrom word t = (((word ++ t).isEmpty || (word ++ t).getLast?.any Text.isBlank) &&
      (Text.words (word ++ t)).all (statementWords.contains ·)) := by
  induction t generalizing word with
  | nil =>
    rw [List.append_nil, leadFrom]
    cases hlast : word.getLast? with
    | none =>
      rw [List.getLast?_eq_none_iff.mp hlast]
      rfl
    | some c =>
      have hc := List.all_eq_true.mp hword c (List.mem_of_getLast? hlast)
      have hne : word.isEmpty = false := by
        cases word
        · cases hlast
        · rfl
      simp_all
  | cons c rest ih =>
    rw [leadFrom]
    split
    · next hc =>
      have hwords : Text.words (word ++ ([c] ++ rest)) = Text.words word ++ Text.words rest :=
        Text.words_append_gap (by simpa using hc) (by simp) word rest
      have hfirst : (Text.words word).all (statementWords.contains ·) =
          (word.isEmpty || statementWords.contains word) := by
        cases word with
        | nil => rfl
        | cons d more => simp [Text.words_of_solid hword]
      rw [List.singleton_append] at hwords
      have hends : ((word ++ c :: rest).isEmpty || (word ++ c :: rest).getLast?.any Text.isBlank) =
          (rest.isEmpty || rest.getLast?.any Text.isBlank) := by
        cases rest with
        | nil => simp [hc]
        | cons d more => simp [List.getLast?_cons]
      rw [hwords, hends, List.all_append, hfirst, ih rfl, List.nil_append, Bool.and_left_comm]
    · next hc =>
      have hmore : (word ++ [c]).all (!Text.isBlank ·) := by simp [hword, hc]
      rw [ih hmore, List.append_assoc, List.singleton_append]

/-- A lead is empty or starts with a word, after spaces and tabs. -/
theorem isStatementLead_eq (t : Text) :
    isStatementLead t =
      ((t.dropWhile fun c => c == ' ' || c == '\t').isEmpty ||
        (!(t.dropWhile fun c => c == ' ' || c == '\t').head?.any Text.isBlank &&
          leadFrom [] (t.dropWhile fun c => c == ' ' || c == '\t'))) := by
  rw [isStatementLead, leadFrom_eq_words rfl, List.nil_append]
  cases (t.dropWhile fun c => c == ' ' || c == '\t').isEmpty
  · rw [Bool.false_or, Bool.false_or, Bool.false_or, Bool.and_assoc]
  · rfl

/-- A space ends a word. -/
theorem leadFrom_space (word t : Text) :
    leadFrom word (' ' :: t) = ((word.isEmpty || statementWords.contains word) && leadFrom [] t) := by
  rw [leadFrom, if_pos (by decide : Text.isBlank ' ')]

/-- A word with a character that no name has is no statement word. -/
theorem leadFrom_of_not_name {word : Text} {c : Char} (hmem : c ∈ word)
    (hc : Text.isNameChar c = false) (t : Text) :
    statementWords.contains word = false ∧ leadFrom word t = false := by
  have hcontains {word : Text} (hmem : c ∈ word) : statementWords.contains word = false := by
    by_contra h
    have hall : ∀ word ∈ statementWords, word.all Text.isNameChar := by decide
    have hname := List.all_eq_true.mp (hall word (by simpa using h)) c hmem
    simp [hc] at hname
  refine ⟨hcontains hmem, ?_⟩
  induction t generalizing word with
  | nil => exact List.isEmpty_eq_false_iff_exists_mem.mpr ⟨c, hmem⟩
  | cons d rest ih =>
    have hne : word.isEmpty = false := List.isEmpty_eq_false_iff_exists_mem.mpr ⟨c, hmem⟩
    rw [leadFrom, hne, hcontains hmem]
    split
    · rfl
    · exact ih (List.mem_append_left _ hmem)

/-- A lead stands at the end of a text after one of the marks. -/
theorem endsInStatementLead_iff {t : Text} :
    endsInStatementLead t ↔ ∃ front mark lead, t = front ++ (mark ++ lead) ∧ mark ∈ statementMarks ∧
      isStatementLead lead := by
  induction t with
  | nil => simp [endsInStatementLead, statementMarks]
  | cons c rest ih =>
    rw [endsInStatementLead, Bool.or_eq_true, ih]
    constructor
    · rintro (h | ⟨front, mark, lead, rfl, hmark, hlead⟩)
      · split at h
        · next hc =>
          simp only [Bool.or_eq_true, beq_iff_eq] at hc
          refine ⟨[], [c], rest, rfl, ?_, h⟩
          rcases hc with (rfl | rfl) | rfl <;> decide
        · split at h
          · next hc =>
            simp only [Bool.and_eq_true, beq_iff_eq] at hc
            obtain ⟨rfl, hslash⟩ := hc
            obtain ⟨more, rfl⟩ := List.head?_eq_some_iff.mp hslash
            exact ⟨[], "*/", more, rfl, by decide, h⟩
          · cases h
      · exact ⟨c :: front, mark, lead, rfl, hmark, hlead⟩
    · rintro ⟨front, mark, lead, hsplit, hmark, hlead⟩
      cases front with
      | cons d front =>
        obtain ⟨rfl, rfl⟩ := List.cons.inj hsplit
        exact .inr ⟨front, mark, lead, rfl, hmark, hlead⟩
      | nil =>
        refine .inl ?_
        simp only [statementMarks, List.mem_cons, List.not_mem_nil, or_false] at hmark
        rcases hmark with rfl | rfl | rfl | rfl <;> cases hsplit <;> exact hlead

/-- A statement starts after the text, however long its lead is. -/
def followsLead (t : Text) : Bool := isStatementLead t || endsInStatementLead t

/-- Every function at statement level that a lead stands before has its lead within the window. -/
def LeadsInWindow (t : Text) : Prop :=
  ∀ k, (Scan.ofText t).isTopLevel k → (Reader.functionDeclaration (t.drop k)).isSome →
    followsLead (t.take k) → startsStatement t k

instance (t : Text) : Decidable (LeadsInWindow t) :=
  decidable_of_iff
    (∀ k < t.length, (Scan.ofText t).isTopLevel k → (Reader.functionDeclaration (t.drop k)).isSome →
      followsLead (t.take k) → startsStatement t k)
    ⟨fun h k htop => h k (by
        obtain ⟨c, hcell⟩ := Scan.cell_of_isCode (Bool.and_eq_true_iff.mp htop).1
        simpa [Scan.ofText] using (List.getElem?_eq_some_iff.mp hcell).1) htop,
      fun h k _ => h k⟩

/-- A statement starts at an offset if the text before it is a lead, or ends in one after a mark, that
fits into the window. -/
theorem startsStatement_iff {front rest : Text} :
    startsStatement (front ++ rest) front.length ↔
      (front.length ≤ statementWindow ∧ isStatementLead front) ∨
        ∃ before mark lead, front = before ++ (mark ++ lead) ∧ mark ∈ statementMarks ∧
          isStatementLead lead ∧ (mark ++ lead).length ≤ statementWindow := by
  rw [startsStatement, List.take_left, Bool.or_eq_true, Bool.and_eq_true, decide_eq_true_eq,
    endsInStatementLead_iff]
  refine or_congr (and_congr_right fun hlength => ?_) ⟨?_, ?_⟩
  · rw [Nat.sub_eq_zero_of_le hlength, List.drop_zero]
  · rintro ⟨before, mark, lead, hsplit, hmark, hlead⟩
    refine ⟨front.take (front.length - statementWindow) ++ before, mark, lead, ?_, hmark, hlead, ?_⟩
    · rw [List.append_assoc, ← hsplit, List.take_append_drop]
    · have hlength := congrArg List.length hsplit
      rw [List.length_drop, List.length_append] at hlength
      omega
  · rintro ⟨before, mark, lead, rfl, hmark, hlead, hlength⟩
    refine ⟨before.drop ((before ++ (mark ++ lead)).length - statementWindow), mark, lead, ?_, hmark, hlead⟩
    rw [List.drop_append_of_le_length]
    rw [List.length_append]
    omega

end Bindings

namespace Gapped

open Bindings

variable {before : Option Char} {g : Gapped} {f : Char}

/-- Before a character that joins not with its last one a word is over, as before a space. -/
theorem leadFrom_before_gap {word t : Text} {a : Char} (hf : Text.isNameChar f)
    (hlast : word.getLast? = some a) (hgap : ∀ b ∈ (t ++ [f]).head?, Text.joins a b = false) :
    leadFrom word t = leadFrom word (' ' :: t) := by
  have ha := List.mem_of_getLast? hlast
  have hne : word.isEmpty = false := List.isEmpty_eq_false_iff_exists_mem.mpr ⟨a, ha⟩
  rw [leadFrom_space]
  by_cases hname : Text.isNameChar a
  · have hother (b : Char) (hb : b ∈ (t ++ [f]).head?) : Text.isNameChar b = false := by
      by_contra hnot
      have hjoins := hgap b hb
      rw [Text.joins_of_names hname (by simpa using hnot)] at hjoins
      cases hjoins
    cases t with
    | nil => simp [hother f rfl] at hf
    | cons b more =>
      rw [leadFrom, leadFrom]
      split
      · rfl
      · have hnone (front : Text) : leadFrom (front ++ [b]) more = false :=
          (leadFrom_of_not_name (List.mem_append_right front (List.mem_singleton_self b)) (hother b rfl) _).2
        rw [hnone word, hnone [], Bool.and_false]
  · have hnone := leadFrom_of_not_name ha (by simpa using hname) t
    rw [hne, hnone.1, hnone.2]
    rfl

/-- The words of a lead are read off both texts alike, if a name starts after it. -/
theorem leadFrom_texts {word : Text} (hf : Text.isNameChar f) (hapart : ApartFrom before (g ++ [some f]))
    (hbefore : word = [] ∨ word.getLast? = before) :
    leadFrom word (closed g) = leadFrom word (filled g) := by
  induction g generalizing word before with
  | nil => rfl
  | cons place rest ih =>
    rw [List.cons_append] at hapart
    cases place with
    | some c =>
      have hrest : ApartFrom (some c) (rest ++ [some f]) := hapart
      rw [closed_some, filled_some, leadFrom, leadFrom, ih hrest (.inl rfl),
        ih hrest (.inr (by rw [List.getLast?_concat]))]
    | none =>
      obtain ⟨hgap, hrest⟩ := hapart
      have hempty : leadFrom [] (closed rest) = leadFrom [] (filled rest) := ih hrest (.inl rfl)
      have hspaces : leadFrom word (' ' :: closed rest) = leadFrom word (' ' :: filled rest) := by
        rw [leadFrom_space, leadFrom_space, hempty]
      rw [closed_none, filled_none, ← hspaces]
      obtain rfl | rfl := hbefore
      · rfl
      cases hlast : word.getLast? with
      | none =>
        rw [List.getLast?_eq_none_iff.mp hlast]
        rfl
      | some a =>
        rw [closed_append] at hgap
        exact leadFrom_before_gap hf hlast (hgap a hlast)

/-- A text with gaps is a statement lead in both texts or in neither, if a name starts after it. -/
theorem isStatementLead_texts (hf : Text.isNameChar f) (hapart : ApartFrom before (g ++ [some f])) :
    isStatementLead (closed g) = isStatementLead (filled g) := by
  rw [isStatementLead_eq, isStatementLead_eq]
  let p : Char → Bool := fun c => c == ' ' || c == '\t'
  have htexts := dropWhile_all (p := p) rfl g
  have hflush := flush_dropWhile_all p g
  have hsuffix := List.dropWhile_suffix (l := g) (·.all p)
  change (((closed g).dropWhile p).isEmpty ||
      (!((closed g).dropWhile p).head?.any Text.isBlank && leadFrom [] ((closed g).dropWhile p))) =
    (((filled g).dropWhile p).isEmpty ||
      (!((filled g).dropWhile p).head?.any Text.isBlank && leadFrom [] ((filled g).dropWhile p)))
  rw [← htexts.1, ← htexts.2]
  generalize g.dropWhile (·.all p) = lead at hflush hsuffix
  obtain ⟨front, rfl⟩ := hsuffix
  rw [List.append_assoc] at hapart
  have hempty : (closed lead).isEmpty = (filled lead).isEmpty := by
    cases lead with
    | nil => rfl
    | cons place rest =>
      cases place with
      | none => exact absurd rfl hflush
      | some c => rfl
  rw [hempty, head?_of_flush hflush, leadFrom_texts hf hapart.append.2 (.inl rfl)]

/-- Marks hold no space, and a gap parts none of them. -/
theorem mark_of_mem {mark : Text} (h : mark ∈ statementMarks) :
    ' ' ∉ mark ∧ mark ≠ [] ∧ mark.IsChain fun a b => Text.joins a b := by
  simp only [statementMarks, List.mem_cons, List.not_mem_nil, or_false] at h
  rcases h with rfl | rfl | rfl | rfl
  · exact ⟨by decide, by decide, .singleton _⟩
  · exact ⟨by decide, by decide, .singleton _⟩
  · exact ⟨by decide, by decide, .singleton _⟩
  · exact ⟨by decide, by decide, .cons_cons (by decide) (.singleton _)⟩

/-- What is not a space in the filled text is a character of the text with gaps. -/
theorem eq_map_some_of_filled {mark : Text} (hspace : ' ' ∉ mark) (h : filled g = mark) :
    g = mark.map some := by
  subst h
  induction g with
  | nil => rfl
  | cons place rest ih =>
    cases place with
    | none => exact absurd (List.mem_cons_self ..) hspace
    | some c => rw [filled_some, List.map_cons, ← ih fun hmem => hspace (List.mem_cons_of_mem _ hmem)]

/-- A place of the closed text is one of the text with gaps, after the gaps there. -/
theorem exists_split_of_closed {a b : Text} (hb : b ≠ []) (h : closed g = a ++ b) :
    ∃ front rest, g = front ++ rest ∧ closed front = a ∧ closed rest = b ∧ Flush rest := by
  induction g generalizing a with
  | nil => exact absurd (List.append_eq_nil_iff.mp h.symm).2 hb
  | cons place rest ih =>
    cases place with
    | none =>
      obtain ⟨front, back, rfl, rfl, rfl, hflush⟩ := ih h
      exact ⟨none :: front, back, rfl, rfl, rfl, hflush⟩
    | some c =>
      cases a with
      | nil => exact ⟨[], some c :: rest, rfl, rfl, h, by simp [Flush]⟩
      | cons d a =>
        rw [closed_some, List.cons_append] at h
        obtain ⟨rfl, hrest⟩ := List.cons.inj h
        obtain ⟨front, back, rfl, rfl, rfl, hflush⟩ := ih hrest
        exact ⟨some c :: front, back, rfl, rfl, rfl, hflush⟩

/-- A lead after a mark in the filled text is one in the closed text, and no longer there. -/
theorem exists_mark_of_filled {front mark lead : Text} (hmark : mark ∈ statementMarks)
    (h : filled g = front ++ (mark ++ lead)) :
    ∃ before rest, g = before ++ (mark.map some ++ rest) ∧ filled rest = lead := by
  obtain ⟨before, back, rfl, -, hback⟩ := List.map_eq_append_iff.mp h
  obtain ⟨middle, rest, rfl, hmiddle, rfl⟩ := List.map_eq_append_iff.mp hback
  exact ⟨before, rest, by rw [eq_map_some_of_filled (mark_of_mem hmark).1 hmiddle], rfl⟩

/-- A lead after a mark in the closed text is one in the filled text. -/
theorem exists_mark_of_closed {front mark lead : Text} (hmark : mark ∈ statementMarks)
    (hapart : ApartFrom before g) (h : closed g = front ++ (mark ++ lead)) :
    ∃ before rest, g = before ++ (mark.map some ++ rest) ∧ closed rest = lead := by
  obtain ⟨-, hne, hchain⟩ := mark_of_mem hmark
  obtain ⟨before, back, rfl, -, hback, hflush⟩ := exists_split_of_closed (by simp [hne]) h
  have hfits : mark.isPrefixOf? (closed back) = some lead := by
    rw [hback, List.isPrefixOf?_eq_some_iff_append_eq]
  obtain ⟨hnone, -⟩ | ⟨rest, rfl, hrest, -⟩ := isPrefixOf?_of_chain hapart.append.2 hchain (.inl hflush)
  · rw [hnone] at hfits
    cases hfits
  · exact ⟨before, rest, rfl, Option.some.inj (hrest.symm.trans hfits)⟩

theorem length_closed_le (g : Gapped) : (closed g).length ≤ (filled g).length := by
  rw [length_filled]
  exact List.length_filterMap_le _ _

theorem apart_after_mark {front rest : Gapped} {mark : Text}
    (hapart : ApartFrom before (front ++ (mark.map some ++ rest) ++ [some f])) :
    ApartFrom ((closed (front ++ mark.map some)).getLast?.or before) (rest ++ [some f]) := by
  rw [← List.append_assoc, List.append_assoc] at hapart
  exact hapart.append.2

/-- A statement that starts in the filled text, as far as the window shows, starts in the closed text,
where the window shows no less. -/
theorem startsStatement_of_filled (hf : Text.isNameChar f) (hapart : ApartFrom before (g ++ [some f]))
    {t t' : Text} (h : startsStatement (filled g ++ t') g.length) :
    startsStatement (closed g ++ t) (closed g).length := by
  rw [← length_filled] at h
  refine startsStatement_iff.mpr ((startsStatement_iff.mp h).imp ?_ ?_)
  · rintro ⟨hlength, hlead⟩
    exact ⟨(length_closed_le g).trans hlength, by rwa [isStatementLead_texts hf hapart]⟩
  · rintro ⟨front, mark, lead, hsplit, hmark, hlead, hlength⟩
    obtain ⟨front, rest, rfl, rfl⟩ := exists_mark_of_filled hmark hsplit
    refine ⟨closed front, mark, closed rest, by simp, hmark, ?_, ?_⟩
    · rwa [isStatementLead_texts hf (apart_after_mark hapart)]
    · rw [List.length_append] at hlength ⊢
      exact (Nat.add_le_add_left (length_closed_le rest) _).trans hlength

/-- A statement that starts in the closed text, as far as the window shows, starts in the filled text
too, though its lead may not fit into the window there. -/
theorem followsLead_of_closed (hf : Text.isNameChar f) (hapart : ApartFrom before (g ++ [some f]))
    {t : Text} (h : startsStatement (closed g ++ t) (closed g).length) : followsLead (filled g) := by
  rw [followsLead, Bool.or_eq_true, endsInStatementLead_iff]
  refine (startsStatement_iff.mp h).imp ?_ ?_
  · rintro ⟨-, hlead⟩
    rwa [← isStatementLead_texts hf hapart]
  · rintro ⟨front, mark, lead, hsplit, hmark, hlead, -⟩
    obtain ⟨front, rest, rfl, rfl⟩ := exists_mark_of_closed hmark hapart.append.1 hsplit
    refine ⟨filled front, mark, filled rest, by simp, hmark, ?_⟩
    rwa [← isStatementLead_texts hf (apart_after_mark hapart)]

end Gapped

end SetupScript
