import SetupScript.Proofs.CallForms
import SetupScript.Proofs.StatementLevel

/-!
# Words in code

A word stands in code when each of its characters does and no character of a name touches it on
either side. The searches for calls and for keywords look at the mode of the first character only.
That is enough: from a character in code on, the characters of a name are all read as code.
-/

namespace SetupScript

/-- The word stands at the offset, every character of it in code, and is no part of a longer name. -/
structure IsCodeWord (t word : Text) (p : Nat) : Prop where
  code : ∀ i < word.length, (Scan.ofText t).isCode (p + i)
  spelled : word <+: t.drop p
  starts : (Text.charBefore none t p).any Text.isNameChar = false
  ends : (t.drop (p + word.length)).head?.any Text.isNameChar = false

/-- The name is called at the offset: it stands there as a word in code, and an opening parenthesis or
angle bracket follows it, possibly after blanks. -/
structure IsCalledAt (t name : Text) (p : Nat) : Prop extends IsCodeWord t name p where
  opens : ∃ gap opener rest, t.drop (p + name.length) = gap ++ opener :: rest ∧ gap.all Text.isBlank ∧
    (opener = '(' ∨ opener = '<')

variable {t word name : Text} {p : Nat}

/-- The text from a word on is the word and what follows it. -/
theorem drop_of_isPrefix (h : word <+: t.drop p) : t.drop p = word ++ t.drop (p + word.length) := by
  obtain ⟨rest, hrest⟩ := h
  rw [← List.drop_drop, ← hrest, List.drop_left]

/-! ## Reading on from a character in code -/

/-- From a word whose first character is code, the word and what follows it are read from code. -/
theorem Scan.drop_cells_of_word (hword : word.all Text.isNameChar) (hcode : (ofText t).isCode p)
    (hspelled : word <+: t.drop p) :
    (ofText t).cells.drop p = word.map (⟨·, .code⟩) ++ labelFrom .code (t.drop (p + word.length)) := by
  have hplain := all_isPlain_of_inert (all_isInert_of_word hword)
  rw [drop_cells hcode, drop_of_isPrefix hspelled, (labelFrom_plain hplain _).1]

/-- A word is in code from its first character on. -/
theorem Scan.isCode_of_word (hword : word.all Text.isNameChar) (hcode : (ofText t).isCode p)
    (hspelled : word <+: t.drop p) : ∀ i < word.length, (ofText t).isCode (p + i) := by
  intro i hi
  rw [isCode, ← List.getElem?_drop, drop_cells_of_word hword hcode hspelled,
    List.getElem?_append_left (by rwa [List.length_map]), List.getElem?_map,
    List.getElem?_eq_getElem hi]
  rfl

/-! ## Calls -/

/-- What starts an argument list is seen from the characters alone. -/
theorem startsArguments_labelFrom (context : Context) (t : Text) :
    startsArguments (labelFrom context t) =
      (t.dropWhile Text.isBlank).head?.any fun c => c == '(' || c == '<' := by
  conv_rhs => rw [← map_char_labelFrom context t]
  rw [List.dropWhile_map, List.head?_map, Option.any_map]
  rfl

/-- An argument list starts with an opening parenthesis or angle bracket after blanks. -/
theorem startsArguments_iff (context : Context) (t : Text) :
    startsArguments (labelFrom context t) ↔
      ∃ gap opener rest, t = gap ++ opener :: rest ∧ gap.all Text.isBlank ∧
        (opener = '(' ∨ opener = '<') := by
  rw [startsArguments_labelFrom]
  constructor
  · intro hstarts
    obtain ⟨opener, hfirst, hopener⟩ := (Option.any_eq_true _ _).mp hstarts
    obtain ⟨rest, hrest⟩ := List.head?_eq_some_iff.mp hfirst
    refine ⟨t.takeWhile Text.isBlank, opener, rest, ?_, List.all_takeWhile, by simpa using hopener⟩
    rw [← hrest, List.takeWhile_append_dropWhile]
  · rintro ⟨gap, opener, rest, rfl, hgap, hopener⟩
    have hsolid : Text.isBlank opener = false := by rcases hopener with rfl | rfl <;> decide
    rw [List.dropWhile_append_of_pos (List.all_eq_true.mp hgap),
      List.dropWhile_cons_of_neg (by simp [hsolid])]
    simpa using hopener

/-- At a name in code, what remains to be seen are its two sides and the argument list. -/
theorem callHere_of_word (hne : name ≠ []) (before : Option Char) (after : List Cell) :
    callHere name before (name.map (⟨·, .code⟩) ++ after) =
      (!before.any Text.isNameChar && !after.head?.any (Text.isNameChar ·.char) &&
        startsArguments after) := by
  have hspelled := spelled?_map name .code after
  cases name with
  | nil => exact absurd rfl hne
  | cons c rest =>
    rw [List.map_cons, List.cons_append] at hspelled ⊢
    rw [callHere, hspelled]
    rfl

/-- The offsets of calls are exactly those at which the name is called. -/
theorem Scan.mem_callOffsets_iff (hname : name.all Text.isNameChar) (hne : name ≠ []) :
    p ∈ (ofText t).callOffsets name ↔ IsCalledAt t name p := by
  have hhere : p ∈ (ofText t).callOffsets name ↔
      callHere name (Text.charBefore none t p) ((ofText t).cells.drop p) := by
    rw [callOffsets, mem_callOffsetsFrom]
    simp only [Nat.zero_add, charBefore_ofText, exists_eq_left']
  have hcall (hcode : (ofText t).isCode p) (hspelled : name <+: t.drop p) :
      p ∈ (ofText t).callOffsets name ↔
        (Text.charBefore none t p).any Text.isNameChar = false ∧
          (t.drop (p + name.length)).head?.any Text.isNameChar = false ∧
          startsArguments (labelFrom .code (t.drop (p + name.length))) := by
    have hhead : (labelFrom .code (t.drop (p + name.length))).head?.any (Text.isNameChar ·.char) =
        (t.drop (p + name.length)).head?.any Text.isNameChar := by
      conv_rhs => rw [← map_char_labelFrom .code (t.drop (p + name.length))]
      rw [List.head?_map, Option.any_map]
    rw [hhere, drop_cells_of_word hname hcode hspelled, callHere_of_word hne, hhead]
    simp only [Bool.and_eq_true, Bool.not_eq_true', and_assoc]
  constructor
  · intro hmem
    obtain ⟨hcode, hspelled⟩ := of_mem_callOffsets hmem
    rw [text_ofText] at hspelled
    obtain ⟨hstarts, hends, hlist⟩ := (hcall hcode hspelled).mp hmem
    exact ⟨⟨isCode_of_word hname hcode hspelled, hspelled, hstarts, hends⟩,
      (startsArguments_iff _ _).mp hlist⟩
  · rintro ⟨⟨hcode, hspelled, hstarts, hends⟩, hlist⟩
    have hfirst : (ofText t).isCode p := hcode 0 (List.length_pos_iff.mpr hne)
    exact (hcall hfirst hspelled).mpr ⟨hstarts, hends, (startsArguments_iff _ _).mpr hlist⟩

/-! ## Keywords -/

/-- The word stands in code, with equally many braces opened and closed before it. -/
def HasTopLevelWord (t word : Text) : Prop :=
  ∃ p, IsCodeWord t word p ∧ (Scan.ofText t).codeCount '{' p = (Scan.ofText t).codeCount '}' p

namespace Reader

/-- Read a word that no character of a name follows. -/
theorem wholeWord_eq_some {left : Text} {u : Unit} :
    (do literal word; notBefore Text.isNameChar : Reader Unit) t = some (u, left) ↔
      t = word ++ left ∧ left.head?.any Text.isNameChar = false := by
  simp only [bind_eq_some, literal_eq_some, notBefore]
  constructor
  · rintro ⟨_, middle, rfl, hread⟩
    split at hread
    · cases hread
    · next hend =>
      obtain rfl : middle = left := by simpa using hread
      exact ⟨rfl, by simpa using hend⟩
  · rintro ⟨rfl, hend⟩
    exact ⟨(), left, rfl, by simp [hend]⟩

end Reader

/-- The search for a keyword finds it where it stands in code, outside all braces. -/
theorem Scan.hasTopLevelWord_iff (hword : word.all Text.isNameChar) (hne : word ≠ []) :
    (ofText t).hasTopLevelWord word ↔ HasTopLevelWord t word := by
  rw [hasTopLevelWord, text_ofText, List.any_eq_true]
  constructor
  · rintro ⟨found, hfound, htop⟩
    obtain ⟨left, -, hread, -⟩ := Text.mem_findAll hfound
    obtain ⟨htext, hend⟩ := Reader.wholeWord_eq_some.mp hread
    have hstarts := Text.admits_of_mem_findAll hfound
    simp only [Text.outsideName, Bool.not_eq_true'] at hstarts
    obtain ⟨hcode, hdepth⟩ := isTopLevel_ofText.mp htop
    have hspelled : word <+: t.drop found.start := ⟨left, htext.symm⟩
    refine ⟨found.start, ⟨isCode_of_word hword hcode hspelled, hspelled, hstarts, ?_⟩, hdepth⟩
    rwa [← List.drop_drop, htext, List.drop_left]
  · rintro ⟨p, ⟨hcode, hspelled, hstarts, hend⟩, hdepth⟩
    have htop : (ofText t).isTopLevel p :=
      isTopLevel_ofText.mpr ⟨hcode 0 (List.length_pos_iff.mpr hne), hdepth⟩
    have hread := (Reader.wholeWord_eq_some (u := ())).mpr ⟨drop_of_isPrefix hspelled, hend⟩
    refine ⟨_, Text.mem_findAll_of_read ?_ ?_ hread ?_, htop⟩
    · intro t value left hread
      obtain ⟨rfl, -⟩ := Reader.wholeWord_eq_some.mp hread
      rw [List.length_append]
      exact Nat.lt_add_of_pos_left (List.length_pos_iff.mpr hne)
    · simp only [Text.outsideName, hstarts, Bool.not_false]
    -- a word found earlier and reaching past would put a character of a name before this one
    · intro found hfound hearlier
      obtain ⟨left, -, hread', hstop⟩ := Text.mem_findAll hfound
      obtain ⟨htext, -⟩ := Reader.wholeWord_eq_some.mp hread'
      by_contra hpast
      obtain ⟨i, rfl⟩ := Nat.exists_eq_add_of_lt hearlier
      rw [htext, List.length_append, Nat.add_sub_cancel] at hstop
      have hi : i < word.length := by omega
      have hbefore : Text.charBefore none t (found.start + i + 1) = some word[i] := by
        rw [Text.charBefore, ← List.getElem?_drop, htext, List.getElem?_append_left hi,
          List.getElem?_eq_getElem hi]
      rw [hbefore, Option.any_some, List.all_eq_true.mp hword _ (List.getElem_mem hi)] at hstarts
      cases hstarts

end SetupScript
