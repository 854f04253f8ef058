import SetupScript.Proofs.TextLines
import SetupScript.Proofs.WrittenNames

/-!
# Declarations before a call

A call that is assigned in a declaration stands right after the equals sign. The declaration of a
plain name is found by a search for one that ends there, and there is no other: one that started
earlier would hold a word too many. The declaration of a pattern is the last that starts in code
before the call, as long as the pattern itself declares nothing.
-/

namespace SetupScript

/-- The words that start a declaration of variables. -/
def declarationWords : List Text := ["const", "let", "var"]

/-- A declaration of the target, up to the value that it is assigned. -/
def declarationText (target : Text) : Text := "const " ++ (target ++ " = ")

/-- The equals sign and the blanks around it belong to no name. -/
theorem not_name_of_mem_equals {c : Char} (h : c ∈ (" = " : Text)) : Text.isNameChar c = false := by
  have hall : (" = " : Text).all (!Text.isNameChar ·) := by decide
  simpa using List.all_eq_true.mp hall c h

/-- How long the start of a declaration is. -/
theorem length_declarationText (target : Text) : (declarationText target).length = target.length + 9 := by
  rw [declarationText, List.length_append, List.length_append, show List.length ("const " : Text) = 6 from rfl,
    show List.length (" = " : Text) = 3 from rfl]
  omega

namespace Reader

variable {t left name : Text}

/-- A declaration starts with one of three words and a gap. -/
theorem of_declarationWord {u : Unit} (h : declarationWord t = some (u, left)) :
    ∃ word gap, word ∈ declarationWords ∧ t = word ++ (gap ++ left) ∧ IsGap gap left := by
  simp only [declarationWord, bind_eq_some, blanks1_eq_some, many1_eq_some] at h
  obtain ⟨word, middle, hword, gap, rfl, hblank, hne, hhead⟩ := h
  obtain ⟨hmem, rfl⟩ := oneOf_eq_some hword
  exact ⟨word, gap, hmem, rfl, hblank, hne, hhead⟩

/-- The word `const` and one blank start a declaration of what follows. -/
theorem declarationWord_const (h : left.head?.any Text.isBlank = false) :
    declarationWord (("const " : Text) ++ left) = some ((), left) := by
  simp only [declarationWord, bind_eq_some, blanks1_eq_some, many1_eq_some]
  exact ⟨"const", ' ' :: left, rfl, [' '], rfl, by decide, by decide, by simp [h]⟩

/-- The text of a declaration of a plain name that ends after its equals sign. -/
def OpenForm (name taken : Text) : Prop :=
  ∃ word gap b₁ b₂, word ∈ declarationWords ∧ taken = word ++ (gap ++ (name ++ (b₁ ++ '=' :: b₂))) ∧
    (gap.all Text.isBlank ∧ gap ≠ []) ∧ Text.isIdentifier name ∧
    b₁.all Text.isBlank ∧ b₂.all Text.isBlank

/-- The end of the text takes nothing. -/
theorem atEnd_eq_some {u : Unit} : atEnd t = some (u, left) ↔ t = [] ∧ left = [] := by
  cases t with
  | nil => simp [atEnd, eq_comm]
  | cons c rest => simp [atEnd]

/-- An equals sign, with white space around it. -/
theorem assignment_eq_some {u : Unit} :
    assignment t = some (u, left) ↔ ∃ b₁ b₂, t = b₁ ++ '=' :: (b₂ ++ left) ∧ b₁.all Text.isBlank ∧
      b₂.all Text.isBlank ∧ !left.head?.any Text.isBlank := by
  simp only [assignment, bind_eq_some, blanks_eq_some, literal_eq_some]
  constructor
  · rintro ⟨_, _, ⟨b₁, rfl, hb₁, -⟩, _, _, rfl, b₂, rfl, hb₂, hhead⟩
    exact ⟨b₁, b₂, rfl, hb₁, hb₂, hhead⟩
  · rintro ⟨b₁, b₂, rfl, hb₁, hb₂, hhead⟩
    exact ⟨(), _, ⟨b₁, rfl, hb₁, rfl⟩, (), b₂ ++ left, rfl, b₂, rfl, hb₂, hhead⟩

/-- An open declaration is the rest of the text. -/
theorem of_openDeclaration (h : openDeclaration t = some (name, left)) :
    left = [] ∧ OpenForm name t := by
  simp only [openDeclaration, bind_eq_some, identifier_eq_some, assignment_eq_some, atEnd_eq_some,
    pure_eq_some] at h
  obtain ⟨_, _, hword, _, _, ⟨rfl, hname, -⟩, _, _, ⟨b₁, b₂, rfl, hb₁, hb₂, -⟩, _, _, ⟨rfl, rfl⟩, rfl, rfl⟩ := h
  obtain ⟨word, gap, hmem, rfl, hgap⟩ := of_declarationWord hword
  exact ⟨rfl, word, gap, b₁, b₂, hmem, by simp only [List.append_nil], ⟨hgap.1, hgap.2.1⟩, hname, hb₁, hb₂⟩

/-- A name does not start with white space. -/
theorem head?_of_isIdentifier (h : Text.isIdentifier name) (rest : Text) :
    (name ++ rest).head?.any Text.isBlank = false := by
  have hword := Text.word_of_isIdentifier h
  cases name with
  | nil => exact absurd rfl hword.2
  | cons c name =>
    have hsolid := Text.all_solid_of_word hword.1
    simpa using List.all_eq_true.mp hsolid c (List.mem_cons_self ..)

/-- The declaration of a plain name, written with single blanks, is read as such. -/
theorem openDeclaration_const (h : Text.isIdentifier name) :
    openDeclaration (declarationText name) = some (name, []) := by
  simp only [openDeclaration, bind_eq_some, identifier_eq_some, assignment_eq_some, atEnd_eq_some,
    pure_eq_some]
  exact ⟨(), _, declarationWord_const (head?_of_isIdentifier h _), name, " = ", ⟨rfl, h, rfl⟩, (), [],
    ⟨[' '], [' '], rfl, by decide, by decide, rfl⟩, (), [], ⟨rfl, rfl⟩, rfl, rfl⟩

/-- The text of the start of a pattern declaration. -/
def PatternForm (opener : Char) (taken : Text) : Prop :=
  ∃ word gap, word ∈ declarationWords ∧ taken = word ++ (gap ++ [opener]) ∧
    (gap.all Text.isBlank ∧ gap ≠ []) ∧ (opener = '{' ∨ opener = '[')

/-- A pattern declaration is a word, a gap and an opening bracket. -/
theorem of_patternDeclaration {opener : Char} (h : patternDeclaration t = some (opener, left)) :
    ∃ taken, t = taken ++ left ∧ PatternForm opener taken := by
  simp only [patternDeclaration, bind_eq_some, char_eq_some] at h
  obtain ⟨_, _, hword, rfl, hopener⟩ := h
  obtain ⟨word, gap, hmem, rfl, hgap⟩ := of_declarationWord hword
  exact ⟨word ++ (gap ++ [opener]), by simp, word, gap, hmem, rfl, ⟨hgap.1, hgap.2.1⟩,
    by simpa using hopener⟩

/-- The declaration of a pattern, written with one blank, is read as such. -/
theorem patternDeclaration_const {opener : Char} (h : opener = '{' ∨ opener = '[') (left : Text) :
    patternDeclaration (("const " : Text) ++ opener :: left) = some (opener, left) := by
  have hblank : (opener :: left).head?.any Text.isBlank = false := by
    rcases h with rfl | rfl
    · rfl
    · rfl
  simp only [patternDeclaration, bind_eq_some, char_eq_some]
  exact ⟨(), _, declarationWord_const hblank, rfl, by simpa using h⟩

end Reader

/-! ## Plain names -/

/-- A word that starts a declaration is a word. -/
theorem word_of_mem_declarationWords {word : Text} (h : word ∈ declarationWords) :
    word.all Text.isNameChar ∧ word ≠ [] := by
  have hall : ∀ word ∈ declarationWords, word.all Text.isNameChar ∧ word ≠ [] := by decide
  exact hall word h

/-- A character that may stand in the declaration of a plain name. -/
def isDeclarationChar (c : Char) : Bool := Text.isNameChar c || Text.isBlank c || c == '='

namespace Reader.OpenForm

variable {name taken : Text}

/-- An open declaration starts with a name character. -/
theorem first (h : OpenForm name taken) : ∃ c rest, taken = c :: rest ∧ Text.isNameChar c := by
  obtain ⟨word, gap, b₁, b₂, hmem, rfl, -⟩ := h
  obtain ⟨hword, hne⟩ := word_of_mem_declarationWords hmem
  cases word with
  | nil => exact absurd rfl hne
  | cons c rest => exact ⟨c, _, rfl, List.all_eq_true.mp hword c (List.mem_cons_self ..)⟩

/-- The characters of an open declaration. -/
theorem chars (h : OpenForm name taken) : taken.all isDeclarationChar := by
  obtain ⟨word, gap, b₁, b₂, hmem, rfl, hgap, hname, hb₁, hb₂⟩ := h
  have hblanks {blanks : Text} (h : blanks.all Text.isBlank) : blanks.all isDeclarationChar :=
    List.all_eq_true.mpr fun c hc => by simp [isDeclarationChar, List.all_eq_true.mp h c hc]
  have hchars {word : Text} (h : word.all Text.isNameChar) : word.all isDeclarationChar :=
    List.all_eq_true.mpr fun c hc => by simp [isDeclarationChar, List.all_eq_true.mp h c hc]
  simp only [List.all_append, List.all_cons, hchars (word_of_mem_declarationWords hmem).1,
    hblanks hgap.1, hchars (Text.word_of_isIdentifier hname).1, hblanks hb₁, hblanks hb₂, Bool.and_true]
  decide

/-- An open declaration has three words at most. -/
theorem words_le (h : OpenForm name taken) : (Text.words taken).length ≤ 3 := by
  obtain ⟨word, gap, b₁, b₂, hmem, rfl, hgap, hname, hb₁, hb₂⟩ := h
  obtain ⟨hword, hne⟩ := word_of_mem_declarationWords hmem
  obtain ⟨hname, hname'⟩ := Text.word_of_isIdentifier hname
  have hequals : Text.words ('=' :: b₂) = ["="] := Text.words_append_blanks hb₂ ['=']
  have hrest : (Text.words (name ++ (b₁ ++ '=' :: b₂))).length ≤ 2 := by
    by_cases hb : b₁ = []
    · -- without white space before it the equals sign belongs to the second word
      have hsolid : (name ++ ['=']).all (!Text.isBlank ·) := by
        rw [List.all_append, Text.all_solid_of_word hname]
        decide
      rw [hb, List.nil_append, ← List.singleton_append, ← List.append_assoc,
        Text.words_append_blanks hb₂, Text.words_of_solid hsolid (by simp)]
      exact Nat.le_succ 1
    · rw [Text.words_append_gap hb₁ hb, hequals, Text.words_of_solid (Text.all_solid_of_word hname) hname']
      exact Nat.le_refl 2
  rw [Text.words_append_gap hgap.1 hgap.2, Text.words_of_solid (Text.all_solid_of_word hword) hne,
    List.length_append, List.length_singleton]
  omega

end Reader.OpenForm

/-- The text is empty or ends where a statement may start: after a line break or a semicolon. -/
def EndsStatement (lead : Text) : Prop :=
  lead = [] ∨ lead.getLast? = some '\n' ∨ lead.getLast? = some ';'

instance (lead : Text) : Decidable (EndsStatement lead) := inferInstanceAs (Decidable (_ ∨ _ ∨ _))

section Lead

variable {lead : Text} (hlead : EndsStatement lead)

include hlead

/-- From any offset of its own on, the lead ends with a line break or a semicolon. -/
theorem EndsStatement.last {k : Nat} (hk : k < lead.length) :
    ∃ init c, lead.drop k = init ++ [c] ∧ (c = '\n' ∨ c = ';') := by
  have hlast : ∃ c, lead.getLast? = some c ∧ (c = '\n' ∨ c = ';') := by
    rcases hlead with rfl | hbreak | hsemicolon
    · exact absurd hk (Nat.not_lt_zero _)
    · exact ⟨_, hbreak, .inl rfl⟩
    · exact ⟨_, hsemicolon, .inr rfl⟩
  obtain ⟨c, hlast, hc⟩ := hlast
  obtain ⟨init, rfl⟩ := List.getLast?_eq_some_iff.mp hlast
  rw [List.length_append, List.length_singleton] at hk
  exact ⟨init.drop k, c, List.drop_append_of_le_length (by omega), hc⟩

/-- A search may start right after the lead. -/
theorem EndsStatement.outsideMember (rest : Text) :
    Text.outsideMember (Text.charBefore none (lead ++ rest) lead.length) := by
  rw [Text.charBefore_append]
  rcases hlead with rfl | hbreak | hsemicolon
  · rfl
  · rw [hbreak]
    decide
  · rw [hsemicolon]
    decide

/-- No declaration of a plain name that is open at the end starts in the lead. -/
theorem EndsStatement.not_openForm {name name' : Text} (hname : Text.isIdentifier name) {k : Nat}
    (hk : k < lead.length) :
    ¬ Reader.OpenForm name' ((lead ++ declarationText name).drop k) := by
  intro hform
  obtain ⟨init, c, hdrop, hc⟩ := hlead.last hk
  rw [List.drop_append_of_le_length (Nat.le_of_lt hk), hdrop, List.append_assoc] at hform
  obtain ⟨hname, hname'⟩ := Text.word_of_isIdentifier hname
  have hwords : Text.words (declarationText name) = [("const" : Text), name, "="] := by
    have hparts : declarationText name =
        ("const" : Text) ++ ([' '] ++ (name ++ ([' '] ++ "= "))) := rfl
    rw [hparts, Text.words_append_gap (by decide) (by decide), Text.words_append_gap (by decide) (by decide),
      Text.words_of_solid (Text.all_solid_of_word hname) hname']
    rfl
  have hchars := hform.chars
  have hcount := hform.words_le
  obtain ⟨first, rest, hfirst, hfirst'⟩ := hform.first
  rcases hc with rfl | rfl
  · rw [Text.words_append_gap (by decide) (by decide), hwords, List.length_append] at hcount
    have hnone : Text.words init = [] := List.eq_nil_of_length_eq_zero (by simpa using hcount)
    cases init with
    | nil =>
      obtain ⟨rfl, -⟩ := List.cons_eq_cons.mp hfirst
      exact absurd hfirst' (by decide)
    | cons d later =>
      obtain ⟨rfl, -⟩ := List.cons_eq_cons.mp hfirst
      have hsolid : Text.isBlank d = false := by
        by_contra hblank
        rw [Text.isNameChar_of_isBlank (by simpa using hblank)] at hfirst'
        cases hfirst'
      exact Text.words_ne_nil hsolid _ hnone
  · have hsemicolon := List.all_eq_true.mp hchars ';' (by simp)
    exact absurd hsemicolon (by decide)

/-- The first declaration of a plain name that is open at the end is the one after the lead. -/
theorem EndsStatement.head?_openDeclaration {name : Text} (hname : Text.isIdentifier name) :
    ∃ found, (Text.findAll Text.outsideMember Reader.openDeclaration
        (lead ++ declarationText name)).head? = some found ∧
      found.start = lead.length ∧ found.value = name := by
  refine Text.head?_findAll (fun t value left h => ?_) (hlead.outsideMember _)
    (by rw [List.drop_left]; exact Reader.openDeclaration_const hname) fun found hfound => ?_
  · obtain ⟨rfl, hform⟩ := Reader.of_openDeclaration h
    obtain ⟨c, rest, rfl, -⟩ := hform.first
    exact Nat.succ_pos _
  · obtain ⟨left, -, hread, -⟩ := Text.mem_findAll hfound
    by_contra hearlier
    exact hlead.not_openForm hname (by omega) (Reader.of_openDeclaration hread).2

end Lead

/-! ## Patterns -/

/-- The word stands at the offset of the text, with no name character on either side. -/
def Text.WordAt (word t : Text) (k : Nat) : Prop :=
  word <+: t.drop k ∧ (Text.charBefore none t k).any Text.isNameChar = false ∧
    (t.drop (k + word.length)).head?.any Text.isNameChar = false

instance (word t : Text) (k : Nat) : Decidable (Text.WordAt word t k) :=
  inferInstanceAs (Decidable (_ ∧ _ ∧ _))

/-- The words that declare names. -/
def declaringWords : List Text := ["const", "let", "var", "function"]

/-- The words that declare variables declare names. -/
theorem declarationWords_subset {word : Text} (h : word ∈ declarationWords) : word ∈ declaringWords := by
  have hall : ∀ word ∈ declarationWords, word ∈ declaringWords := by decide
  exact hall word h

/-- The text is one balanced region from its first to its last character, of braces or of square
brackets. -/
structure IsBracketed (opener : Char) (target : Text) : Prop where
  opens : opener = '{' ∨ opener = '['
  region : (Scan.ofText target).IsRegion [opener] [patternCloser opener] 0 (target.length - 1)

/-- The text is one balanced region and holds no word in code that declares names. -/
structure IsPatternText (opener : Char) (target : Text) : Prop extends IsBracketed opener target where
  plain : ∀ word ∈ declaringWords, ∀ k < target.length, (Scan.ofText target).isCode k →
    ¬ Text.WordAt word target k

instance (opener : Char) (target : Text) : Decidable (IsPatternText opener target) :=
  decidable_of_iff
    (((opener = '{' ∨ opener = '[') ∧
      (Scan.ofText target).IsRegion [opener] [patternCloser opener] 0 (target.length - 1)) ∧
      ∀ word ∈ declaringWords, ∀ k < target.length, (Scan.ofText target).isCode k →
        ¬ Text.WordAt word target k)
    ⟨fun h => ⟨⟨h.1.1, h.1.2⟩, h.2⟩, fun h => ⟨⟨h.opens, h.region⟩, h.plain⟩⟩

namespace IsBracketed

variable {opener : Char} {target : Text}

/-- The closing bracket is not the opening one. -/
theorem step_closer (h : IsBracketed opener target) :
    Cell.delimiterStep [opener] [patternCloser opener] ⟨patternCloser opener, .code⟩ = -1 := by
  rcases h.opens with rfl | rfl
  · decide
  · decide

/-- The cells of a region: its two brackets in code, and balanced cells between them. -/
theorem cells (h : IsBracketed opener target) :
    ∃ inner, labelFrom .code target =
        ⟨opener, .code⟩ :: (inner ++ [⟨patternCloser opener, .code⟩]) ∧
      (∀ j ≤ inner.length, 0 ≤ surplus [opener] [patternCloser opener] (inner.take j)) ∧
      surplus [opener] [patternCloser opener] inner = 0 := by
  have hdelimiter {cell : Cell} {c : Char} (hcell : cell.isDelimiter [c]) : cell = ⟨c, .code⟩ := by
    obtain ⟨d, mode⟩ := cell
    simp only [Cell.isDelimiter, Cell.isCode, Bool.and_eq_true, beq_iff_eq, List.cons.injEq,
      and_true] at hcell
    rw [hcell.1, hcell.2]
  obtain ⟨first, hfirst, hopens⟩ := (Option.any_eq_true _ _).mp h.region.opens
  obtain ⟨last, hlast, hcloses⟩ := (Option.any_eq_true _ _).mp h.region.closes
  obtain rfl := hdelimiter hopens
  obtain rfl := hdelimiter hcloses
  have hordered := h.region.ordered
  have hlength : (labelFrom .code target).length = target.length := length_labelFrom .code target
  have hbalanced := h.region.balanced
  have hminimal := h.region.minimal
  simp only [Scan.ofText, List.drop_zero, Nat.sub_zero] at hfirst hlast hbalanced hminimal
  cases hcells : labelFrom .code target with
  | nil => simp [hcells] at hfirst
  | cons first rest =>
    rw [hcells] at hfirst hlast hbalanced hminimal hlength
    rw [List.length_cons] at hlength
    obtain rfl : first = ⟨opener, .code⟩ := by simpa using hfirst
    obtain ⟨inner, rfl⟩ : ∃ inner, rest = inner ++ [⟨patternCloser opener, .code⟩] := by
      rw [← List.getLast?_eq_some_iff, List.getLast?_eq_getElem?, ← hlast, ← hlength]
      rw [List.getElem?_cons, if_neg (by omega)]
      simp
    have hopener : Cell.delimiterStep [opener] [patternCloser opener] ⟨opener, .code⟩ = 1 := by
      simp [Cell.delimiterStep, Cell.isDelimiter, Cell.isCode]
    rw [List.length_append, List.length_singleton] at hlength
    refine ⟨inner, rfl, fun j hj => ?_, ?_⟩
    · have hopen := hminimal j (Nat.zero_le j) (by omega)
      rw [List.take_succ_cons, surplus_cons, hopener, List.take_append_of_le_length hj] at hopen
      omega
    · rw [List.take_of_length_le (by simp; omega), surplus_cons, hopener, surplus_append, surplus_cons,
        surplus_nil, h.step_closer] at hbalanced
      omega

/-- Balanced cells between two brackets make a region. -/
theorem of_cells {inner : List Cell} (hopens : opener = '{' ∨ opener = '[')
    (hcells : labelFrom .code target = ⟨opener, .code⟩ :: (inner ++ [⟨patternCloser opener, .code⟩]))
    (hopen : ∀ j ≤ inner.length, 0 ≤ surplus [opener] [patternCloser opener] (inner.take j))
    (hzero : surplus [opener] [patternCloser opener] inner = 0) : IsBracketed opener target := by
  have hlength : target.length - 1 = 0 + 1 + inner.length := by
    rw [← length_labelFrom .code target, hcells, List.length_cons, List.length_append, List.length_singleton]
    omega
  have hfirst : Cell.isDelimiter ⟨opener, .code⟩ [opener] := by simp [Cell.isDelimiter, Cell.isCode]
  have hlast : Cell.delimiterStep [opener] [patternCloser opener] ⟨patternCloser opener, .code⟩ = -1 := by
    rcases hopens with rfl | rfl
    · decide
    · decide
  have hdrop : (Scan.ofText target).cells.drop 0 =
      ⟨opener, .code⟩ :: (inner ++ ⟨patternCloser opener, .code⟩ :: []) := hcells
  refine ⟨hopens, ?_⟩
  rw [hlength]
  exact (Scan.balanced?_eq_some
    (Scan.balanced?_of_cells [opener] [patternCloser opener] hdrop hfirst hlast hopen hzero)).1

/-- A region ends with its closing bracket. -/
theorem last (h : IsBracketed opener target) : target.getLast? = some (patternCloser opener) := by
  obtain ⟨inner, hcells, -⟩ := h.cells
  rw [← map_char_labelFrom .code target, hcells, List.getLast?_map, ← List.cons_append,
    List.getLast?_concat]
  rfl

/-- A region starts with its opening bracket. -/
theorem first (h : IsBracketed opener target) : target = opener :: target.tail := by
  obtain ⟨inner, hcells, -⟩ := h.cells
  rw [← map_char_labelFrom .code target, hcells]
  rfl

/-- Read from code a region ends in code. -/
theorem after_eq (h : IsBracketed opener target) : Context.code.after target = .code := by
  obtain ⟨inner, hcells, -⟩ := h.cells
  have hlength : target.length = inner.length + 2 := by
    rw [← length_labelFrom .code target, hcells, List.length_cons, List.length_append,
      List.length_singleton]
  have hlast : (labelFrom .code target)[inner.length + 1]? = some ⟨patternCloser opener, .code⟩ := by
    rw [hcells, List.getElem?_cons_succ]
    exact List.getElem?_concat_length
  have hafter := after_take_succ_of_code hlast
  rwa [List.take_of_length_le (by omega)] at hafter

/-- The closing bracket may not stand in the declaration of a plain name. -/
theorem closer_chars (h : IsBracketed opener target) :
    Text.isNameChar (patternCloser opener) = false ∧
      isDeclarationChar (patternCloser opener) = false ∧ patternCloser opener ≠ '/' := by
  rcases h.opens with rfl | rfl
  · decide
  · decide

/-- A word that starts inside a region ends inside it. -/
theorem isPrefix_drop (h : IsBracketed opener target) {word rest : Text} {k : Nat}
    (hk : k < target.length) (hword : word.all Text.isNameChar)
    (hstarts : word <+: target.drop k ++ rest) : word <+: target.drop k := by
  rcases List.prefix_or_prefix_of_prefix hstarts (List.prefix_append _ rest) with hinside | hbeyond
  · exact hinside
  · -- otherwise the closing bracket belongs to the word
    have hmem : patternCloser opener ∈ target.drop k := by
      refine List.mem_of_getLast? ?_
      rw [List.getLast?_drop, if_neg (by omega), h.last]
    have hname := List.all_eq_true.mp hword _ (hbeyond.subset hmem)
    rw [h.closer_chars.1] at hname
    cases hname

end IsBracketed

/-- In the start of a pattern declaration name characters follow name characters only. -/
theorem Reader.PatternForm.isNameChar_pred {opener : Char} {taken : Text}
    (h : PatternForm opener taken) {k : Nat} (hk : taken[k + 1]?.any Text.isNameChar) :
    taken[k]?.any Text.isNameChar := by
  obtain ⟨word, gap, hmem, rfl, ⟨hgap, -⟩, hopener⟩ := h
  have hword := (word_of_mem_declarationWords hmem).1
  have hrest : ∀ c ∈ gap ++ [opener], Text.isNameChar c = false := by
    intro c hc
    rcases List.mem_append.mp hc with hblank | hbracket
    · exact Text.isNameChar_of_isBlank (List.all_eq_true.mp hgap c hblank)
    · obtain rfl := List.mem_singleton.mp hbracket
      rcases hopener with rfl | rfl
      · decide
      · decide
  rcases Nat.lt_or_ge (k + 1) word.length with hinside | hpast
  · rw [List.getElem?_append_left (by omega), List.getElem?_eq_getElem (by omega)]
    exact List.all_eq_true.mp hword _ (List.getElem_mem _)
  · rw [List.getElem?_append_right hpast] at hk
    obtain ⟨c, hc, hname⟩ := (Option.any_eq_true _ _).mp hk
    rw [hrest c (List.mem_of_getElem? hc)] at hname
    cases hname

/-- The start of a pattern declaration starts with a name character. -/
theorem Reader.PatternForm.first {opener : Char} {taken : Text} (h : PatternForm opener taken) :
    taken.head?.any Text.isNameChar := by
  obtain ⟨word, gap, hmem, rfl, -⟩ := h
  obtain ⟨hword, hne⟩ := word_of_mem_declarationWords hmem
  cases word with
  | nil => exact absurd rfl hne
  | cons c rest => exact List.all_eq_true.mp hword c (List.mem_cons_self ..)

/-- Reading the start of a pattern declaration takes at least one character. -/
theorem Reader.length_lt_of_patternDeclaration (t : Text) (value : Char) (left : Text)
    (h : patternDeclaration t = some (value, left)) : left.length < t.length := by
  obtain ⟨taken, rfl, hform⟩ := of_patternDeclaration h
  have hfirst := hform.first
  cases taken with
  | nil => cases hfirst
  | cons c rest =>
    rw [List.cons_append, List.length_cons, List.length_append]
    omega

section Search

variable {lead : Text}

/-- The last character of the lead is no name character. -/
theorem EndsStatement.last_not_name (hlead : EndsStatement lead) :
    lead.getLast?.any Text.isNameChar = false := by
  rcases hlead with rfl | hbreak | hsemicolon
  · rfl
  · rw [hbreak]
    decide
  · rw [hsemicolon]
    decide

/-- The start of a pattern declaration that starts in the lead ends in it if a name follows the lead. -/
theorem EndsStatement.stop_le_of_patternForm (hlead : EndsStatement lead) {value c : Char}
    (hc : Text.isNameChar c) {rest taken left : Text} {start : Nat} (hstart : start < lead.length)
    (hdrop : (lead ++ c :: rest).drop start = taken ++ left) (hform : Reader.PatternForm value taken) :
    start + taken.length ≤ lead.length := by
  by_contra hpast
  -- the text would hold the name character and the end of the lead before it
  obtain ⟨k, hk⟩ : ∃ k, lead.length = start + (k + 1) := ⟨lead.length - start - 1, by omega⟩
  have hchar (i : Nat) (hi : i < taken.length) : taken[i]? = (lead ++ c :: rest)[start + i]? := by
    rw [← List.getElem?_drop, hdrop, List.getElem?_append_left hi]
  have hletter : taken[k + 1]?.any Text.isNameChar := by
    rw [hchar (k + 1) (by omega), ← hk, List.getElem?_append_right (Nat.le_refl _), Nat.sub_self]
    exact hc
  have hlast := hform.isNameChar_pred hletter
  rw [hchar k (by omega), List.getElem?_append_left (by omega),
    show start + k = lead.length - 1 by omega, ← List.getLast?_eq_getElem?, hlead.last_not_name] at hlast
  cases hlast

/-- The declaration of a pattern after the lead is found there. -/
theorem EndsStatement.mem_findAll_pattern (hlead : EndsStatement lead) {opener : Char}
    (hopener : opener = '{' ∨ opener = '[') (rest : Text) :
    (⟨lead.length, lead.length + 7, opener⟩ : Text.Match Char) ∈
      Text.findAll Text.outsideMember Reader.patternDeclaration
        (lead ++ (("const " : Text) ++ opener :: rest)) := by
  have hread : Reader.patternDeclaration
      ((lead ++ (("const " : Text) ++ opener :: rest)).drop lead.length) = some (opener, rest) := by
    rw [List.drop_left]
    exact Reader.patternDeclaration_const hopener rest
  have hfound := Text.mem_findAll_of_read Reader.length_lt_of_patternDeclaration (hlead.outsideMember _)
    hread fun found hmem hearlier => by
      obtain ⟨taken, left, hdrop, hstop, hform⟩ := Text.exists_form_of_mem_findAll Reader.PatternForm
        (fun _ _ _ => Reader.of_patternDeclaration) hmem
      exact hstop ▸ hlead.stop_le_of_patternForm (by decide : Text.isNameChar 'c') hearlier hdrop hform
  rw [List.drop_left, List.length_append, List.length_cons, ← Nat.add_assoc, Nat.add_right_comm,
    Nat.add_sub_cancel] at hfound
  exact hfound

end Search

/-- Where a search may start, no name goes on. -/
theorem Text.not_name_of_outsideMember {before : Option Char} (h : Text.outsideMember before) :
    before.any Text.isNameChar = false := by
  cases before with
  | none => rfl
  | some c =>
    simp only [Text.outsideMember, Option.any_some, Bool.not_eq_true', Bool.or_eq_false_iff] at h
    exact h.2

/-- In a pattern no declaration starts in code. -/
theorem IsPatternText.not_code {opener value : Char} {target taken left : Text}
    (h : IsPatternText opener target) {j : Nat} (hj : j < target.length)
    (hbefore : (Text.charBefore none target j).any Text.isNameChar = false)
    (hdrop : target.drop j ++ " = " = taken ++ left) (hform : Reader.PatternForm value taken) :
    (Scan.ofText target).isCode j = false := by
  obtain ⟨word, gap, hmem, rfl, ⟨hgap, hne⟩, -⟩ := hform
  rw [List.append_assoc] at hdrop
  obtain ⟨more, hmore⟩ : word <+: target.drop j :=
    h.isPrefix_drop hj (word_of_mem_declarationWords hmem).1 ⟨_, hdrop.symm⟩
  have hafter : more.head?.any Text.isNameChar = false := by
    rw [← hmore, List.append_assoc, List.append_cancel_left_eq] at hdrop
    cases more with
    | nil => rfl
    | cons c more =>
      cases gap with
      | nil => exact absurd rfl hne
      | cons b gap =>
        obtain ⟨rfl, -⟩ := List.cons_eq_cons.mp hdrop
        exact Text.isNameChar_of_isBlank (List.all_eq_true.mp hgap c (List.mem_cons_self ..))
  by_contra hcode
  refine h.plain word (declarationWords_subset hmem) j hj (by simpa using hcode) ⟨⟨more, hmore⟩, hbefore, ?_⟩
  rwa [← List.drop_drop, ← hmore, List.drop_left]

/-- Past its first letter the declaration of a pattern holds no other that starts in code. -/
theorem IsPatternText.not_code_of_patternForm {opener value : Char} {target taken left : Text}
    (h : IsPatternText opener target) {k : Nat}
    (hadmits : Text.outsideMember (declarationText target)[k]?)
    (hdrop : (declarationText target).drop (k + 1) = taken ++ left)
    (hform : Reader.PatternForm value taken) :
    ∃ j < target.length, k = 5 + j ∧ (Scan.ofText target).isCode j = false := by
  have hletters : ∀ k < 5, Text.outsideMember ("const " : Text)[k]? = false := by decide
  have hk : 5 ≤ k := by
    by_contra hlt
    have hshort : k < ("const " : Text).length := Nat.lt_trans (Nat.lt_of_not_le hlt) (by decide)
    rw [declarationText, List.getElem?_append_left hshort, hletters k (Nat.lt_of_not_le hlt)] at hadmits
    cases hadmits
  obtain ⟨j, rfl⟩ := Nat.exists_eq_add_of_le hk
  have hrest : (target ++ (" = " : Text)).drop j = taken ++ left := by
    rw [← hdrop, declarationText, show 5 + j + 1 = ("const " : Text).length + j from Nat.add_right_comm 5 j 1,
      List.drop_length_add_append]
  rcases Nat.lt_or_ge j target.length with hj | hpast
  · refine ⟨j, hj, rfl, h.not_code hj ?_ (by rw [← hrest, List.drop_append_of_le_length (Nat.le_of_lt hj)]) hform⟩
    cases j with
    | zero => rfl
    | succ j =>
      have hbefore := Text.not_name_of_outsideMember hadmits
      rwa [declarationText, show 5 + (j + 1) = ("const " : Text).length + j from Nat.add_right_comm 5 j 1,
        List.getElem?_append_right (Nat.le_add_right _ _), Nat.add_sub_cancel_left,
        List.getElem?_append_left (by omega)] at hbefore
  · -- the equals sign and the blanks around it start no word
    obtain ⟨c, hc, hname⟩ := (Option.any_eq_true _ _).mp hform.first
    rw [List.drop_append, List.drop_eq_nil_of_le hpast, List.nil_append] at hrest
    have hmem : c ∈ (" = " : Text) :=
      List.mem_of_mem_drop (hrest ▸ List.mem_append_left left (List.mem_of_head? hc))
    rw [not_name_of_mem_equals hmem] at hname
    cases hname

/-! ## The declaration of a call -/

/-- What a declaration may assign to: a plain name or a pattern. -/
inductive IsTarget : Declaration → Prop
  | name {target : Text} (h : Text.isIdentifier target) : IsTarget ⟨target, false⟩
  | pattern {opener : Char} {target : Text} (h : IsPatternText opener target) : IsTarget ⟨target, true⟩

/-- A pattern opens with one of two brackets, and what is none is a name. -/
theorem isTarget_iff (declaration : Declaration) :
    IsTarget declaration ↔
      if declaration.isPattern then
        IsPatternText '{' declaration.target ∨ IsPatternText '[' declaration.target
      else Text.isIdentifier declaration.target := by
  constructor
  · intro h
    cases h with
    | name hname => simpa using hname
    | pattern hpattern =>
      rcases hpattern.opens with rfl | rfl
      · exact .inl hpattern
      · exact .inr hpattern
  · obtain ⟨target, isPattern⟩ := declaration
    cases isPattern with
    | false => exact fun h => .name (by simpa using h)
    | true => exact fun h => h.elim .pattern .pattern

instance (declaration : Declaration) : Decidable (IsTarget declaration) :=
  decidable_of_iff' _ (isTarget_iff declaration)

/-- The lead ends with no slash. -/
theorem EndsStatement.not_slashMeets {lead : Text} (h : EndsStatement lead) (rest : Text) :
    ¬ SlashMeets (labelFrom .code lead) rest := by
  refine not_slashMeets_of_last ?_ rest
  rcases h with rfl | hbreak | hsemicolon
  · simp
  · simp [hbreak]
  · simp [hsemicolon]

/-- A region ends with no slash. -/
theorem IsBracketed.not_slashMeets {opener : Char} {target : Text} (h : IsBracketed opener target)
    (rest : Text) : ¬ SlashMeets (labelFrom .code target) rest := by
  refine not_slashMeets_of_last ?_ rest
  rw [h.last]
  simpa using h.closer_chars.2.2

/-- The characters of a name are plain. -/
theorem all_isPlain_of_isIdentifier {name : Text} (h : Text.isIdentifier name) : name.all isPlain :=
  all_isPlain_of_inert (all_isInert_of_isIdentifier h)

/-- Read from code a target ends in code, and not with a slash. -/
theorem IsTarget.reads {declaration : Declaration} (h : IsTarget declaration) :
    Context.code.after declaration.target = .code ∧
      ∀ rest, ¬ SlashMeets (labelFrom .code declaration.target) rest := by
  cases h with
  | name hname =>
    have hplain := all_isPlain_of_isIdentifier hname
    have hafter := (labelFrom_plain hplain []).2
    rw [List.append_nil, Context.after_nil] at hafter
    refine ⟨hafter, not_slashMeets_of_last fun hlast => ?_⟩
    exact absurd (List.all_eq_true.mp hplain '/' (List.mem_of_getLast? hlast)) (by decide)
  | pattern hpattern => exact ⟨hpattern.after_eq, hpattern.not_slashMeets⟩

/-- What stands before the value of a declaration ends in code. -/
theorem IsTarget.after_declarationText {declaration : Declaration} (h : IsTarget declaration)
    {lead : Text} (hlead : EndsStatement lead) (hcode : Context.code.after lead = .code) :
    Context.code.after (lead ++ declarationText declaration.target) = .code := by
  obtain ⟨hafter, hslash⟩ := h.reads
  rw [(labelFrom_append hcode (hlead.not_slashMeets _)).2, declarationText,
    (labelFrom_plain (by decide) _).2, (labelFrom_append hafter (hslash _)).2]
  decide

/-- The declaration after the lead starts in code. -/
theorem isCode_declaration {lead : Text} (hlead : EndsStatement lead)
    (hcode : Context.code.after lead = .code) (target rest : Text) :
    (Scan.ofText (lead ++ (declarationText target ++ rest))).isCode lead.length := by
  have hstart := Scan.isCode_append_right hcode (hlead.not_slashMeets (declarationText target ++ rest)) 0
  have hletter : Context.step .code 'c' (("onst " : Text) ++ (target ++ " = ") ++ rest).head? =
      (.code, 1) := step_of_isPlain (by decide) _
  have hcells := labelFrom_single hletter
  rw [Nat.add_zero] at hstart
  rw [hstart, Scan.isCode, Scan.ofText]
  exact (congrArg (fun cells : List Cell => cells[0]?.any Cell.isCode) hcells).trans rfl

section Script

variable {opener : Char} {lead target : Text} (h : IsBracketed opener target)
  (hlead : EndsStatement lead) (hcode : Context.code.after lead = .code) (rest : Text)

include h

/-- No declaration of a plain name ends with the declaration of a pattern. -/
theorem IsBracketed.findAll_openDeclaration (lead : Text) :
    Text.findAll Text.outsideMember Reader.openDeclaration (lead ++ declarationText target) = [] := by
  refine List.eq_nil_iff_forall_not_mem.mpr fun found hfound => ?_
  obtain ⟨left, -, hread, -⟩ := Text.mem_findAll hfound
  obtain ⟨-, hform⟩ := Reader.of_openDeclaration hread
  obtain ⟨init, hinit⟩ := List.getLast?_eq_some_iff.mp h.last
  have htext : lead ++ declarationText target =
      (lead ++ (("const " : Text) ++ init)) ++ patternCloser opener :: " = " := by
    rw [declarationText, hinit]
    simp
  rw [htext] at hform
  rcases Nat.lt_or_ge (lead ++ (("const " : Text) ++ init)).length found.start with hpast | hwithin
  · -- it would start after the closing bracket, with a name character
    obtain ⟨c, more, hmore, hname⟩ := hform.first
    have hmem : c ∈ (" = " : Text) := by
      obtain ⟨k, hk⟩ := Nat.exists_eq_add_of_le hpast
      rw [hk, Nat.succ_add_eq_add_succ, List.drop_length_add_append, List.drop_succ_cons] at hmore
      exact List.mem_of_mem_drop (hmore ▸ List.mem_cons_self ..)
    rw [not_name_of_mem_equals hmem] at hname
    cases hname
  · -- it would hold the closing bracket
    have hchars := hform.chars
    rw [List.drop_append_of_le_length hwithin] at hchars
    have hcloser := List.all_eq_true.mp hchars (patternCloser opener) (by simp)
    rw [h.closer_chars.2.1] at hcloser
    cases hcloser

include hlead hcode

/-- Offsets in the target are code in the script when they are in the target alone. -/
theorem IsBracketed.isCode_target {j : Nat} (hj : j < target.length) :
    (Scan.ofText (lead ++ (declarationText target ++ rest))).isCode (lead.length + (6 + j)) =
      (Scan.ofText target).isCode j := by
  have hparts : declarationText target ++ rest = ("const " : Text) ++ (target ++ (" = " ++ rest)) := by
    simp only [declarationText, List.append_assoc]
  have hconst : (Scan.ofText (("const " : Text) ++ (target ++ (" = " ++ rest)))).isCode (6 + j) =
      (Scan.ofText (target ++ (" = " ++ rest))).isCode j :=
    Scan.isCode_append_right (by decide) (not_slashMeets_of_last (by decide) _) j
  rw [hparts, Scan.isCode_append_right hcode (hlead.not_slashMeets _), hconst,
    Scan.isCode_append_left h.after_eq (h.not_slashMeets _) hj]

/-- The region of a pattern is found in the script. -/
theorem IsBracketed.balanced?_target :
    (Scan.ofText (lead ++ (declarationText target ++ rest))).balanced? (lead.length + 6 : Nat)
        [opener] [patternCloser opener] =
      some ⟨lead.length + 6, lead.length + 5 + target.length, target⟩ := by
  obtain ⟨inner, hinner, hopen, hzero⟩ := h.cells
  have hlength : target.length = inner.length + 2 := by
    rw [← length_labelFrom .code target, hinner, List.length_cons, List.length_append,
      List.length_singleton]
  have hdrop : (lead ++ (declarationText target ++ rest)).drop (lead.length + 6) =
      target ++ (" = " ++ rest) := by
    rw [List.drop_length_add_append, declarationText, List.append_assoc, List.append_assoc]
    rfl
  have hfirst : (Scan.ofText (lead ++ (declarationText target ++ rest))).isCode (lead.length + 6) := by
    rw [h.isCode_target hlead hcode rest (j := 0) (by omega), Scan.isCode, Scan.ofText, hinner]
    rfl
  have hcells : (Scan.ofText (lead ++ (declarationText target ++ rest))).cells.drop (lead.length + 6) =
      ⟨opener, .code⟩ :: (inner ++ ⟨patternCloser opener, .code⟩ ::
        labelFrom .code ((" = " : Text) ++ rest)) := by
    rw [Scan.drop_cells hfirst, hdrop, (labelFrom_append h.after_eq (h.not_slashMeets _)).1, hinner,
      List.cons_append, List.append_assoc, List.singleton_append]
  have hopener : Cell.isDelimiter ⟨opener, .code⟩ [opener] := by simp [Cell.isDelimiter, Cell.isCode]
  rw [Scan.balanced?_of_cells [opener] [patternCloser opener] hcells hopener h.step_closer hopen hzero,
    Scan.text_ofText, hdrop, ← hlength, List.take_left]
  congr 2
  omega

end Script

/-- The last pattern declared in code before the value is the target. -/
theorem IsPatternText.getLast?_patternDeclaration {opener : Char} {lead target : Text}
    (h : IsPatternText opener target) (hlead : EndsStatement lead) (hcode : Context.code.after lead = .code)
    (rest : Text) :
    ((Text.findAll Text.outsideMember Reader.patternDeclaration (lead ++ declarationText target)).filter
        fun found => (Scan.ofText (lead ++ (declarationText target ++ rest))).isCode found.start).getLast? =
      some ⟨lead.length, lead.length + 7, opener⟩ := by
  have hfound := hlead.mem_findAll_pattern h.opens (target.tail ++ " = ")
  have htext : ("const " : Text) ++ opener :: (target.tail ++ " = ") = declarationText target := by
    rw [declarationText, ← List.cons_append, ← h.first]
  rw [htext] at hfound
  refine Text.getLast?_of_greatest ?_ (List.mem_filter.mpr ⟨hfound, ?_⟩) fun other hother => ?_
  · exact ((Text.pairwise_findAll _).filter _).imp fun hab => hab.1
  · exact isCode_declaration hlead hcode target rest
  · -- a later one would start in the target, and not in code
    obtain ⟨hother, hother'⟩ := List.mem_filter.mp hother
    obtain ⟨left, -, hread, -⟩ := Text.mem_findAll hother
    obtain ⟨taken, hdrop, hform⟩ := Reader.of_patternDeclaration hread
    by_contra hlater
    obtain ⟨k, hk⟩ : ∃ k, other.start = lead.length + (k + 1) :=
      ⟨other.start - lead.length - 1, by simp only at hlater; omega⟩
    have hadmits := Text.admits_of_mem_findAll hother
    rw [hk, ← Nat.add_assoc, Text.charBefore, List.getElem?_append_right (Nat.le_add_right _ _),
      Nat.add_sub_cancel_left] at hadmits
    rw [hk, List.drop_length_add_append] at hdrop
    obtain ⟨j, hj, rfl, hnot⟩ := h.not_code_of_patternForm hadmits hdrop hform
    rw [hk, show 5 + j + 1 = 6 + j by omega, h.isCode_target hlead hcode rest hj, hnot] at hother'
    cases hother'

/-- What follows the target. -/
theorem drop_past_target (lead target rest : Text) :
    (lead ++ (declarationText target ++ rest)).drop (lead.length + 5 + target.length + 1) = " = " ++ rest := by
  have hparts : lead ++ (declarationText target ++ rest) =
      (lead ++ (("const " : Text) ++ target)) ++ (" = " ++ rest) := by
    simp only [declarationText, List.append_assoc]
  have hpast : (lead ++ (("const " : Text) ++ target)).length = lead.length + 5 + target.length + 1 := by
    rw [List.length_append, List.length_append, show List.length ("const " : Text) = 6 from rfl]
    omega
  rw [hparts, ← hpast, List.drop_left]

namespace Draft

variable {draft : Draft} {lead target rest : Text}

/-- What stands before the value. -/
theorem slice_before (hsource : draft.source = lead ++ (declarationText target ++ rest)) :
    draft.source.slice 0 (lead ++ declarationText target).length = lead ++ declarationText target := by
  have hslice := draft.source.slice_natCast 0 (lead ++ declarationText target).length
  rw [List.drop_zero, Nat.sub_zero] at hslice
  refine hslice.trans ?_
  rw [hsource, ← List.append_assoc, List.take_left]

/-- The pattern that the value is assigned to is found. -/
theorem patternBefore?_eq {opener : Char} (h : IsPatternText opener target) (hlead : EndsStatement lead)
    (hcode : Context.code.after lead = .code) (hscan : draft.scan = Scan.ofText draft.source)
    (hsource : draft.source = lead ++ (declarationText target ++ rest)) :
    draft.patternBefore? (lead ++ declarationText target).length = some ⟨target, true⟩ := by
  have hlast := h.getLast?_patternDeclaration hlead hcode rest
  have hregion := h.balanced?_target hlead hcode rest
  rw [← hsource, ← hscan] at hlast hregion
  have hlength : (lead ++ declarationText target).length = lead.length + 5 + target.length + 1 + 3 := by
    rw [List.length_append, length_declarationText]
    omega
  have hequals : draft.source.slice (lead.length + 5 + target.length + 1 : Nat)
      (lead ++ declarationText target).length = " = " := by
    rw [Text.slice_natCast, hlength, Nat.add_sub_cancel_left, hsource, drop_past_target]
    rfl
  have hread : (do Reader.assignment; Reader.atEnd : Reader Unit) (" = " : Text) = some ((), []) := rfl
  have hstop : ¬ ((lead ++ declarationText target).length : Int) ≤ (lead.length + 5 + target.length : Nat) := by
    omega
  rw [patternBefore?, slice_before hsource, hlast]
  simp only [Option.bind_eq_bind, Option.bind_some, Nat.add_succ_sub_one, hregion, hstop, if_false]
  rw [← Int.natCast_succ, hequals, hread]
  rfl

/-- The declaration right before a value is the one that is written there. -/
theorem declarationBefore?_eq {declaration : Declaration} (h : IsTarget declaration)
    (hlead : EndsStatement lead) (hcode : Context.code.after lead = .code)
    (hscan : draft.scan = Scan.ofText draft.source)
    (hsource : draft.source = lead ++ (declarationText declaration.target ++ rest)) :
    draft.declarationBefore? (lead ++ declarationText declaration.target).length = some declaration := by
  rw [declarationBefore?, slice_before hsource]
  cases h with
  | name hname =>
    obtain ⟨found, hfound, hstart, hvalue⟩ := hlead.head?_openDeclaration hname
    rw [hfound]
    simp only [hstart, hvalue, hscan, hsource, isCode_declaration hlead hcode, if_true]
  | pattern hpattern =>
    rw [hpattern.findAll_openDeclaration, List.head?_nil]
    exact patternBefore?_eq hpattern hlead hcode hscan hsource

end Draft

end SetupScript
