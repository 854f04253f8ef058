import Mathlib.Data.List.Forall2
import Mathlib.Data.List.Infix
import SetupScript.Component.EsModule
import SetupScript.Proofs.ImportForms
import SetupScript.Proofs.TextLines

/-!
# Replacing one form after the other

Every form of import and export starts with its keyword, and what comes next after white space tells the
forms of one keyword apart. A stretch of text in which no keyword stands before white space or an opening
parenthesis is calm: no form is read there, so it stays as it is whatever comes after it.

Where each line of a text is turned into another one by a form, whatever lines follow, replacing the form
in the whole text replaces it line by line. The same then holds of all forms together.
-/

namespace SetupScript

/-! ## Replacing along a text -/

namespace Text

variable {reader : Reader Text}

/-- The characters that a match has used are passed over. -/
theorem replaceFrom_past (reader : Reader Text) (a b : Text) :
    replaceFrom reader a.length (a ++ b) = replaceAll reader b := by
  induction a with
  | nil => rfl
  | cons c rest ih => exact ih

/-- A match is replaced by what the reader gives. -/
theorem replaceAll_read {taken rest value : Text} (htaken : taken ≠ [])
    (h : reader (taken ++ rest) = some (value, rest)) :
    replaceAll reader (taken ++ rest) = value ++ replaceAll reader rest := by
  obtain ⟨c, more, rfl⟩ := List.exists_cons_of_ne_nil htaken
  rw [List.cons_append] at h ⊢
  have hwidth : (c :: (more ++ rest)).length - rest.length - 1 = more.length := by
    rw [List.length_cons, List.length_append]
    omega
  rw [replaceAll, replaceFrom, h]
  dsimp only
  rw [hwidth, replaceFrom_past]

/-- A character at which the reader refuses stays. -/
theorem replaceAll_refused {c : Char} {rest : Text} (h : reader (c :: rest) = none) :
    replaceAll reader (c :: rest) = c :: replaceAll reader rest := by
  rw [replaceAll, replaceFrom, h]
  rfl

/-- A stretch stays in which the reader refuses everywhere. -/
theorem replaceAll_append_of_refused {a b : Text}
    (h : ∀ s, s ≠ [] → s <:+ a → reader (s ++ b) = none) :
    replaceAll reader (a ++ b) = a ++ replaceAll reader b := by
  induction a with
  | nil => rfl
  | cons c rest ih =>
    have hhere : reader (c :: (rest ++ b)) = none := h (c :: rest) (by simp) List.suffix_rfl
    rw [List.cons_append, replaceAll_refused hhere,
      ih fun s hne hs => h s hne (hs.trans (List.suffix_cons c rest))]
    rfl

end Text

namespace EsModule

variable {α β : Type} {word word' : Text} {next : Char → Bool}

/-! ## What the forms start with -/

/-- What the form takes starts with the word and, after white space, with a character of the class. If
there is no white space, this is an opening parenthesis. -/
def Leads (word : Text) (next : Char → Bool) (form : Reader α) : Prop :=
  ∀ t read, form t = some read → ∃ gap c rest, t = word ++ (gap ++ c :: rest) ∧
    gap.all Text.isBlank ∧ Text.isBlank c = false ∧ next c ∧ (gap = [] → c = '(')

/-- A form refuses where another word stands, or another character comes next. -/
theorem Leads.refused {form : Reader α} (h : Leads word next form) (hlength : word.length = word'.length) {gap : Text}
    {c : Char} (hgap : gap.all Text.isBlank) (hc : Text.isBlank c = false)
    (hnot : word = word' → next c = false) (rest : Text) : form (word' ++ (gap ++ c :: rest)) = none := by
  refine Option.eq_none_iff_forall_ne_some.mpr fun read hread => ?_
  obtain ⟨gap', c', rest', htext, hgap', hc', hnext, -⟩ := h _ read hread
  obtain ⟨hword, htail⟩ := List.append_inj htext hlength.symm
  obtain ⟨-, rfl⟩ := Text.cut_unique hgap hgap' hc hc' htail
  rw [hnot hword.symm] at hnext
  cases hnext

/-- A form goes on with a character of a larger class. -/
theorem Leads.mono {form : Reader α} {next' : Char → Bool} (h : Leads word next form)
    (hclass : ∀ c, next c → next' c) : Leads word next' form := by
  intro t read hread
  obtain ⟨gap, c, rest, htext, hgap, hc, hnext, hparen⟩ := h t read hread
  exact ⟨gap, c, rest, htext, hgap, hc, hclass c hnext, hparen⟩

/-- What is read afterwards does not matter. -/
theorem Leads.bind {first : Reader α} {second : α → Reader β} (h : Leads word next first) :
    Leads word next (first >>= second) := by
  rintro t ⟨value, left⟩ hread
  obtain ⟨a, middle, hfirst, -⟩ := Reader.bind_eq_some.mp hread
  exact h t _ hfirst

/-- The word `export` and the gap after it. -/
theorem exportWord_eq_some {t left : Text} {u : Unit} :
    exportWord t = some (u, left) ↔
      ∃ gap, t = ("export" : Text) ++ (gap ++ left) ∧ Reader.IsGap gap left := by
  simp only [exportWord, Reader.bind_eq_some, Reader.literal_eq_some, Reader.blanks1_eq_some,
    Reader.many1_eq_some, Reader.IsGap]
  constructor
  · rintro ⟨_, middle, rfl, gap, rfl, hall, hne, hhead⟩
    exact ⟨gap, rfl, hall, hne, hhead⟩
  · rintro ⟨gap, rfl, hall, hne, hhead⟩
    exact ⟨(), gap ++ left, rfl, gap, rfl, hall, hne, hhead⟩

/-- A form that goes on with a character of the class after a word and a gap. -/
theorem leads_of_word {first : Reader Unit} {second : Unit → Reader α}
    (hfirst : ∀ {t left : Text} {u : Unit}, first t = some (u, left) →
      ∃ gap, t = word ++ (gap ++ left) ∧ Reader.IsGap gap left)
    (hsecond : ∀ {t : Text} {u : Unit} {read : α × Text}, second u t = some read →
      ∃ c rest, t = c :: rest ∧ next c) :
    Leads word next (first >>= second) := by
  rintro t ⟨value, left⟩ hread
  obtain ⟨u, middle, hword, hrest⟩ := Reader.bind_eq_some.mp hread
  obtain ⟨gap, rfl, hgap, hne, hhead⟩ := hfirst hword
  obtain ⟨c, rest, rfl, hc⟩ := hsecond hrest
  exact ⟨gap, c, rest, rfl, hgap, by simpa using hhead, hc, fun h => absurd h hne⟩

theorem leads_dynamicImport (settings : Settings) :
    Leads "import" (· == '(') (dynamicImport settings) := by
  rintro t ⟨value, left⟩ hread
  simp only [dynamicImport, Reader.bind_eq_some, Reader.literal_eq_some, Reader.blanks_eq_some] at hread
  obtain ⟨_, _, rfl, _, _, ⟨gap, rfl, hgap, -⟩, _, rest, rfl, -⟩ := hread
  exact ⟨gap, '(', rest, rfl, hgap, by decide, rfl, fun _ => rfl⟩

theorem leads_namedImport : Leads "import" (· == '{') namedImport := by
  refine Leads.bind (leads_of_word Reader.importWord_eq_some.mp fun {t u read} hread => ?_)
  obtain ⟨_, middle, hbrace, -⟩ := Reader.bind_eq_some.mp hread
  exact ⟨'{', _, Reader.literal_eq_some.mp hbrace, rfl⟩

theorem leads_defaultImport (settings : Settings) :
    Leads "import" Text.isNameChar (defaultImport settings) := by
  refine Leads.bind (leads_of_word Reader.importWord_eq_some.mp fun {t u read} hread => ?_)
  obtain ⟨name, middle, hmany, -⟩ := Reader.bind_eq_some.mp hread
  obtain ⟨rfl, hname, hne, -⟩ := Reader.many1_eq_some.mp hmany
  obtain ⟨c, rest, rfl⟩ := List.exists_cons_of_ne_nil hne
  rw [List.all_cons, Bool.and_eq_true] at hname
  exact ⟨c, _, rfl, hname.1⟩

theorem leads_bareImport : Leads "import" isPathQuote bareImport := by
  refine leads_of_word Reader.importWord_eq_some.mp fun {t u read} hread => ?_
  obtain ⟨path, middle, hpath, -⟩ := Reader.bind_eq_some.mp hread
  obtain ⟨q, q', rfl, hq, -⟩ := Reader.quotedPath_eq_some.mp hpath
  exact ⟨q, _, rfl, hq⟩

theorem leads_exportDefault : Leads "export" (· == 'd') exportDefault := by
  refine leads_of_word exportWord_eq_some.mp fun {t u read} hread => ?_
  obtain ⟨_, middle, hword, -⟩ := Reader.bind_eq_some.mp hread
  exact ⟨'d', _, Reader.literal_eq_some.mp hword, rfl⟩

theorem leads_exportDeclaration :
    Leads "export" (fun c => c == 'c' || c == 'l' || c == 'v') exportDeclaration := by
  refine leads_of_word exportWord_eq_some.mp fun {t u read} hread => ?_
  obtain ⟨word, middle, hword, -⟩ := Reader.bind_eq_some.mp hread
  obtain ⟨hmem, rfl⟩ := Reader.oneOf_eq_some hword
  simp only [List.mem_cons, List.not_mem_nil, or_false] at hmem
  rcases hmem with rfl | rfl | rfl
  · exact ⟨'c', _, rfl, rfl⟩
  · exact ⟨'l', _, rfl, rfl⟩
  · exact ⟨'v', _, rfl, rfl⟩

theorem leads_exportFunction : Leads "export" (· == 'f') exportFunction := by
  refine leads_of_word exportWord_eq_some.mp fun {t u read} hread => ?_
  obtain ⟨_, middle, hword, -⟩ := Reader.bind_eq_some.mp hread
  exact ⟨'f', _, Reader.literal_eq_some.mp hword, rfl⟩

theorem leads_exportList : Leads "export" (· == '{') exportList := by
  refine leads_of_word exportWord_eq_some.mp fun {t u read} hread => ?_
  obtain ⟨_, middle, hbrace, -⟩ := Reader.bind_eq_some.mp hread
  exact ⟨'{', _, Reader.literal_eq_some.mp hbrace, rfl⟩

/-- The two words that a form may start with. -/
def keywords : List Text := ["import", "export"]

/-- The place among the forms of the one that goes on with the character after the keyword. -/
def formIndex (word : Text) (c : Char) : Nat :=
  if word = "import" then
    if c == '(' then 0 else if c == '{' then 1 else if isPathQuote c then 3 else 2
  else if c == 'd' then 4 else if c == 'f' then 6 else if c == '{' then 7 else 5

/-- The keyword and the character after it tell the forms apart. -/
theorem leads_form {settings : Settings} {i : Nat} {form : Reader Text} (h : (forms settings)[i]? = some form) :
    ∃ word ∈ keywords, Leads word (formIndex word · == i) form := by
  have himport : ("import" : Text) ∈ keywords := List.mem_cons_self
  have hexport : ("export" : Text) ∈ keywords := List.mem_cons_of_mem _ (List.mem_singleton_self _)
  have hmark {d : Char} {word : Text} {j : Nat} (hd : formIndex word d = j) (c : Char) (hc : c == d) :
      formIndex word c == j := by
    rw [beq_iff_eq.mp hc, hd]
    exact beq_self_eq_true j
  have hforms : ∀ entry ∈ (forms settings).zipIdx,
      ∃ word ∈ keywords, Leads word (formIndex word · == entry.2) entry.1 := by
    simp only [forms, List.zipIdx_cons, List.zipIdx_nil, List.forall_mem_cons, List.not_mem_nil, false_implies,
      implies_true, and_true, Nat.reduceAdd]
    refine ⟨⟨_, himport, (leads_dynamicImport settings).mono (hmark rfl)⟩,
      ⟨_, himport, leads_namedImport.mono (hmark rfl)⟩,
      ⟨_, himport, (leads_defaultImport settings).mono fun c hc => ?_⟩,
      ⟨_, himport, leads_bareImport.mono fun c hc => ?_⟩,
      ⟨_, hexport, leads_exportDefault.mono (hmark rfl)⟩,
      ⟨_, hexport, leads_exportDeclaration.mono fun c hc => ?_⟩,
      ⟨_, hexport, leads_exportFunction.mono (hmark rfl)⟩, ⟨_, hexport, leads_exportList.mono (hmark rfl)⟩⟩
    · have hparen : (c == '(') = false := beq_eq_false_iff_ne.mpr (by rintro rfl; exact absurd hc (by decide))
      have hbrace : (c == '{') = false := beq_eq_false_iff_ne.mpr (by rintro rfl; exact absurd hc (by decide))
      simp [formIndex, hparen, hbrace, isPathQuote_of_isNameChar c hc]
    · rcases isPathQuote_cases hc with rfl | rfl
      · rfl
      · rfl
    · simp only [Bool.or_eq_true, beq_iff_eq] at hc
      rcases hc with (rfl | rfl) | rfl
      · rfl
      · rfl
      · rfl
  exact hforms (form, i) (List.mk_mem_zipIdx_iff_getElem?.mpr h)

/-- No two forms are read at the same place. -/
theorem refused_of_read {settings : Settings} {i j : Nat} {form other : Reader Text}
    (hform : (forms settings)[i]? = some form) (hother : (forms settings)[j]? = some other) (hne : i ≠ j)
    {t : Text} {read : Text × Text} (hread : form t = some read) : other t = none := by
  obtain ⟨word, hword, hleads⟩ := leads_form hform
  obtain ⟨word', hword', hleads'⟩ := leads_form hother
  obtain ⟨gap, c, rest, rfl, hgap, hc, hindex, -⟩ := hleads t read hread
  have hlengths : ∀ word ∈ keywords, word.length = 6 := by decide
  refine hleads'.refused ((hlengths word' hword').trans (hlengths word hword).symm) hgap hc ?_ rest
  rintro rfl
  rw [beq_iff_eq.mp hindex]
  exact beq_eq_false_iff_ne.mpr hne

/-! ## Calm stretches -/

/-- The text starts with a keyword that white space or an opening parenthesis follows. -/
def Opens (t : Text) : Prop :=
  ∃ word ∈ keywords, ∃ c rest, t = word ++ c :: rest ∧ (Text.isBlank c ∨ c = '(')

/-- What a form takes starts with a keyword. -/
theorem Leads.opens {form : Reader α} (h : Leads word next form) (hword : word ∈ keywords) {t : Text}
    {read : α × Text} (hread : form t = some read) : Opens t := by
  obtain ⟨gap, c, rest, rfl, hgap, -, -, hparen⟩ := h t read hread
  cases gap with
  | nil => exact ⟨word, hword, c, rest, rfl, .inr (hparen rfl)⟩
  | cons d more =>
    rw [List.all_cons, Bool.and_eq_true] at hgap
    exact ⟨word, hword, d, more ++ c :: rest, rfl, .inl hgap.1⟩

/-- All forms start with a keyword. -/
theorem opens_of_mem_forms {settings : Settings} {form : Reader Text} (hform : form ∈ forms settings)
    {t : Text} {read : Text × Text} (hread : form t = some read) : Opens t := by
  obtain ⟨i, hi⟩ := List.getElem?_of_mem hform
  obtain ⟨word, hword, hleads⟩ := leads_form hi
  exact hleads.opens hword hread

/-- No form can be read inside the first text when the second one follows. -/
def Calm (a b : Text) : Prop := ∀ s, s ≠ [] → s <:+ a → ¬ Opens (s ++ b)

/-- A calm stretch stays as it is. -/
theorem Calm.replaceAll {settings : Settings} {form : Reader Text} {a b : Text} (h : Calm a b)
    (hform : form ∈ forms settings) : Text.replaceAll form (a ++ b) = a ++ Text.replaceAll form b :=
  Text.replaceAll_append_of_refused fun s hne hs =>
    Option.eq_none_iff_forall_ne_some.mpr fun _ hread => h s hne hs (opens_of_mem_forms hform hread)

/-- Stretches are calm one after the other. -/
theorem Calm.append {a b c : Text} (ha : Calm a (b ++ c)) (hb : Calm b c) : Calm (a ++ b) c := by
  intro s hne hs
  rcases List.suffix_or_suffix_of_suffix hs (List.suffix_append a b) with hs' | ⟨s', rfl⟩
  · exact hb s hne hs'
  · cases s' with
    | nil => exact hb b hne List.suffix_rfl
    | cons d more =>
      rw [List.append_assoc]
      exact ha (d :: more) (by simp) (List.suffix_append_self_iff.mp hs)

/-- A character of a keyword. -/
def isKeywordChar (c : Char) : Bool := keywords.any (·.contains c)

/-- A character of a keyword that is not its first one. -/
def isInnerChar (c : Char) : Bool := keywords.any (·.tail.contains c)

/-- Where a keyword is cut in two, both sides of the cut are characters of it. -/
theorem chars_of_cut_keyword (hword : word ∈ keywords) {s more : Text} {d : Char} (hne : s ≠ [])
    (h : word = s ++ d :: more) : s.getLast?.any isKeywordChar ∧ isInnerChar d := by
  constructor
  · rw [List.getLast?_eq_some_getLast hne, Option.any_some]
    refine List.any_eq_true.mpr ⟨word, hword, List.elem_iff.mpr ?_⟩
    rw [h]
    exact List.mem_append_left _ (List.getLast_mem hne)
  · obtain ⟨c, rest, rfl⟩ := List.exists_cons_of_ne_nil hne
    refine List.any_eq_true.mpr ⟨word, hword, List.elem_iff.mpr ?_⟩
    rw [h, List.cons_append, List.tail_cons]
    exact List.mem_append_right _ List.mem_cons_self

/-- A keyword that starts inside a stretch ends inside it, or runs over its end. -/
theorem keyword_of_opens {s b : Text} (hne : s ≠ []) (h : Opens (s ++ b)) :
    (∃ word ∈ keywords, ∃ more c rest, s = word ++ more ∧ more ++ b = c :: rest ∧
      (Text.isBlank c ∨ c = '(')) ∨
    s.getLast?.any isKeywordChar ∧ b.head?.any isInnerChar := by
  obtain ⟨word, hword, c, rest, htext, hc⟩ := h
  rcases List.append_eq_append_iff.mp htext with ⟨more, hs, hrest⟩ | ⟨more, hs, hrest⟩
  · cases more with
    | nil => exact .inl ⟨word, hword, [], c, rest, by simpa using hs.symm, by simpa using hrest, hc⟩
    | cons d more =>
      obtain ⟨hlast, hd⟩ := chars_of_cut_keyword hword hne hs
      exact .inr ⟨hlast, by rw [hrest]; exact hd⟩
  · exact .inl ⟨word, hword, more, c, rest, hs, hrest.symm, hc⟩

/-- A text ends like each of its ends. -/
theorem getLast?_of_suffix {s a : Text} (hne : s ≠ []) (hs : s <:+ a) : a.getLast? = s.getLast? := by
  obtain ⟨front, rfl⟩ := hs
  rw [List.getLast?_append, List.getLast?_eq_some_getLast hne]
  rfl

/-- Neither keyword is a part of the text. -/
def KeywordFree (t : Text) : Prop := ∀ word ∈ keywords, ¬ word <:+: t

instance (t : Text) : Decidable (KeywordFree t) :=
  inferInstanceAs (Decidable (∀ word ∈ keywords, ¬ word <:+: t))

/-- No keyword is made by two texts of which the first does not end, or the second does not start, like
a part of one. -/
theorem KeywordFree.append {a b : Text} (ha : KeywordFree a) (hb : KeywordFree b)
    (hedge : a.getLast?.any isKeywordChar = false ∨ b.head?.any isInnerChar = false) :
    KeywordFree (a ++ b) := by
  intro word hword hpart
  obtain ⟨t, ⟨more, rfl⟩, ht⟩ := List.infix_iff_prefix_suffix.mp hpart
  rcases List.suffix_or_suffix_of_suffix ht (List.suffix_append a b) with hend | ⟨s, hs⟩
  · exact hb word hword ((List.prefix_append word more).isInfix.trans hend.isInfix)
  · rw [← hs] at ht
    have hsuffix := List.suffix_append_self_iff.mp ht
    rcases List.append_eq_append_iff.mp hs with ⟨rest, hcut, hrest⟩ | ⟨rest, rfl, -⟩
    · by_cases hne : s = []
      · rw [hne, List.nil_append] at hcut
        rw [hcut] at hword
        exact hb rest hword (hrest ▸ (List.prefix_append rest more).isInfix)
      · cases rest with
        | nil =>
          rw [List.append_nil] at hcut
          exact ha word hword (hcut ▸ hsuffix.isInfix)
        | cons d rest =>
          obtain ⟨hlast, hd⟩ := chars_of_cut_keyword hword hne hcut
          rw [← getLast?_of_suffix hne hsuffix] at hlast
          rcases hedge with hedge | hedge
          · rw [hedge] at hlast
            cases hlast
          · rw [hrest, List.cons_append, List.head?_cons, Option.any_some, hd] at hedge
            cases hedge
    · exact ha word hword ((List.prefix_append word rest).isInfix.trans hsuffix.isInfix)

/-- Joining texts without keywords makes none, if no keyword can start or end in the separator. -/
theorem keywordFree_joinWith {sep : Text} (hsep : KeywordFree sep) (hne : sep ≠ [])
    (hlast : sep.getLast?.any isKeywordChar = false) (hhead : sep.head?.any isInnerChar = false)
    {pieces : List Text} (h : ∀ piece ∈ pieces, KeywordFree piece) :
    KeywordFree (Text.joinWith sep pieces) := by
  induction pieces with
  | nil => exact (by decide : KeywordFree [])
  | cons piece rest ih =>
    obtain ⟨hpiece, hrest⟩ := List.forall_mem_cons.mp h
    cases rest with
    | nil => rwa [Text.joinWith_singleton]
    | cons next rest =>
      rw [Text.joinWith_cons_cons]
      refine hpiece.append (hsep.append (ih hrest) (.inl hlast)) (.inr ?_)
      rwa [Reader.head?_append_of_ne_nil hne]

/-- A text without characters of keywords holds no keyword. -/
theorem keywordFree_of_class {p : Char → Bool} (hp : ∀ c, p c → isKeywordChar c = false) {t : Text}
    (h : t.all p) : KeywordFree t := by
  intro word hword hpart
  have hne : word ≠ [] := by
    rintro rfl
    exact absurd hword (by decide)
  have hmem := List.head_mem hne
  have hchar : isKeywordChar (word.head hne) :=
    List.any_eq_true.mpr ⟨word, hword, List.elem_iff.mpr hmem⟩
  rw [hp _ (List.all_eq_true.mp h _ (hpart.subset hmem))] at hchar
  cases hchar

/-- Keywords are words. -/
theorem isNameChar_of_isKeywordChar {c : Char} (h : isKeywordChar c) : Text.isNameChar c := by
  obtain ⟨word, hword, hmem⟩ := List.any_eq_true.mp h
  have hwords : ∀ word ∈ keywords, word.all Text.isNameChar := by decide
  exact List.all_eq_true.mp (hwords word hword) c (List.elem_iff.mp hmem)

/-- What is inside a keyword is a character of it. -/
theorem isKeywordChar_of_isInnerChar {c : Char} (h : isInnerChar c) : isKeywordChar c := by
  obtain ⟨word, hword, hmem⟩ := List.any_eq_true.mp h
  exact List.any_eq_true.mpr
    ⟨word, hword, List.elem_iff.mpr (List.mem_of_mem_tail (List.elem_iff.mp hmem))⟩

/-- A character that is in no name is in no keyword. -/
theorem isKeywordChar_of_not_name {c : Char} (h : Text.isNameChar c = false) : isKeywordChar c = false := by
  by_contra hkeyword
  rw [isNameChar_of_isKeywordChar (Bool.not_eq_false _ ▸ hkeyword)] at h
  cases h

/-- A character that is in no keyword is not inside one. -/
theorem isInnerChar_of_not_keyword {c : Char} (h : isKeywordChar c = false) : isInnerChar c = false := by
  by_contra hinner
  rw [isKeywordChar_of_isInnerChar (Bool.not_eq_false _ ▸ hinner)] at h
  cases h

/-- A stretch without keywords is calm, if none runs over its end. -/
theorem KeywordFree.calm {a b : Text} (h : KeywordFree a)
    (hedge : a.getLast?.any isKeywordChar = false ∨ b.head?.any isInnerChar = false) : Calm a b := by
  intro s hne hs hopens
  rcases keyword_of_opens hne hopens with ⟨word, hword, more, c, rest, rfl, -, -⟩ | ⟨hlast, hhead⟩
  · exact h word hword ((List.prefix_append word more).isInfix.trans hs.isInfix)
  · rw [← getLast?_of_suffix hne hs] at hlast
    rcases hedge with hedge | hedge
    · rw [hedge] at hlast
      cases hlast
    · rw [hedge] at hhead
      cases hhead

/-- A character that opens no form after a keyword. -/
def isSolid (c : Char) : Bool := !Text.isBlank c && c != '('

/-- A stretch without white space and opening parentheses is calm, whatever keywords it holds, if none
stands right before such a character or runs over its end. -/
theorem calm_of_solid {a b : Text} (h : a.all isSolid)
    (hedge : a.getLast?.any isKeywordChar = false ∨
      b.head?.any (fun c => isInnerChar c || !isSolid c) = false) : Calm a b := by
  intro s hne hs hopens
  have hopensNot {c : Char} (hc : Text.isBlank c ∨ c = '(') : isSolid c = false := by
    rcases hc with hc | rfl
    · rw [isSolid, hc]
      rfl
    · rfl
  rcases keyword_of_opens hne hopens with ⟨word, hword, more, c, rest, rfl, hrest, hc⟩ | ⟨hlast, hhead⟩
  · cases more with
    | nil =>
      rw [List.append_nil] at hne hs
      rw [List.nil_append] at hrest
      rcases hedge with hedge | hedge
      · rw [getLast?_of_suffix hne hs, List.getLast?_eq_some_getLast hne, Option.any_some] at hedge
        have hmem : isKeywordChar (word.getLast hne) :=
          List.any_eq_true.mpr ⟨word, hword, List.elem_iff.mpr (List.getLast_mem hne)⟩
        rw [hedge] at hmem
        cases hmem
      · simp [hrest, hopensNot hc] at hedge
    | cons d more =>
      obtain ⟨rfl, -⟩ := List.cons.inj hrest
      have hsolid := List.all_eq_true.mp h d (hs.subset (by simp))
      rw [hopensNot hc] at hsolid
      cases hsolid
  · rw [← getLast?_of_suffix hne hs] at hlast
    rcases hedge with hedge | hedge
    · rw [hedge] at hlast
      cases hlast
    · cases hb : b.head? with
      | none => simp [hb] at hhead
      | some c =>
        rw [hb] at hhead hedge
        rw [Option.any_some] at hhead
        simp [hhead] at hedge

/-- A stretch is still if it is calm whatever follows it. -/
def Still (a : Text) : Prop := ∀ b, Calm a b

/-- Still stretches make a still one. -/
theorem Still.append {a b : Text} (ha : Still a) (hb : Still b) : Still (a ++ b) :=
  fun c => (ha (b ++ c)).append (hb c)

/-- A stretch without keywords is still if no keyword can run over its end. -/
theorem KeywordFree.still {a : Text} (h : KeywordFree a) (hlast : a.getLast?.any isKeywordChar = false) :
    Still a :=
  fun _ => h.calm (.inl hlast)

/-- A stretch without keywords is calm before a character that is not inside one. -/
theorem KeywordFree.calm_of_head {a b : Text} (h : KeywordFree a) (hhead : b.head?.any (!isInnerChar ·)) :
    Calm a b := by
  refine h.calm (.inr ?_)
  cases b with
  | nil => cases hhead
  | cons c rest => simpa using hhead

/-- A stretch without keywords is still together with a still one that no keyword runs into. -/
theorem KeywordFree.still_append {a b : Text} (ha : KeywordFree a) (hb : Still b)
    (hhead : b.head?.any (!isInnerChar ·)) : Still (a ++ b) := by
  intro c
  refine (ha.calm_of_head ?_).append (hb c)
  cases b with
  | nil => cases hhead
  | cons d rest => exact hhead

/-- A solid stretch is still if no keyword can run over its end. -/
theorem still_of_solid {a : Text} (h : a.all isSolid) (hlast : a.getLast?.any isKeywordChar = false) :
    Still a :=
  fun _ => calm_of_solid h (.inl hlast)

/-! ## Line by line -/

/-- A line or a text ends here. -/
def EndsLine (rest : Text) : Prop := rest.head?.all (· == '\n')

/-- Replacing the form turns one line into the other, whatever lines follow. -/
def Turns (form : Reader Text) (line line' : Text) : Prop :=
  ∀ rest, EndsLine rest → Text.replaceAll form (line ++ rest) = line' ++ Text.replaceAll form rest

/-- Replacing the forms one after the other turns one line into the other, whatever lines follow. -/
def TurnsAll : List (Reader Text) → Text → Text → Prop
  | [], line, line' => line = line'
  | form :: later, line, line' => ∃ middle, Turns form line middle ∧ TurnsAll later middle line'

/-- A line that is calm before the next one is kept by all forms. -/
theorem turnsAll_of_calm {settings : Settings} {line : Text} (h : ∀ rest, EndsLine rest → Calm line rest)
    {later : List (Reader Text)} (hlater : later ⊆ forms settings) : TurnsAll later line line := by
  induction later with
  | nil => rfl
  | cons form later ih =>
    obtain ⟨hform, hmore⟩ := List.cons_subset.mp hlater
    exact ⟨line, fun rest hrest => (h rest hrest).replaceAll hform, ih hmore⟩

/-- The forms before one of them keep the line, that one turns it, and those after it keep the result. -/
theorem turnsAll_of_form {before later : List (Reader Text)} {form : Reader Text} {line line' : Text}
    (hkept : ∀ other ∈ before, Turns other line line) (hturned : Turns form line line')
    (hlater : TurnsAll later line' line') : TurnsAll (before ++ form :: later) line line' := by
  induction before with
  | nil => exact ⟨line', hturned, hlater⟩
  | cons other before ih =>
    obtain ⟨hother, hmore⟩ := List.forall_mem_cons.mp hkept
    exact ⟨line, hother, ih hmore⟩

/-- A form is replaced line by line. -/
theorem replaceAll_joinWith {settings : Settings} {form : Reader Text} (hform : form ∈ forms settings)
    {lines lines' : List Text} (h : List.Forall₂ (Turns form) lines lines') :
    Text.replaceAll form (Text.joinWith "\n" lines) = Text.joinWith "\n" lines' := by
  induction h with
  | nil => rfl
  | @cons line line' lines lines' hline hlines ih =>
    cases hlines with
    | nil =>
      have hlast := hline [] rfl
      rw [List.append_nil] at hlast
      simpa [Text.joinWith, Text.replaceAll, Text.replaceFrom] using hlast
    | @cons next next' more more' hnext hmore =>
      have hbreak (t : Text) : Calm "\n" t := KeywordFree.calm (by decide) (.inl (by decide))
      have hfirst := hline (("\n" : Text) ++ Text.joinWith "\n" (next :: more)) rfl
      rw [(hbreak _).replaceAll hform, ih] at hfirst
      rw [Text.joinWith_cons_cons, Text.joinWith_cons_cons]
      exact hfirst

/-- The lines that the first of the forms leaves. -/
theorem exists_middle_lines {form : Reader Text} {later : List (Reader Text)} {lines lines' : List Text}
    (h : List.Forall₂ (TurnsAll (form :: later)) lines lines') :
    ∃ middles, List.Forall₂ (Turns form) lines middles ∧ List.Forall₂ (TurnsAll later) middles lines' := by
  induction h with
  | nil => exact ⟨[], .nil, .nil⟩
  | cons hline hlines ih =>
    obtain ⟨middle, hturns, hturnsAll⟩ := hline
    obtain ⟨middles, hfirst, hrest⟩ := ih
    exact ⟨middle :: middles, .cons hturns hfirst, .cons hturnsAll hrest⟩

/-- All forms together are replaced line by line. -/
theorem toRequire_joinWith {settings : Settings} {lines lines' : List Text}
    (h : List.Forall₂ (TurnsAll (forms settings)) lines lines') :
    toRequire settings (Text.joinWith "\n" lines) = Text.joinWith "\n" lines' := by
  -- the induction is on the forms that are left, over the lines that those before them leave
  suffices hrun : ∀ left ⊆ forms settings, ∀ lines, List.Forall₂ (TurnsAll left) lines lines' →
      left.foldl (fun current form => Text.replaceAll form current) (Text.joinWith "\n" lines) =
        Text.joinWith "\n" lines' from hrun (forms settings) (List.Subset.refl _) lines h
  intro left
  induction left with
  | nil =>
    intro _ lines hlines
    have hsame : lines = lines' := (congrFun (congrFun List.forall₂_eq_eq_eq lines) lines').mp hlines
    rw [hsame]
    rfl
  | cons form later ih =>
    intro hleft lines hlines
    obtain ⟨hform, hlater⟩ := List.cons_subset.mp hleft
    obtain ⟨middles, hfirst, hrest⟩ := exists_middle_lines hlines
    rw [List.foldl_cons, replaceAll_joinWith hform hfirst]
    exact ih hlater middles hrest

end EsModule

end SetupScript
