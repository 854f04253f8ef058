import SetupScript.Proofs.ModuleStatements

/-!
# Modules rewritten line by line

A line of a module holds one import or export statement, with other text before and after it, or no
statement at all. Past its first character no form is read in a statement, nor in what it becomes. So the
forms that are replaced before that of the statement keep the line, that one turns it, and those after it
keep the result: rewriting a text rewrites each of its lines.
-/

namespace SetupScript.EsModule

/-! ## Calm parts -/

/-- White space holds no character of a keyword. -/
theorem isKeywordChar_of_isBlank {c : Char} (h : Text.isBlank c) : isKeywordChar c = false :=
  isKeywordChar_of_not_name (Text.isNameChar_of_isBlank h)

theorem Blanks.free (g : Blanks) : KeywordFree g.text :=
  keywordFree_of_class (fun _ => isKeywordChar_of_isBlank) g.blank

/-- No keyword starts in white space. -/
theorem Blanks.getLast?_keyword (g : Blanks) : g.text.getLast?.any isKeywordChar = false := by
  cases hlast : g.text.getLast? with
  | none => rfl
  | some c => exact isKeywordChar_of_isBlank (List.all_eq_true.mp g.blank c (List.mem_of_getLast? hlast))

theorem Blanks.still (g : Blanks) : Still g.text := g.free.still g.getLast?_keyword

/-- No keyword runs into white space. -/
theorem Blanks.head?_inner (g : Blanks) : g.text.head?.any isInnerChar = false := by
  cases hhead : g.text.head? with
  | none => rfl
  | some c =>
    have hblank := List.all_eq_true.mp g.blank c (List.mem_of_head? hhead)
    exact isInnerChar_of_not_keyword (isKeywordChar_of_isBlank hblank)

/-- Quotes are solid and in no keyword. -/
theorem solid_of_isPathQuote {c : Char} (h : isPathQuote c) : isSolid c ∧ isKeywordChar c = false := by
  rcases isPathQuote_cases h with rfl | rfl
  · decide
  · decide

/-- A solid text between quotes is still. -/
theorem still_quoted {quote : Char} (hquote : isPathQuote quote) {t : Text} (h : t.all isSolid) :
    Still (quote :: (t ++ [quote])) := by
  obtain ⟨hsolid, hchar⟩ := solid_of_isPathQuote hquote
  refine still_of_solid ?_ ?_
  · rw [List.all_cons, List.all_append, h, List.all_cons, hsolid]
    rfl
  · rw [List.getLast?_cons, List.getLast?_concat]
    exact hchar

theorem QuotedPath.solid (path : QuotedPath) : path.text.all isSolid :=
  List.all_eq_true.mpr fun c hc =>
    (Bool.and_eq_true_iff.mp (List.all_eq_true.mp path.plain c hc)).2

theorem QuotedPath.still (path : QuotedPath) : Still path.quoted := still_quoted path.isQuote path.solid

/-- A solid path is still as a string literal. -/
theorem still_literalPath {t : Text} (h : t.all isSolid) : Still (literalPath t) :=
  still_quoted (by decide : isPathQuote '\x22') h

/-- The name of a component file is a part of its path. -/
theorem componentName_subset (settings : Settings) (path : Text) : componentName settings path ⊆ path := by
  have hfile : (path.reverse.takeWhile (· != '/')).reverse ⊆ path := by
    intro c hc
    exact List.mem_reverse.mp ((List.takeWhile_sublist _).subset (List.mem_reverse.mp hc))
  unfold componentName
  dsimp only
  split
  · exact List.nil_subset _
  · exact List.Subset.trans (List.take_subset ..) hfile

/-- A list of items without keywords holds none. -/
theorem keywordFree_listText {α : Type} {text : α → Text} (hfree : ∀ item, KeywordFree (text item))
    (items : List (Padded α)) : KeywordFree (listText text items) := by
  refine keywordFree_joinWith (by decide) (by decide) (by decide) (by decide) fun piece hpiece => ?_
  obtain ⟨padded, -, rfl⟩ := List.mem_map.mp hpiece
  exact (padded.before.free.append (hfree padded.item) (.inl padded.before.getLast?_keyword)).append
    padded.after.free (.inr padded.after.head?_inner)

theorem ImportItem.free (item : ImportItem) : KeywordFree item.text := by
  cases item with
  | plain name => exact name.free
  | renamed external before after inner =>
    have hinner : KeywordFree (after.text ++ inner.text) :=
      after.free.append inner.free (.inl after.getLast?_keyword)
    have has : KeywordFree (("as" : Text) ++ (after.text ++ inner.text)) :=
      KeywordFree.append (by decide) hinner (.inl (by decide))
    have hbefore := before.free.append has (.inl before.getLast?_keyword)
    refine external.free.append hbefore (.inr ?_)
    rw [Reader.head?_append_of_ne_nil before.nonempty]
    exact before.head?_inner

/-! ## What is left of a statement -/

namespace Head

/-- No keyword runs into white space and what stands after it. -/
theorem head?_blanks (g : Blanks) {t : Text} (h : t.head?.any (!isInnerChar ·)) :
    (g.text ++ t).head?.any (!isInnerChar ·) := by
  have hhead := g.head?_inner
  cases htext : g.text with
  | nil => exact h
  | cons c rest =>
    rw [htext] at hhead
    simpa using hhead

theorem head?_gap (g : Gap) (t : Text) : (g.text ++ t).head?.any (!isInnerChar ·) := by
  have hhead := g.head?_inner
  obtain ⟨c, rest, htext⟩ := List.exists_cons_of_ne_nil g.nonempty
  rw [htext] at hhead ⊢
  simpa using hhead

/-- A text without keywords, a gap and what is still are still together. -/
theorem still_gap {a t : Text} (ha : KeywordFree a) (g : Gap) (ht : Still t) : Still (a ++ (g.text ++ t)) :=
  ha.still_append (g.still.append ht) (head?_gap g t)

/-- What stands between names and a path is still. -/
theorem still_from (g₂ g₃ : Gap) (path : QuotedPath) :
    Still (g₂.text ++ (("from" : Text) ++ (g₃.text ++ path.quoted))) :=
  g₂.still.append (still_gap (by decide) g₃ path.still)

/-- A list in braces is still. -/
theorem still_braces {α : Type} {text : α → Text} (hfree : ∀ item, KeywordFree (text item))
    (items : List (Padded α)) {t : Text} (ht : Still t) :
    Still (("\x7b" : Text) ++ (listText text items ++ (("\x7d" : Text) ++ t))) := by
  have hopen : Still ("\x7b" : Text) := KeywordFree.still (by decide) (by decide)
  have hclose : Still ("\x7d" : Text) := KeywordFree.still (by decide) (by decide)
  exact hopen.append ((keywordFree_listText hfree items).still_append (hclose.append ht) rfl)

/-- No keyword runs from a name into what ends it. -/
theorem calm_name (name : PlainName) {t : Text} (h : t.head?.any Text.isNameChar = false) : Calm name.text t := by
  refine name.free.calm (.inr ?_)
  cases hhead : t.head? with
  | none => rfl
  | some c =>
    rw [hhead] at h
    exact isInnerChar_of_not_keyword (isKeywordChar_of_not_name h)

variable {settings : Settings} {after : Text}

/-- No form is read inside the clause of a statement. -/
theorem calm_clause (head : Head) (h : head.fits after) : Calm head.clause after := by
  have hmark {t : Text} (hfree : KeywordFree t) (hlast : t.getLast?.any isKeywordChar = false) : Still t :=
    hfree.still hlast
  have hnil : Still [] := hmark (by decide) rfl
  cases head with
  | dynamicImport g₁ g₂ path g₃ =>
    exact g₁.still.append ((hmark (by decide) (by decide)).append (g₂.still.append (path.still.append
      (g₃.still.append (hmark (by decide) (by decide)))))) after
  | namedImport g₁ first more g₂ g₃ path =>
    exact g₁.still.append (still_braces ImportItem.free _ (still_from g₂ g₃ path)) after
  | defaultImport g₁ name g₂ g₃ path =>
    exact g₁.still.append (still_gap name.free g₂ (still_gap (by decide) g₃ path.still)) after
  | bareImport g₁ path => exact g₁.still.append path.still after
  | exportDefault g₁ g₂ =>
    have hdefault := still_gap (a := "default") (by decide) g₂ hnil
    rw [List.append_nil] at hdefault
    exact g₁.still.append hdefault after
  | exportDeclaration g₁ word declares g₂ name g₃ =>
    have hfree : ∀ word ∈ [("const" : Text), "let", "var"], KeywordFree word := by decide
    have hname : Still (name.text ++ (g₃.text ++ ("=" : Text))) :=
      name.free.still_append (g₃.still.append (hmark (by decide) (by decide))) (head?_blanks g₃ rfl)
    exact g₁.still.append (still_gap (hfree word declares) g₂ hname) after
  | exportFunction g₁ g₂ name =>
    have hfunction := still_gap (a := "function") (by decide) g₂ hnil
    rw [List.append_nil] at hfunction
    have hname : Calm name.text after := calm_name name (by simpa [fits] using h)
    have hall := (g₁.still.append hfunction (name.text ++ after)).append hname
    rwa [List.append_assoc, List.append_assoc] at hall
  | exportList g₁ first more =>
    have hbraces : Still (("\x7b" : Text) ++ (listText (·.text : PlainName → Text) (first :: more) ++
        (("\x7d" : Text) ++ []))) := still_braces (fun name => name.free) (first :: more) hnil
    exact g₁.still.append hbraces after

/-- The keyword ends where the clause starts. -/
theorem head?_clause (head : Head) (t : Text) : (head.clause ++ t).head?.any (!isInnerChar ·) := by
  have hgap (g : Gap) (rest : Text) : (g.text ++ rest ++ t).head?.any (!isInnerChar ·) := by
    rw [List.append_assoc]
    exact head?_gap g _
  cases head with
  | dynamicImport g₁ g₂ path g₃ =>
    unfold clause
    rw [List.append_assoc]
    exact head?_blanks g₁ rfl
  | namedImport g₁ first more g₂ g₃ path => exact hgap g₁ _
  | defaultImport g₁ name g₂ g₃ path => exact hgap g₁ _
  | bareImport g₁ path => exact hgap g₁ _
  | exportDefault g₁ g₂ => exact hgap g₁ _
  | exportDeclaration g₁ word declares g₂ name g₃ => exact hgap g₁ _
  | exportFunction g₁ g₂ name => exact hgap g₁ _
  | exportList g₁ first more => exact hgap g₁ _

/-- No form is read in a statement past its first character. -/
theorem calm_tail (head : Head) (h : head.fits after) :
    ∃ c rest, head.text = c :: rest ∧ Calm rest after := by
  have hword : ∃ c rest, head.keyword = c :: rest ∧ KeywordFree rest := by
    cases head with
    | dynamicImport | namedImport | defaultImport | bareImport => exact ⟨'i', ("mport" : Text), rfl, by decide⟩
    | exportDefault | exportDeclaration | exportFunction | exportList =>
      exact ⟨'e', ("xport" : Text), rfl, by decide⟩
  obtain ⟨c, rest, hkeyword, hfree⟩ := hword
  refine ⟨c, rest ++ head.clause, by rw [text, hkeyword, List.cons_append], ?_⟩
  exact (hfree.calm_of_head (head?_clause head after)).append (calm_clause head h)

/-- The assignment target of exports is no export statement. -/
theorem still_moduleExports : Still ("module.exports" : Text) := still_of_solid (by decide) (by decide)

/-- A path in the parentheses of a call is still. -/
theorem still_pathArgument {path : Text} (h : path.all isSolid) : Still (literalPath path ++ (")" : Text)) :=
  (still_literalPath h).append (KeywordFree.still (by decide) (by decide))

/-- The names of a destructuring pattern hold no keyword. -/
theorem keywordFree_targets (items : List (Padded ImportItem)) :
    KeywordFree (Text.joinWith ", " (items.map (·.item.target))) := by
  refine keywordFree_joinWith (by decide) (by decide) (by decide) (by decide) fun target htarget => ?_
  obtain ⟨padded, -, rfl⟩ := List.mem_map.mp htarget
  cases padded.item with
  | plain name => exact name.free
  | renamed external before after inner =>
    have hcolon : KeywordFree ((": " : Text) ++ inner.text) :=
      KeywordFree.append (by decide) inner.free (.inl (by decide))
    rw [ImportItem.target, List.append_assoc]
    exact external.free.append hcolon (.inr rfl)

/-- No form is read in what a statement becomes, the assignments of an export list apart. -/
theorem calm_replacement (head : Head) (hloader : KeywordFree settings.runtimeLoader) (hrank : head.rank < 7)
    (h : head.fits after) : Calm (head.replacement settings) after := by
  have hmark {t : Text} (hfree : KeywordFree t) (hlast : t.getLast?.any isKeywordChar = false) : Still t :=
    hfree.still hlast
  cases head with
  | dynamicImport g₁ g₂ path g₃ =>
    unfold replacement
    simp only [List.append_assoc]
    split
    · have hname : (componentName settings path.text).all isSolid :=
        List.all_eq_true.mpr fun c hc => List.all_eq_true.mp path.solid c (componentName_subset settings _ hc)
      have hcall := (hmark (t := ".loadComponent(") (by decide) (by decide)).append
        ((still_literalPath path.solid).append ((hmark (t := ", ") (by decide) (by decide)).append
          ((still_literalPath hname).append (hmark (t := ")()") (by decide) (by decide)))))
      exact hloader.still_append hcall rfl after
    · have hcall := (hmark (t := ".loadModule(") (by decide) (by decide)).append (still_pathArgument path.solid)
      exact hloader.still_append hcall rfl after
  | namedImport g₁ first more g₂ g₃ path =>
    unfold replacement
    simp only [List.append_assoc]
    have hcall := (hmark (t := "\x7d = require(") (by decide) (by decide)).append (still_pathArgument path.solid)
    have hnames := (keywordFree_targets (first :: more)).still_append hcall rfl
    exact (hmark (t := "const \x7b") (by decide) (by decide)).append hnames after
  | defaultImport g₁ name g₂ g₃ path =>
    unfold replacement
    simp only [List.append_assoc]
    have hloads : KeywordFree (if isComponentPath settings path.text then settings.runtimeLoader else "require") := by
      split
      · exact hloader
      · decide
    have hcall := hloads.still_append
      ((hmark (t := "(") (by decide) (by decide)).append (still_pathArgument path.solid)) rfl
    have hname := name.free.still_append ((hmark (t := " = ") (by decide) (by decide)).append hcall) rfl
    exact (hmark (t := "const ") (by decide) (by decide)).append hname after
  | bareImport g₁ path =>
    unfold replacement
    simp only [List.append_assoc]
    exact (hmark (t := "require(") (by decide) (by decide)).append (still_pathArgument path.solid) after
  | exportDefault g₁ g₂ =>
    exact still_moduleExports.append (hmark (t := " = ") (by decide) (by decide)) after
  | exportDeclaration g₁ word declares g₂ name g₃ =>
    unfold replacement
    simp only [List.append_assoc]
    have hfree : ∀ word ∈ [("const" : Text), "let", "var"], KeywordFree word := by decide
    have htarget := still_moduleExports.append ((hmark (t := ".") (by decide) (by decide)).append
      (name.free.still_append (hmark (t := " =") (by decide) (by decide)) rfl))
    have hname := name.free.still_append ((hmark (t := " = ") (by decide) (by decide)).append htarget) rfl
    exact (hfree word declares).still_append ((hmark (t := " ") (by decide) (by decide)).append hname)
      rfl after
  | exportFunction g₁ g₂ name =>
    unfold replacement
    simp only [List.append_assoc]
    have hname : Calm name.text after := calm_name name (by simpa [fits] using h)
    have hassigned := name.free.still_append (hmark (t := " = function ") (by decide) (by decide)) rfl
    have hfront := still_moduleExports.append ((hmark (t := ".") (by decide) (by decide)).append hassigned)
    have hall := (hfront (name.text ++ after)).append hname
    simp only [List.append_assoc] at hall
    exact hall
  | exportList g₁ first more => exact absurd hrank (Nat.lt_irrefl 7)

/-- A statement that ends on its line ends there whatever lines follow. -/
theorem fits_append (head : Head) {rest : Text} (h : head.fits after) (hrest : EndsLine rest) :
    head.fits (after ++ rest) := by
  cases after with
  | cons c more =>
    -- only the first character matters
    cases head with
    | _ => exact h
  | nil =>
    cases head with
    | exportDefault => cases h
    | exportFunction =>
      cases rest with
      | nil => rfl
      | cons c more =>
        have hbreak : c = '\n' := by simpa [EndsLine] using hrest
        rw [hbreak]
        rfl
    | _ => rfl

end Head

/-! ## Lines -/

/-- A line of a module. -/
inductive Line where
  /-- A line without imports and exports. -/
  | other (phrase : Phrase)
  /-- A statement whose keyword is not the end of a longer word, with what stands before and after it. -/
  | statement (before : Phrase) (apart : before.text.getLast?.any Text.isNameChar = false) (head : Head)
      (after : Phrase) (ends : head.fits after.text)

namespace Line

/-- A line as it is written. -/
def text : Line → Text
  | other phrase => phrase.text
  | statement before _ head after _ => before.text ++ (head.text ++ after.text)

/-- A line with its statement rewritten. -/
def rewritten (settings : Settings) : Line → Text
  | other phrase => phrase.text
  | statement before _ head after _ => before.text ++ (head.replacement settings ++ after.text)

variable {settings : Settings}

/-- No keyword runs over the end of a line. -/
theorem calm_phrase (phrase : Phrase) {rest : Text} (h : EndsLine rest) : Calm phrase.text rest := by
  refine phrase.free.calm (.inr ?_)
  cases rest with
  | nil => rfl
  | cons c more =>
    have hbreak : c = '\n' := by simpa [EndsLine] using h
    rw [hbreak]
    rfl

/-- No keyword runs from a text that ends outside names into what follows. -/
theorem still_before (phrase : Phrase) (h : phrase.text.getLast?.any Text.isNameChar = false) :
    Still phrase.text := by
  refine phrase.free.still ?_
  cases hlast : phrase.text.getLast? with
  | none => rfl
  | some c =>
    rw [hlast] at h
    exact isKeywordChar_of_not_name h

variable (before after : Phrase) (head : Head)

/-- A form that is replaced before that of the statement keeps the line. -/
theorem turns_earlier (hbefore : Still before.text) (ends : head.fits after.text) {other : Reader Text}
    (hother : other ∈ (forms settings).take head.rank) :
    Turns other (before.text ++ (head.text ++ after.text)) (before.text ++ (head.text ++ after.text)) := by
  intro rest hrest
  have hform : other ∈ forms settings := List.mem_of_mem_take hother
  have hfits := head.fits_append ends hrest
  obtain ⟨c, tail, htext, htail⟩ := head.calm_tail hfits
  have hrefused := head.refused_text settings (after.text ++ rest) hfits hother
  rw [htext, List.cons_append] at hrefused
  rw [List.append_assoc, List.append_assoc, (hbefore _).replaceAll hform, htext, List.cons_append,
    Text.replaceAll_refused hrefused, htail.replaceAll hform, (calm_phrase after hrest).replaceAll hform]
  simp only [List.append_assoc, List.cons_append]

/-- The form of the statement replaces it. -/
theorem turns_form (hbefore : Still before.text) (ends : head.fits after.text) :
    Turns (head.form settings) (before.text ++ (head.text ++ after.text))
      (before.text ++ (head.replacement settings ++ after.text)) := by
  intro rest hrest
  have hform : head.form settings ∈ forms settings := List.mem_of_getElem? (head.forms_rank settings)
  have hfits := head.fits_append ends hrest
  obtain ⟨c, tail, htext, -⟩ := head.calm_tail hfits
  have hne : head.text ≠ [] := by
    rw [htext]
    exact List.cons_ne_nil c tail
  rw [List.append_assoc, List.append_assoc, (hbefore _).replaceAll hform,
    Text.replaceAll_read hne (head.form_text settings _ hfits), (calm_phrase after hrest).replaceAll hform]
  simp only [List.append_assoc]

/-- The forms that are replaced after that of the statement keep what it became. -/
theorem turnsAll_later (hloader : KeywordFree settings.runtimeLoader) (hbefore : Still before.text)
    (ends : head.fits after.text) :
    TurnsAll ((forms settings).drop (head.rank + 1)) (before.text ++ (head.replacement settings ++ after.text))
      (before.text ++ (head.replacement settings ++ after.text)) := by
  by_cases hrank : head.rank < 7
  · refine turnsAll_of_calm (fun rest hrest => ?_) (List.drop_subset (head.rank + 1) (forms settings))
    have hreplacement := head.calm_replacement hloader hrank (head.fits_append ends hrest)
    exact (hbefore _).append (hreplacement.append (calm_phrase after hrest))
  · -- the export list is the last form
    rw [List.drop_eq_nil_iff.mpr (by rw [forms]; simp; omega)]
    rfl

/-- Every line is turned into its rewritten one. -/
theorem turnsAll (hloader : KeywordFree settings.runtimeLoader) (line : Line) :
    TurnsAll (forms settings) line.text (line.rewritten settings) := by
  cases line with
  | other phrase => exact turnsAll_of_calm (fun rest hrest => calm_phrase phrase hrest) (List.Subset.refl _)
  | statement before apart head after ends =>
    have hbefore := still_before before apart
    rw [head.forms_eq settings]
    exact turnsAll_of_form (fun other hother => turns_earlier before after head hbefore ends hother)
      (turns_form before after head hbefore ends) (turnsAll_later before after head hloader hbefore ends)

end Line

/-- Rewriting a module rewrites its statements line by line: each statement becomes its replacement, what
stands around it on its line stays, and so do the other lines. A line alone is rewritten in the same way. -/
theorem toRequire_lines (settings : Settings) (hloader : KeywordFree settings.runtimeLoader) (lines : List Line) :
    toRequire settings (Text.joinWith "\n" (lines.map Line.text)) =
        Text.joinWith "\n" (lines.map (Line.rewritten settings)) ∧
      ∀ line ∈ lines, toRequire settings line.text = line.rewritten settings := by
  constructor
  · refine toRequire_joinWith ?_
    rw [List.forall₂_map_left_iff, List.forall₂_map_right_iff, List.forall₂_same]
    exact fun line _ => line.turnsAll hloader
  · intro line _
    have hline := toRequire_joinWith (List.Forall₂.cons (line.turnsAll hloader) .nil)
    rwa [Text.joinWith_singleton, Text.joinWith_singleton] at hline

/-- A module with imports, exports and a line of neither kind. A keyword in a path stays. -/
theorem toRequire_lines_of_module :
    ∃ lines : List Line,
      lines.map Line.text =
        ["import \x7b ref, watch as see \x7d from 'vue'", "import Row from \"./import/Row.vue\";", "// rows",
          "export \x7b ref, see \x7d;", "export default Row"] ∧
      KeywordFree ({} : Settings).runtimeLoader ∧
      toRequire {} (Text.joinWith "\n" (lines.map Line.text)) =
        Text.joinWith "\n"
          ["const \x7bref, watch: see\x7d = require(\"vue\")", "const Row = vueEsmRuntime(\"./import/Row.vue\");",
            "// rows", "module.exports.ref = ref; module.exports.see = see;", "module.exports = Row"] := by
  let space : Gap := { text := " " }
  let nothing : Phrase := { text := [] }
  let ref : PlainName := { text := "ref" }
  let see : PlainName := { text := "see" }
  refine ⟨[.statement nothing rfl (.namedImport space ⟨space.toBlanks, .plain ref, { text := [] }⟩
        [⟨space.toBlanks, .renamed { text := "watch" } space space see, space.toBlanks⟩] space space
        { text := "vue", quote := '\x27' }) nothing rfl,
      .statement nothing rfl (.defaultImport space { text := "Row" } space space
        { text := "./import/Row.vue", quote := '\x22' }) { text := ";" } rfl,
      .other { text := "// rows" },
      .statement nothing rfl (.exportList space ⟨space.toBlanks, ref, { text := [] }⟩
        [⟨space.toBlanks, see, space.toBlanks⟩]) { text := ";" } rfl,
      .statement nothing rfl (.exportDefault space space) { text := "Row" } rfl], rfl, by decide, ?_⟩
  rw [(toRequire_lines {} (by decide) _).1]
  rfl

end SetupScript.EsModule
