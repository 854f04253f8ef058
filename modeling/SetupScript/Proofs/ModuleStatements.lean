import SetupScript.Proofs.DeclarationForms
import SetupScript.Proofs.ReplacedForms

/-!
# Statements of modules

The import and export statements that are rewritten, as data: each with its names, its path and the white
space between its parts, and with what takes its place. A statement reads as its own form, up to its end,
and as none of the forms that are replaced before.
-/

namespace SetupScript.EsModule

/-! ## The parts of a statement -/

/-- White space, possibly none. -/
structure Blanks where
  text : Text
  blank : text.all Text.isBlank := by decide

/-- White space between two words. -/
structure Gap extends Blanks where
  nonempty : text ≠ [] := by decide

/-- Text that is neither import nor export. -/
structure Phrase where
  text : Text
  free : KeywordFree text := by decide

/-- A name in which no keyword stands. -/
structure PlainName extends Phrase where
  word : text.all Text.isNameChar := by decide
  nonempty : text ≠ [] := by decide

/-- A path between quotes. Keywords may stand in it, but no white space and no opening parenthesis. -/
structure QuotedPath where
  text : Text
  quote : Char
  isQuote : isPathQuote quote := by decide
  plain : text.all (fun c => !isPathQuote c && isSolid c) := by decide
  nonempty : text ≠ [] := by decide

/-- An imported name, under its own name or another. -/
inductive ImportItem where
  | plain (name : PlainName)
  | renamed (external : PlainName) (before after : Gap) (inner : PlainName)

/-- An item of a list with the white space around it. -/
structure Padded (α : Type) where
  before : Blanks
  item : α
  after : Blanks

/-- A path with its quotes. -/
def QuotedPath.quoted (path : QuotedPath) : Text := path.quote :: (path.text ++ [path.quote])

/-- An imported name as it is written. -/
def ImportItem.text : ImportItem → Text
  | plain name => name.text
  | renamed external before after inner =>
    external.text ++ (before.text ++ (("as" : Text) ++ (after.text ++ inner.text)))

/-- An imported name as it stands in a destructuring pattern. -/
def ImportItem.target : ImportItem → Text
  | plain name => name.text
  | renamed external _ _ inner => external.text ++ ": " ++ inner.text

/-- An item of a list with its white space. -/
def Padded.written {α : Type} (text : α → Text) (padded : Padded α) : Text :=
  padded.before.text ++ text padded.item ++ padded.after.text

/-- The text of a comma list. -/
def listText {α : Type} (text : α → Text) (items : List (Padded α)) : Text :=
  Text.joinWith "," (items.map (Padded.written text))

/-- The part of a statement that is replaced. -/
inductive Head where
  /-- `import('path')` -/
  | dynamicImport (g₁ g₂ : Blanks) (path : QuotedPath) (g₃ : Blanks)
  /-- `import { names } from 'path'` -/
  | namedImport (g₁ : Gap) (first : Padded ImportItem) (more : List (Padded ImportItem)) (g₂ g₃ : Gap)
      (path : QuotedPath)
  /-- `import name from 'path'` -/
  | defaultImport (g₁ : Gap) (name : PlainName) (g₂ g₃ : Gap) (path : QuotedPath)
  /-- `import 'path'` -/
  | bareImport (g₁ : Gap) (path : QuotedPath)
  /-- `export default` -/
  | exportDefault (g₁ g₂ : Gap)
  /-- `export const name =` and its like -/
  | exportDeclaration (g₁ : Gap) (word : Text) (declares : word ∈ [("const" : Text), "let", "var"])
      (g₂ : Gap) (name : PlainName) (g₃ : Blanks)
  /-- `export function name` -/
  | exportFunction (g₁ g₂ : Gap) (name : PlainName)
  /-- `export { names }` -/
  | exportList (g₁ : Gap) (first : Padded PlainName) (more : List (Padded PlainName))

namespace Head

/-- The keyword that a statement starts with. -/
def keyword : Head → Text
  | dynamicImport .. | namedImport .. | defaultImport .. | bareImport .. => "import"
  | exportDefault .. | exportDeclaration .. | exportFunction .. | exportList .. => "export"

/-- What stands after the keyword. -/
def clause : Head → Text
  | dynamicImport g₁ g₂ path g₃ =>
    g₁.text ++ (("(" : Text) ++ (g₂.text ++ (path.quoted ++ (g₃.text ++ ")"))))
  | namedImport g₁ first more g₂ g₃ path =>
    g₁.text ++ (("\x7b" : Text) ++ (listText ImportItem.text (first :: more) ++ (("\x7d" : Text) ++
      (g₂.text ++ (("from" : Text) ++ (g₃.text ++ path.quoted))))))
  | defaultImport g₁ name g₂ g₃ path =>
    g₁.text ++ (name.text ++ (g₂.text ++ (("from" : Text) ++ (g₃.text ++ path.quoted))))
  | bareImport g₁ path => g₁.text ++ path.quoted
  | exportDefault g₁ g₂ => g₁.text ++ (("default" : Text) ++ g₂.text)
  | exportDeclaration g₁ word _ g₂ name g₃ =>
    g₁.text ++ (word ++ (g₂.text ++ (name.text ++ (g₃.text ++ "="))))
  | exportFunction g₁ g₂ name => g₁.text ++ (("function" : Text) ++ (g₂.text ++ name.text))
  | exportList g₁ first more =>
    g₁.text ++ (("\x7b" : Text) ++ (listText (·.text : PlainName → Text) (first :: more) ++ "\x7d"))

/-- The text that is replaced. -/
def text (head : Head) : Text := head.keyword ++ head.clause

/-- What takes its place. -/
def replacement (settings : Settings) : Head → Text
  | dynamicImport _ _ path _ =>
    if isComponentPath settings path.text then
      settings.runtimeLoader ++ ".loadComponent(" ++ literalPath path.text ++ ", " ++
        literalPath (componentName settings path.text) ++ ")()"
    else settings.runtimeLoader ++ ".loadModule(" ++ literalPath path.text ++ ")"
  | namedImport _ first more _ _ path =>
    "const \x7b" ++ Text.joinWith ", " ((first :: more).map (·.item.target)) ++ "\x7d = require(" ++
      literalPath path.text ++ ")"
  | defaultImport _ name _ _ path =>
    "const " ++ name.text ++ " = " ++
      (if isComponentPath settings path.text then settings.runtimeLoader else "require") ++ "(" ++
      literalPath path.text ++ ")"
  | bareImport _ path => "require(" ++ literalPath path.text ++ ")"
  | exportDefault .. => "module.exports = "
  | exportDeclaration _ word _ _ name _ =>
    word ++ " " ++ name.text ++ " = module.exports." ++ name.text ++ " ="
  | exportFunction _ _ name => "module.exports." ++ name.text ++ " = function " ++ name.text
  | exportList _ first more =>
    Text.joinWith "; " ((first :: more).map fun padded =>
      "module.exports." ++ padded.item.text ++ " = " ++ padded.item.text)

/-- The statement ends here: a default export has something to export after its white space, and the
name of a function is over. -/
def fits : Head → Text → Bool
  | exportDefault .., after => after.head?.any (!Text.isBlank ·)
  | exportFunction .., after => !after.head?.any Text.isNameChar
  | _, _ => true

end Head

/-! ## Lists of names -/

/-- An item of a list: names and white space, with a name at both ends. -/
structure IsItem (t : Text) : Prop where
  edged : Text.Edged t
  plain : t.all fun c => Text.isNameChar c || Text.isBlank c

/-- A word is an item. -/
theorem isItem_of_word {t : Text} (hword : t.all Text.isNameChar) (hne : t ≠ []) : IsItem t where
  edged := Text.edged_of_solid hne (Text.all_solid_of_word hword)
  plain := List.all_eq_true.mpr fun c hc => by rw [List.all_eq_true.mp hword c hc, Bool.true_or]

/-- A renamed word is an item. -/
theorem isItem_renamed {external inner before after : Text} (hexternal : IsItem external) (hinner : IsItem inner)
    (hbefore : before.all Text.isBlank) (hafter : after.all Text.isBlank) :
    IsItem (external ++ (before ++ (("as" : Text) ++ (after ++ inner)))) where
  edged := by
    have hends := hinner.edged.append hexternal.edged.first (before ++ (("as" : Text) ++ after))
    simpa only [List.append_assoc] using hends
  plain := by
    have hblanks {g : Text} (h : g.all Text.isBlank) : g.all fun c => Text.isNameChar c || Text.isBlank c :=
      List.all_eq_true.mpr fun c hc => by rw [List.all_eq_true.mp h c hc, Bool.or_true]
    simp only [List.all_append, hexternal.plain, hinner.plain, hblanks hbefore, hblanks hafter]
    decide

/-- A character that is neither in a name nor white space is in no item. -/
theorem IsItem.all_ne {t : Text} (h : IsItem t) {mark : Char} (hname : Text.isNameChar mark = false)
    (hblank : Text.isBlank mark = false) : t.all (· != mark) := by
  refine List.all_eq_true.mpr fun c hc => bne_iff_ne.mpr ?_
  rintro rfl
  have hchar := List.all_eq_true.mp h.plain c hc
  rw [hname, hblank] at hchar
  cases hchar

theorem Blanks.all_ne (g : Blanks) {mark : Char} (hblank : Text.isBlank mark = false) :
    g.text.all (· != mark) := by
  refine List.all_eq_true.mpr fun c hc => bne_iff_ne.mpr ?_
  rintro rfl
  rw [List.all_eq_true.mp g.blank c hc] at hblank
  cases hblank

section Lists

variable {α : Type} {text : α → Text} {items : List (Padded α)}

theorem Padded.all_ne (htext : ∀ item, IsItem (text item)) (padded : Padded α) {mark : Char}
    (hname : Text.isNameChar mark = false) (hblank : Text.isBlank mark = false) :
    (padded.written text).all (· != mark) := by
  rw [Padded.written, List.all_append, List.all_append, padded.before.all_ne hblank,
    (htext padded.item).all_ne hname hblank, padded.after.all_ne hblank]
  rfl

/-- The names of a list are its items without the white space around them. -/
theorem names_listText (htext : ∀ item, IsItem (text item)) (hne : items ≠ []) :
    ((Text.cutAt (· == ',') (listText text items)).map Text.trim).filter (!·.isEmpty) =
      items.map (text ·.item) := by
  have hcut : Text.cutAt (· == ',') (listText text items) = items.map (Padded.written text) := by
    refine Text.cutAt_joinWith (c := ',') rfl (by simpa using hne) fun piece hpiece => ?_
    obtain ⟨padded, -, rfl⟩ := List.mem_map.mp hpiece
    exact padded.all_ne htext (by decide) (by decide)
  have htrim (padded : Padded α) : Text.trim (padded.written text) = text padded.item := by
    rw [Padded.written, (htext padded.item).edged.trim padded.before.blank, Text.trimEnd_blanks padded.after.blank,
      List.append_nil]
  rw [hcut, List.map_map, List.filter_eq_self.mpr]
  · exact List.map_congr_left fun padded _ => htrim padded
  · intro name hname
    obtain ⟨padded, -, rfl⟩ := List.mem_map.mp hname
    obtain ⟨c, rest, hfirst, -⟩ := (htext padded.item).edged.first
    rw [Function.comp_apply, htrim, hfirst]
    rfl

theorem listText_singleton (padded : Padded α) : listText text [padded] = padded.written text := by
  rw [listText, List.map_singleton, Text.joinWith_singleton]

theorem listText_cons_cons (padded next : Padded α) (more : List (Padded α)) :
    listText text (padded :: next :: more) =
      padded.written text ++ (("," : Text) ++ listText text (next :: more)) := by
  rw [listText, List.map_cons, List.map_cons, Text.joinWith_cons_cons]
  rfl

/-- The text of a list ends before the closing brace. -/
theorem all_ne_listText (htext : ∀ item, IsItem (text item)) : (listText text items).all (· != '}') := by
  induction items with
  | nil => rfl
  | cons padded more ih =>
    have hpadded : (padded.written text).all (· != '}') := padded.all_ne htext (by decide) (by decide)
    cases more with
    | nil => rwa [listText_singleton]
    | cons next more =>
      rw [listText_cons_cons, List.all_append, List.all_append, hpadded, ih]
      rfl

/-- A list of items holds more than nothing. -/
theorem listText_ne_nil (htext : ∀ item, IsItem (text item)) (padded : Padded α) (more : List (Padded α)) :
    listText text (padded :: more) ≠ [] := by
  have hpadded : padded.written text ≠ [] := by
    obtain ⟨c, rest, hfirst, -⟩ := (htext padded.item).edged.first
    rw [Padded.written, hfirst]
    simp
  cases more with
  | nil => rwa [listText_singleton]
  | cons next more =>
    rw [listText_cons_cons]
    exact List.append_ne_nil_of_left_ne_nil hpadded _

end Lists

theorem PlainName.isItem (name : PlainName) : IsItem name.text := isItem_of_word name.word name.nonempty

theorem ImportItem.isItem (item : ImportItem) : IsItem item.text := by
  cases item with
  | plain name => exact name.isItem
  | renamed external before after inner =>
    exact isItem_renamed external.isItem inner.isItem before.blank after.blank

/-- A gap ends before what is not blank. -/
theorem Gap.isGap (g : Gap) {next : Text} (h : next.head?.any Text.isBlank = false) :
    Reader.IsGap g.text next :=
  ⟨g.blank, g.nonempty, by rw [h]; rfl⟩

/-- A gap is no part of a name. -/
theorem Gap.head?_name (g : Gap) (t : Text) : (g.text ++ t).head?.any Text.isNameChar = false := by
  obtain ⟨c, rest, htext⟩ := List.exists_cons_of_ne_nil g.nonempty
  have hblank := g.blank
  rw [htext, List.all_cons, Bool.and_eq_true] at hblank
  rw [htext]
  exact Text.isNameChar_of_isBlank hblank.1

/-- A name is not blank. -/
theorem PlainName.head?_blank (name : PlainName) (t : Text) :
    (name.text ++ t).head?.any Text.isBlank = false := by
  obtain ⟨c, rest, hfirst, hc⟩ := name.isItem.edged.first
  rw [hfirst]
  exact hc

/-- What an imported name becomes. -/
theorem ImportItem.destructured_text (item : ImportItem) : destructured item.text = item.target := by
  cases item with
  | plain name =>
    have hrefused : Reader.renamed name.text = none := by
      refine Option.eq_none_iff_forall_ne_some.mpr ?_
      rintro ⟨names, rest⟩ hread
      simp only [Reader.renamed, Reader.bind_eq_some, Reader.blanks1_eq_some, Reader.many1_eq_some] at hread
      obtain ⟨external, _, ⟨htext, -⟩, _, left, ⟨gap, rfl, hgap, hne, -⟩, -⟩ := hread
      -- the blank after the first name would be a character of the name
      obtain ⟨c, more, rfl⟩ := List.exists_cons_of_ne_nil hne
      rw [List.all_cons, Bool.and_eq_true] at hgap
      have hname := List.all_eq_true.mp name.word c (by rw [htext]; simp)
      rw [Text.isNameChar_of_isBlank hgap.1] at hname
      cases hname
    rw [destructured, text, hrefused]
    rfl
  | renamed external before after inner =>
    have hread : Reader.renamed (renamed external before after inner).text =
        some ((external.text, inner.text), []) := by
      have hend : inner.text = inner.text ++ [] := (List.append_nil _).symm
      simp only [Reader.renamed, Reader.bind_eq_some, Reader.literal_eq_some, Reader.blanks1_eq_some,
        Reader.many1_eq_some, Reader.atEnd_eq_some, Reader.pure_eq_some]
      refine ⟨external.text, _, ⟨rfl, external.word, external.nonempty, ?_⟩, (), _,
        ⟨before.text, rfl, before.blank, before.nonempty, rfl⟩, (), _, rfl, (), _,
        ⟨after.text, rfl, after.blank, after.nonempty, ?_⟩, inner.text, [],
        ⟨hend, inner.word, inner.nonempty, rfl⟩, (), [], ⟨rfl, rfl⟩, rfl, rfl⟩
      · rw [before.head?_name]
        rfl
      · rw [hend, inner.head?_blank]
        rfl
    rw [destructured, hread]
    rfl

/-- What the names of an import list become. -/
theorem importNames_listText (first : Padded ImportItem) (more : List (Padded ImportItem)) :
    importNames (listText ImportItem.text (first :: more)) =
      Text.joinWith ", " ((first :: more).map (·.item.target)) := by
  rw [importNames, destructuredNames, names_listText ImportItem.isItem (List.cons_ne_nil first more),
    List.map_map]
  exact congrArg _ (List.map_congr_left fun padded _ => padded.item.destructured_text)

/-- An export list becomes one assignment for each of its items. -/
theorem exportList_listText {α : Type} {text : α → Text} (htext : ∀ item, IsItem (text item)) (g : Gap)
    (first : Padded α) (more : List (Padded α)) (after : Text) :
    exportList (("export" : Text) ++ (g.text ++ (("\x7b" : Text) ++ (listText text (first :: more) ++
        (("\x7d" : Text) ++ after))))) =
      some (Text.joinWith "; " ((first :: more).map fun padded =>
        "module.exports." ++ text padded.item ++ " = " ++ text padded.item), after) := by
  simp only [exportList, Reader.bind_eq_some, exportWord_eq_some, Reader.literal_eq_some, Reader.many1_eq_some,
    Reader.pure_eq_some]
  refine ⟨(), _, ⟨g.text, rfl, g.isGap rfl⟩, (), _, rfl, _, _,
    ⟨rfl, all_ne_listText htext, listText_ne_nil htext first more, rfl⟩, (), after, rfl, ?_, rfl⟩
  rw [names_listText htext (List.cons_ne_nil first more), List.map_map]
  rfl

/-! ## Reading a statement -/

namespace Head

/-- The form of a statement. -/
def form (settings : Settings) : Head → Reader Text
  | dynamicImport .. => EsModule.dynamicImport settings
  | namedImport .. => EsModule.namedImport
  | defaultImport .. => EsModule.defaultImport settings
  | bareImport .. => EsModule.bareImport
  | exportDefault .. => EsModule.exportDefault
  | exportDeclaration .. => EsModule.exportDeclaration
  | exportFunction .. => EsModule.exportFunction
  | exportList .. => EsModule.exportList

/-- A quoted path is read up to its closing quote. -/
theorem read_quoted (path : QuotedPath) (t : Text) :
    Reader.quotedPath (path.quoted ++ t) = some (path.text, t) := by
  refine Reader.quotedPath_eq_some.mpr ⟨path.quote, path.quote, ?_, path.isQuote, path.isQuote, ?_, path.nonempty⟩
  · simp [QuotedPath.quoted]
  · refine List.all_eq_true.mpr fun c hc => ?_
    exact (Bool.and_eq_true_iff.mp (List.all_eq_true.mp path.plain c hc)).1

/-- A quote is not blank. -/
theorem head?_quoted (path : QuotedPath) (t : Text) :
    (path.quoted ++ t).head?.any Text.isBlank = false := by
  rcases isPathQuote_cases path.isQuote with hquote | hquote
  · rw [QuotedPath.quoted, hquote]
    rfl
  · rw [QuotedPath.quoted, hquote]
    rfl

variable (settings : Settings) (after : Text)

theorem read_dynamicImport (g₁ g₂ : Blanks) (path : QuotedPath) (g₃ : Blanks) :
    EsModule.dynamicImport settings ((dynamicImport g₁ g₂ path g₃).text ++ after) =
      some ((dynamicImport g₁ g₂ path g₃).replacement settings, after) := by
  unfold text keyword clause
  simp only [List.append_assoc]
  simp only [EsModule.dynamicImport, Reader.bind_eq_some,
    Reader.literal_eq_some, Reader.blanks_eq_some, Reader.pure_eq_some]
  refine ⟨(), _, rfl, (), _, ⟨g₁.text, rfl, g₁.blank, rfl⟩, (), _, rfl, (), _, ⟨g₂.text, rfl, g₂.blank, ?_⟩,
    path.text, _, read_quoted path _, (), _, ⟨g₃.text, rfl, g₃.blank, rfl⟩, (), after, rfl, rfl, rfl⟩
  rw [head?_quoted]
  rfl

/-- The word `from` is read up to the path. -/
theorem read_from (g₂ g₃ : Gap) (path : QuotedPath) (t : Text) :
    Reader.fromWord (g₂.text ++ (("from" : Text) ++ (g₃.text ++ (path.quoted ++ t)))) =
      some ((), path.quoted ++ t) :=
  Reader.fromWord_eq_some.mpr ⟨g₂.text, g₃.text, rfl, g₂.isGap rfl, g₃.isGap (head?_quoted path t)⟩

theorem read_namedImport (g₁ : Gap) (first : Padded ImportItem) (more : List (Padded ImportItem)) (g₂ g₃ : Gap)
    (path : QuotedPath) :
    EsModule.namedImport ((namedImport g₁ first more g₂ g₃ path).text ++ after) =
      some ((namedImport g₁ first more g₂ g₃ path).replacement settings, after) := by
  have hlist : Reader.namedImport ((namedImport g₁ first more g₂ g₃ path).text ++ after) =
      some ((listText ImportItem.text (first :: more), path.text), after) := by
    unfold text keyword clause
    simp only [List.append_assoc]
    simp only [Reader.namedImport, Reader.bind_eq_some,
      Reader.literal_eq_some, Reader.importWord_eq_some, Reader.many1_eq_some, Reader.pure_eq_some]
    exact ⟨(), _, ⟨g₁.text, rfl, g₁.isGap rfl⟩, (), _, rfl, _, _,
      ⟨rfl, all_ne_listText ImportItem.isItem, listText_ne_nil ImportItem.isItem first more, rfl⟩, (), _, rfl,
      (), _, read_from g₂ g₃ path after, path.text, after, read_quoted path after, rfl, rfl⟩
  rw [EsModule.namedImport, Reader.bind_eq_some]
  refine ⟨_, after, hlist, Reader.pure_eq_some.mpr ⟨?_, rfl⟩⟩
  rw [importNames_listText]
  rfl

theorem read_defaultImport (g₁ : Gap) (name : PlainName) (g₂ g₃ : Gap) (path : QuotedPath) :
    EsModule.defaultImport settings ((defaultImport g₁ name g₂ g₃ path).text ++ after) =
      some ((defaultImport g₁ name g₂ g₃ path).replacement settings, after) := by
  have hname : Reader.defaultImport ((defaultImport g₁ name g₂ g₃ path).text ++ after) =
      some ((name.text, path.text), after) := by
    unfold text keyword clause
    simp only [List.append_assoc]
    simp only [Reader.defaultImport, Reader.bind_eq_some,
      Reader.importWord_eq_some, Reader.many1_eq_some, Reader.pure_eq_some]
    refine ⟨(), _, ⟨g₁.text, rfl, g₁.isGap (name.head?_blank _)⟩, name.text, _,
      ⟨rfl, name.word, name.nonempty, ?_⟩, (), _, read_from g₂ g₃ path after, path.text, after,
      read_quoted path after, rfl, rfl⟩
    rw [g₂.head?_name]
    rfl
  exact Reader.bind_eq_some.mpr ⟨_, after, hname, Reader.pure_eq_some.mpr ⟨rfl, rfl⟩⟩

theorem read_bareImport (g₁ : Gap) (path : QuotedPath) :
    EsModule.bareImport ((bareImport g₁ path).text ++ after) =
      some ((bareImport g₁ path).replacement settings, after) := by
  unfold text keyword clause
  simp only [List.append_assoc]
  simp only [EsModule.bareImport, Reader.bind_eq_some,
    Reader.importWord_eq_some, Reader.pure_eq_some]
  exact ⟨(), _, ⟨g₁.text, rfl, g₁.isGap (head?_quoted path after)⟩, path.text, after, read_quoted path after,
    rfl, rfl⟩

theorem read_exportDefault (g₁ g₂ : Gap) (h : (exportDefault g₁ g₂).fits after) :
    EsModule.exportDefault ((exportDefault g₁ g₂).text ++ after) =
      some ((exportDefault g₁ g₂).replacement settings, after) := by
  have hafter : after.head?.any Text.isBlank = false := by
    cases hhead : after.head? with
    | none => rfl
    | some c => simpa [fits, hhead] using h
  unfold text keyword clause
  simp only [List.append_assoc]
  simp only [EsModule.exportDefault, Reader.bind_eq_some,
    exportWord_eq_some, Reader.literal_eq_some, Reader.blanks1_eq_some, Reader.many1_eq_some, Reader.pure_eq_some]
  exact ⟨(), _, ⟨g₁.text, rfl, g₁.isGap rfl⟩, (), _, rfl, (), after, ⟨g₂.text, rfl, g₂.isGap hafter⟩, rfl, rfl⟩

/-- A word of a declaration is read as itself. -/
theorem read_declarationWord {word : Text} (h : word ∈ [("const" : Text), "let", "var"]) (t : Text) :
    Reader.oneOf ["const", "let", "var"] (word ++ t) = some (word, t) ∧
      (word ++ t).head?.any Text.isBlank = false := by
  simp only [List.mem_cons, List.not_mem_nil, or_false] at h
  rcases h with rfl | rfl | rfl
  · exact ⟨rfl, rfl⟩
  · exact ⟨rfl, rfl⟩
  · exact ⟨rfl, rfl⟩

theorem read_exportDeclaration (g₁ : Gap) (word : Text) (declares : word ∈ [("const" : Text), "let", "var"])
    (g₂ : Gap) (name : PlainName) (g₃ : Blanks) :
    EsModule.exportDeclaration ((exportDeclaration g₁ word declares g₂ name g₃).text ++ after) =
      some ((exportDeclaration g₁ word declares g₂ name g₃).replacement settings, after) := by
  unfold text keyword clause
  simp only [List.append_assoc]
  simp only [EsModule.exportDeclaration, Reader.bind_eq_some,
    exportWord_eq_some, Reader.literal_eq_some, Reader.blanks1_eq_some, Reader.blanks_eq_some,
    Reader.many1_eq_some, Reader.pure_eq_some]
  obtain ⟨hread, hhead⟩ := read_declarationWord declares
    (g₂.text ++ (name.text ++ (g₃.text ++ (("=" : Text) ++ after))))
  have hname : (g₃.text ++ (("=" : Text) ++ after)).head?.any Text.isNameChar = false := by
    cases hblanks : g₃.text with
    | nil => rfl
    | cons c rest =>
      have hblank := g₃.blank
      rw [hblanks, List.all_cons, Bool.and_eq_true] at hblank
      exact Text.isNameChar_of_isBlank hblank.1
  refine ⟨(), _, ⟨g₁.text, rfl, g₁.isGap hhead⟩, word, _, hread, (), _,
    ⟨g₂.text, rfl, g₂.isGap (name.head?_blank _)⟩, name.text, _, ⟨rfl, name.word, name.nonempty, ?_⟩, (), _,
    ⟨g₃.text, rfl, g₃.blank, rfl⟩, (), after, rfl, rfl, rfl⟩
  rw [hname]
  rfl

theorem read_exportFunction (g₁ g₂ : Gap) (name : PlainName) (h : (exportFunction g₁ g₂ name).fits after) :
    EsModule.exportFunction ((exportFunction g₁ g₂ name).text ++ after) =
      some ((exportFunction g₁ g₂ name).replacement settings, after) := by
  unfold text keyword clause
  simp only [List.append_assoc]
  simp only [EsModule.exportFunction, Reader.bind_eq_some,
    exportWord_eq_some, Reader.literal_eq_some, Reader.blanks1_eq_some, Reader.many1_eq_some, Reader.pure_eq_some]
  exact ⟨(), _, ⟨g₁.text, rfl, g₁.isGap rfl⟩, (), _, rfl, (), _,
    ⟨g₂.text, rfl, g₂.isGap (name.head?_blank _)⟩, name.text, after, ⟨rfl, name.word, name.nonempty, h⟩, rfl, rfl⟩

theorem read_exportList (g₁ : Gap) (first : Padded PlainName) (more : List (Padded PlainName)) :
    EsModule.exportList ((exportList g₁ first more).text ++ after) =
      some ((exportList g₁ first more).replacement settings, after) := by
  have hread := exportList_listText PlainName.isItem g₁ first more after
  unfold text keyword clause
  simp only [List.append_assoc]
  exact hread

/-- Every statement is read by its form. -/
theorem form_text (head : Head) (h : head.fits after) :
    head.form settings (head.text ++ after) = some (head.replacement settings, after) := by
  cases head with
  | dynamicImport g₁ g₂ path g₃ => exact read_dynamicImport settings after g₁ g₂ path g₃
  | namedImport g₁ first more g₂ g₃ path => exact read_namedImport settings after g₁ first more g₂ g₃ path
  | defaultImport g₁ name g₂ g₃ path => exact read_defaultImport settings after g₁ name g₂ g₃ path
  | bareImport g₁ path => exact read_bareImport settings after g₁ path
  | exportDefault g₁ g₂ => exact read_exportDefault settings after g₁ g₂ h
  | exportDeclaration g₁ word declares g₂ name g₃ =>
    exact read_exportDeclaration settings after g₁ word declares g₂ name g₃
  | exportFunction g₁ g₂ name => exact read_exportFunction settings after g₁ g₂ name h
  | exportList g₁ first more => exact read_exportList settings after g₁ first more

/-- The place of the form among the forms. -/
def rank : Head → Nat
  | dynamicImport .. => 0
  | namedImport .. => 1
  | defaultImport .. => 2
  | bareImport .. => 3
  | exportDefault .. => 4
  | exportDeclaration .. => 5
  | exportFunction .. => 6
  | exportList .. => 7

theorem forms_rank (head : Head) : (forms settings)[head.rank]? = some (head.form settings) := by
  cases head with
  | _ => rfl

/-- The forms before and after that of the statement. -/
theorem forms_eq (head : Head) :
    forms settings = (forms settings).take head.rank ++ head.form settings :: (forms settings).drop (head.rank + 1) := by
  obtain ⟨hlt, hget⟩ := List.getElem?_eq_some_iff.mp (forms_rank settings head)
  rw [← hget, List.getElem_cons_drop, List.take_append_drop]

/-- A statement is not read by a form that is replaced before its own. -/
theorem refused_text (head : Head) (h : head.fits after) {other : Reader Text}
    (hother : other ∈ (forms settings).take head.rank) : other (head.text ++ after) = none := by
  obtain ⟨j, hj⟩ := List.getElem?_of_mem hother
  rw [List.getElem?_take, ite_eq_iff] at hj
  obtain ⟨hlt, hj⟩ | ⟨-, hj⟩ := hj
  · exact refused_of_read (forms_rank settings head) hj (by omega) (form_text settings after head h)
  · cases hj

end Head

end SetupScript.EsModule
