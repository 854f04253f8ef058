import SetupScript.Proofs.ModuleStatements

/-!
# Export lists with renames

An export list whose items are names, some of them under another name. The list is rewritten item by item,
but the text of an item is taken as a whole: a renamed one is assigned under a text that is no name. So the
result is the intended one just when no item is renamed.

The names may be any words, keywords included: after a name in the list nothing comes that would make a
keyword the start of a statement.
-/

namespace SetupScript.EsModule

/-- An exported name, under its own name or another. -/
inductive ExportItem where
  | plain (name : Text) (isName : Text.isIdentifier name)
  | renamed (inner external : Text) (isInner : Text.isIdentifier inner) (isExternal : Text.isIdentifier external)

namespace ExportItem

/-- An exported name as it is written. -/
def text : ExportItem → Text
  | plain name _ => name
  | renamed inner external _ _ => inner ++ " as " ++ external

/-- The name inside the module. -/
def innerName : ExportItem → Text
  | plain name _ | renamed name _ _ _ => name

/-- The name outside the module. -/
def externalName : ExportItem → Text
  | plain name _ | renamed _ name _ _ => name

def isPlain : ExportItem → Bool
  | plain .. => true
  | renamed .. => false

/-- The assignment that exports a name. -/
def assignment (external inner : Text) : Text := "module.exports." ++ external ++ " = " ++ inner

theorem isItem (item : ExportItem) : IsItem item.text := by
  cases item with
  | plain name isName =>
    obtain ⟨hword, hne⟩ := Text.word_of_isIdentifier isName
    exact isItem_of_word hword hne
  | renamed inner external isInner isExternal =>
    obtain ⟨hinner, hne⟩ := Text.word_of_isIdentifier isInner
    obtain ⟨hexternal, hne'⟩ := Text.word_of_isIdentifier isExternal
    have hitem := isItem_renamed (isItem_of_word hinner hne) (isItem_of_word hexternal hne')
      (by decide : (" " : Text).all Text.isBlank) (by decide : (" " : Text).all Text.isBlank)
    rw [text, List.append_assoc]
    exact hitem

end ExportItem

/-- The items of a list with single spaces around them. -/
def spaced : ExportItem → List ExportItem → List (Padded ExportItem)
  | item, [] => [⟨{ text := " " }, item, { text := " " }⟩]
  | item, next :: more => ⟨{ text := " " }, item, { text := [] }⟩ :: spaced next more

theorem exists_spaced_eq_cons (first : ExportItem) (more : List ExportItem) :
    ∃ padded rest, spaced first more = padded :: rest := by
  cases more with
  | nil => exact ⟨_, _, rfl⟩
  | cons next more => exact ⟨_, _, rfl⟩

theorem map_item_spaced (first : ExportItem) (more : List ExportItem) :
    (spaced first more).map Padded.item = first :: more := by
  induction more generalizing first with
  | nil => rfl
  | cons next more ih => rw [spaced, List.map_cons, ih]

/-- Written with single spaces, a list is its items joined by a comma and a space. -/
theorem listText_spaced (first : ExportItem) (more : List ExportItem) :
    listText ExportItem.text (spaced first more) =
      (" " : Text) ++ (Text.joinWith ", " ((first :: more).map ExportItem.text) ++ (" " : Text)) := by
  induction more generalizing first with
  | nil => rw [spaced, listText_singleton, Padded.written, List.map_singleton, Text.joinWith_singleton, List.append_assoc]
  | cons next more ih =>
    obtain ⟨padded, rest, hspaced⟩ := exists_spaced_eq_cons next more
    rw [spaced, hspaced, listText_cons_cons, ← hspaced, ih, Padded.written]
    simp only [List.map_cons, Text.joinWith_cons_cons, List.append_assoc, List.nil_append]
    rfl

/-- The statement that exports the items. -/
def exportText (items : List ExportItem) : Text :=
  "export \x7b " ++ Text.joinWith ", " (items.map ExportItem.text) ++ " \x7d"

/-- The last form takes the whole statement. -/
theorem replaceAll_exportList (first : ExportItem) (more : List ExportItem) :
    Text.replaceAll exportList (exportText (first :: more)) =
      Text.joinWith "; " ((first :: more).map fun item => ExportItem.assignment item.text item.text) := by
  obtain ⟨padded, rest, hspaced⟩ := exists_spaced_eq_cons first more
  have hread := exportList_listText ExportItem.isItem { text := " " } padded rest []
  have htext : exportText (first :: more) = ("export" : Text) ++ ((" " : Text) ++ (("\x7b" : Text) ++
      (listText ExportItem.text (padded :: rest) ++ (("\x7d" : Text) ++ [])))) ++ [] := by
    rw [← hspaced, listText_spaced]
    unfold exportText
    simp only [List.append_assoc]
    rfl
  have hvalue : (padded :: rest).map (fun padded => ExportItem.assignment padded.item.text padded.item.text) =
      (first :: more).map fun item => ExportItem.assignment item.text item.text := by
    rw [← hspaced, ← map_item_spaced first more, List.map_map]
    rfl
  rw [htext, Text.replaceAll_read (by simp) (by rw [List.append_nil]; exact hread), ← hvalue]
  exact List.append_nil _

/-! ## The other forms keep the statement -/

/-- What an import form takes holds a quote. -/
theorem exists_quote_of_read {settings : Settings} {form : Reader Text} (hform : form ∈ (forms settings).take 4)
    {t : Text} {read : Text × Text} (hread : form t = some read) : ∃ c ∈ t, isPathQuote c := by
  have hcount {taken left : Text} (htext : t = taken ++ left) (hquotes : 2 ≤ quoteCount taken) :
      ∃ c ∈ t, isPathQuote c := by
    obtain ⟨c, hc, hquote⟩ := List.countP_pos_iff.mp (Nat.lt_of_lt_of_le Nat.two_pos hquotes)
    exact ⟨c, htext ▸ List.mem_append_left left hc, hquote⟩
  obtain ⟨value, left⟩ := read
  simp only [forms, List.take_succ_cons, List.take_zero, List.mem_cons, List.not_mem_nil, or_false] at hform
  rcases hform with rfl | rfl | rfl | rfl
  · simp only [dynamicImport, Reader.bind_eq_some, Reader.literal_eq_some, Reader.blanks_eq_some,
      Reader.quotedPath_eq_some] at hread
    obtain ⟨_, _, rfl, _, _, ⟨g₁, rfl, -⟩, _, _, rfl, _, _, ⟨g₂, rfl, -⟩, _, _, ⟨q, q', rfl, hq, -⟩, -⟩ := hread
    exact ⟨q, by simp, hq⟩
  · obtain ⟨_, _, hnamed, -⟩ := Reader.bind_eq_some.mp hread
    obtain ⟨taken, htext, hquotes⟩ := Reader.namedImport_quotes hnamed
    exact hcount htext hquotes
  · obtain ⟨_, _, hdefault, -⟩ := Reader.bind_eq_some.mp hread
    obtain ⟨taken, htext, hquotes⟩ := Reader.defaultImport_quotes hdefault
    exact hcount htext hquotes
  · simp only [bareImport, Reader.bind_eq_some, Reader.importWord_eq_some, Reader.quotedPath_eq_some] at hread
    obtain ⟨_, _, ⟨g₁, rfl, -⟩, _, _, ⟨q, q', rfl, hq, -⟩, -⟩ := hread
    exact ⟨q, by simp, hq⟩

/-- A text without quotes is kept by the import forms. -/
theorem replaceAll_of_no_quote {settings : Settings} {form : Reader Text} (hform : form ∈ (forms settings).take 4)
    {t : Text} (h : t.all (!isPathQuote ·)) : Text.replaceAll form t = t := by
  have hrefused (s : Text) (hs : s <:+ t) : form (s ++ []) = none := by
    refine Option.eq_none_iff_forall_ne_some.mpr fun read hread => ?_
    obtain ⟨c, hc, hquote⟩ := exists_quote_of_read hform hread
    rw [List.append_nil] at hc
    have hplain := List.all_eq_true.mp h c (hs.subset hc)
    simp [hquote] at hplain
  have hkept := Text.replaceAll_append_of_refused fun s _ hs => hrefused s hs
  rw [List.append_nil] at hkept
  rw [hkept]
  exact List.append_nil t

/-- A word ends where white space, or a character that is in no name, follows it. -/
theorem exists_head_not_name {gap : Text} {c : Char} (hgap : gap.all Text.isBlank)
    (hends : gap = [] → Text.isNameChar c = false) (rest : Text) :
    ∃ e more, gap ++ c :: rest = e :: more ∧ Text.isNameChar e = false := by
  cases gap with
  | nil => exact ⟨c, rest, rfl, hends rfl⟩
  | cons e more =>
    rw [List.all_cons, Bool.and_eq_true] at hgap
    exact ⟨e, _, rfl, Text.isNameChar_of_isBlank hgap.1⟩

/-- What ends an item: white space, if any, and a character that is in no name. -/
def EndsItem (t : Text) : Prop :=
  ∃ gap c rest, t = gap ++ c :: rest ∧ gap.all Text.isBlank ∧ Text.isBlank c = false ∧ Text.isNameChar c = false

section Words

variable {form : Reader Text} {next : Char → Bool} (hleads : Leads "export" next form)

include hleads

/-- A form is not read in a word, unless it goes on after the word. -/
theorem replaceAll_word {word gap : Text} {c : Char} (hword : word.all Text.isNameChar)
    (hgap : gap.all Text.isBlank) (hc : Text.isBlank c = false) (hends : gap = [] → Text.isNameChar c = false)
    (hnext : next c = false) (rest : Text) :
    Text.replaceAll form (word ++ (gap ++ c :: rest)) = word ++ Text.replaceAll form (gap ++ c :: rest) := by
  refine Text.replaceAll_append_of_refused fun s _ hs => ?_
  refine Option.eq_none_iff_forall_ne_some.mpr fun read hread => ?_
  obtain ⟨gap', c', rest', htext, hgap', hc', hnext', hparen⟩ := hleads _ read hread
  have hends' (h : gap' = []) : Text.isNameChar c' = false := by
    rw [hparen h]
    decide
  obtain ⟨e, more, heq, he⟩ := exists_head_not_name hgap hends rest
  obtain ⟨e', more', heq', he'⟩ := exists_head_not_name hgap' hends' rest'
  -- the word of the form ends where the word ends, so the gaps and what they lead to are the same
  have hs' : s.all Text.isNameChar := List.all_eq_true.mpr fun d hd => List.all_eq_true.mp hword d (hs.subset hd)
  have hsame : s = ("export" : Text) := by
    rw [heq, heq'] at htext
    exact (Text.cut_unique hs' (by decide) he he' htext).1
  rw [hsame, List.append_cancel_left_eq] at htext
  obtain ⟨-, rfl⟩ := Text.cut_unique hgap hgap' hc hc' htext
  rw [hnext] at hnext'
  cases hnext'

variable {settings : Settings} (hform : form ∈ forms settings) (hnames : ∀ c, next c → Text.isNameChar c)
  (has : next 'a' = false)

include hnames

/-- A form that goes on with a name is not read in the last word of an item. -/
theorem replaceAll_last_word {name t : Text} (hname : Text.isIdentifier name) (h : EndsItem t) :
    Text.replaceAll form (name ++ t) = name ++ Text.replaceAll form t := by
  obtain ⟨gap, c, rest, rfl, hgap, hc, hends⟩ := h
  refine replaceAll_word hleads (Text.word_of_isIdentifier hname).1 hgap hc (fun _ => hends) ?_ rest
  by_contra hnext
  rw [Bool.not_eq_false] at hnext
  rw [hnames c hnext] at hends
  cases hends

include hform has

/-- A form that goes on with a name other than `as` is not read in an item. -/
theorem replaceAll_item (item : ExportItem) {t : Text} (h : EndsItem t) :
    Text.replaceAll form (item.text ++ t) = item.text ++ Text.replaceAll form t := by
  cases item with
  | plain name isName => exact replaceAll_last_word hleads hnames isName h
  | renamed inner external isInner isExternal =>
    have hinner := replaceAll_word hleads (Text.word_of_isIdentifier isInner).1
      (by decide : (" " : Text).all Text.isBlank) (by decide) (fun hgap => by cases hgap) has
      (("s " : Text) ++ (external ++ t))
    have hcalm : Calm (" as " : Text) (external ++ t) := KeywordFree.calm (by decide) (.inl (by decide))
    calc Text.replaceAll form (inner ++ (" as " : Text) ++ external ++ t)
        = Text.replaceAll form (inner ++ ((" as " : Text) ++ (external ++ t))) := by
          rw [List.append_assoc, List.append_assoc]
      _ = inner ++ Text.replaceAll form ((" as " : Text) ++ (external ++ t)) := hinner
      _ = inner ++ (" as " : Text) ++ external ++ Text.replaceAll form t := by
          rw [hcalm.replaceAll hform, replaceAll_last_word hleads hnames isExternal h, List.append_assoc,
            List.append_assoc]

/-- Nor is it read in the rest of the list. -/
theorem replaceAll_items (first : ExportItem) (more : List ExportItem) :
    Text.replaceAll form (Text.joinWith ", " ((first :: more).map ExportItem.text) ++ (" \x7d" : Text)) =
      Text.joinWith ", " ((first :: more).map ExportItem.text) ++ (" \x7d" : Text) := by
  induction more generalizing first with
  | nil =>
    have hends : EndsItem (" \x7d" : Text) := ⟨" ", '}', [], rfl, by decide, by decide, by decide⟩
    have hcalm : Calm (" \x7d" : Text) [] := KeywordFree.calm (by decide) (.inr rfl)
    have hclose := hcalm.replaceAll hform
    rw [List.append_nil] at hclose
    rw [List.map_singleton, Text.joinWith_singleton, replaceAll_item hleads hform hnames has first hends, hclose]
    rfl
  | cons next more ih =>
    have hends (t : Text) : EndsItem ((", " : Text) ++ t) :=
      ⟨[], ',', ' ' :: t, rfl, by decide, by decide, by decide⟩
    have hcalm (t : Text) : Calm (", " : Text) t := KeywordFree.calm (by decide) (.inl (by decide))
    rw [List.map_cons, List.map_cons, Text.joinWith_cons_cons, List.append_assoc, List.append_assoc,
      replaceAll_item hleads hform hnames has first (hends _), (hcalm _).replaceAll hform, ← List.map_cons, ih]

/-- A form that goes on with a name other than `as` keeps the statement. -/
theorem replaceAll_exportText (first : ExportItem) (more : List ExportItem) :
    Text.replaceAll form (exportText (first :: more)) = exportText (first :: more) := by
  have hbrace : next '{' = false := by
    by_contra hnext
    rw [Bool.not_eq_false] at hnext
    exact absurd (hnames '{' hnext) (by decide)
  have hopen (t : Text) : Calm (" \x7b " : Text) t := KeywordFree.calm (by decide) (.inl (by decide))
  have hitems := replaceAll_items hleads hform hnames has first more
  have htext : exportText (first :: more) = ("export" : Text) ++ ((" \x7b " : Text) ++
      (Text.joinWith ", " ((first :: more).map ExportItem.text) ++ (" \x7d" : Text))) := by
    unfold exportText
    rw [List.append_assoc]
    rfl
  rw [htext]
  generalize Text.joinWith ", " ((first :: more).map ExportItem.text) ++ (" \x7d" : Text) = list at hitems ⊢
  calc Text.replaceAll form (("export" : Text) ++ ((" \x7b " : Text) ++ list))
      = ("export" : Text) ++ Text.replaceAll form ((" \x7b " : Text) ++ list) :=
        replaceAll_word hleads (by decide) (by decide : (" " : Text).all Text.isBlank) (by decide)
          (fun hgap => by cases hgap) hbrace (' ' :: list)
    _ = ("export" : Text) ++ ((" \x7b " : Text) ++ list) := by rw [(hopen list).replaceAll hform, hitems]

end Words

/-- A statement with an export list holds no quote. -/
theorem no_quote_exportText (items : List ExportItem) : (exportText items).all (!isPathQuote ·) := by
  have hitem (item : ExportItem) : item.text.all (!isPathQuote ·) := by
    refine List.all_eq_true.mpr fun c hc => ?_
    have hplain := List.all_eq_true.mp item.isItem.plain c hc
    rcases Bool.or_eq_true_iff.mp hplain with hname | hblank
    · rw [isPathQuote_of_isNameChar c hname]
      rfl
    · rw [isPathQuote_of_isBlank c hblank]
      rfl
  have hjoin : (Text.joinWith ", " (items.map ExportItem.text)).all (!isPathQuote ·) := by
    induction items with
    | nil => rfl
    | cons item more ih =>
      cases more with
      | nil =>
        rw [List.map_singleton, Text.joinWith_singleton]
        exact hitem item
      | cons next more =>
        rw [List.map_cons, List.map_cons, Text.joinWith_cons_cons, List.all_append, List.all_append, hitem,
          ← List.map_cons, ih]
        rfl
  unfold exportText
  rw [List.all_append, List.all_append, hjoin]
  rfl

/-- All forms but the last keep the statement. -/
theorem replaceAll_exportText_of_mem {settings : Settings} {form : Reader Text}
    (hform : form ∈ (forms settings).take 7) (first : ExportItem) (more : List ExportItem) :
    Text.replaceAll form (exportText (first :: more)) = exportText (first :: more) := by
  have hmem : form ∈ forms settings := List.mem_of_mem_take hform
  have hsplit : (forms settings).take 7 =
      (forms settings).take 4 ++ [exportDefault, exportDeclaration, exportFunction] := rfl
  rw [hsplit, List.mem_append, List.mem_cons, List.mem_cons, List.mem_singleton] at hform
  rcases hform with himport | rfl | rfl | rfl
  · exact replaceAll_of_no_quote himport (no_quote_exportText (first :: more))
  · refine replaceAll_exportText leads_exportDefault hmem (fun c hc => ?_) rfl first more
    rw [beq_iff_eq.mp hc]
    decide
  · refine replaceAll_exportText leads_exportDeclaration hmem (fun c hc => ?_) rfl first more
    simp only [Bool.or_eq_true, beq_iff_eq] at hc
    rcases hc with (rfl | rfl) | rfl
    · decide
    · decide
    · decide
  · refine replaceAll_exportText leads_exportFunction hmem (fun c hc => ?_) rfl first more
    rw [beq_iff_eq.mp hc]
    decide

/-- Forms that keep a text keep it one after the other. -/
theorem foldl_replaceAll_of_kept {kept : List (Reader Text)} {t : Text}
    (h : ∀ form ∈ kept, Text.replaceAll form t = t) :
    kept.foldl (fun current form => Text.replaceAll form current) t = t := by
  induction kept with
  | nil => rfl
  | cons form kept ih =>
    obtain ⟨hform, hkept⟩ := List.forall_mem_cons.mp h
    rw [List.foldl_cons, hform, ih hkept]

/-- Only the last form changes the statement. -/
theorem toRequire_exportText (settings : Settings) (first : ExportItem) (more : List ExportItem) :
    toRequire settings (exportText (first :: more)) =
      Text.joinWith "; " ((first :: more).map fun item => ExportItem.assignment item.text item.text) := by
  have hforms : forms settings = (forms settings).take 7 ++ [exportList] := rfl
  rw [toRequire, hforms, List.foldl_append,
    foldl_replaceAll_of_kept fun form hform => replaceAll_exportText_of_mem hform first more, List.foldl_cons,
    List.foldl_nil, replaceAll_exportList]

/-! ## Renamed items -/

/-- Joined texts are at least as long as shorter ones joined, and longer if one of them is. -/
theorem length_joinWith_le {α : Type} (sep : Text) {short long : α → Text} {items : List α}
    (hle : ∀ item ∈ items, (short item).length ≤ (long item).length) :
    (Text.joinWith sep (items.map short)).length ≤ (Text.joinWith sep (items.map long)).length ∧
      ((∃ item ∈ items, (short item).length < (long item).length) →
        (Text.joinWith sep (items.map short)).length < (Text.joinWith sep (items.map long)).length) := by
  induction items with
  | nil => simp
  | cons item more ih =>
    obtain ⟨hitem, hmore⟩ := List.forall_mem_cons.mp hle
    obtain ⟨hih, hlt⟩ := ih hmore
    cases more with
    | nil => simpa [Text.joinWith_singleton] using hitem
    | cons next more =>
      simp only [List.map_cons, Text.joinWith_cons_cons, List.length_append] at hih hlt ⊢
      refine ⟨by omega, fun hexists => ?_⟩
      obtain ⟨other, hother, hshorter⟩ := hexists
      rcases List.mem_cons.mp hother with rfl | hrest
      · omega
      · have hrest := hlt ⟨other, hrest, hshorter⟩
        omega

theorem ExportItem.length_assignment (external inner : Text) :
    (assignment external inner).length = external.length + inner.length + 18 := by
  unfold assignment
  rw [List.length_append, List.length_append, List.length_append,
    show List.length ("module.exports." : Text) = 15 from rfl, show List.length (" = " : Text) = 3 from rfl]
  omega

/-- The assignment of an item is as long as the intended one if the item is plain, and else longer. -/
theorem ExportItem.length_assignment_text (item : ExportItem) :
    (assignment item.externalName item.innerName).length ≤ (assignment item.text item.text).length ∧
      (item.isPlain = false →
        (assignment item.externalName item.innerName).length < (assignment item.text item.text).length) := by
  cases item with
  | plain name isName => exact ⟨Nat.le_refl _, fun h => by cases h⟩
  | renamed inner external isInner isExternal =>
    have htext : (renamed inner external isInner isExternal).text.length = inner.length + 4 + external.length := by
      unfold text
      rw [List.length_append, List.length_append, show List.length (" as " : Text) = 4 from rfl]
    rw [length_assignment, length_assignment, htext, innerName, externalName]
    exact ⟨by omega, fun _ => by omega⟩

/-- An export list becomes one assignment for each item, with the text of the item on both sides. So a
name is exported as intended, the inner one under the external one, just when no item is renamed. -/
theorem exports_as_intended_iff_plain (settings : Settings) (first : ExportItem) (more : List ExportItem) :
    toRequire settings (exportText (first :: more)) =
        Text.joinWith "; " ((first :: more).map fun item => ExportItem.assignment item.text item.text) ∧
      (toRequire settings (exportText (first :: more)) =
          Text.joinWith "; "
            ((first :: more).map fun item => ExportItem.assignment item.externalName item.innerName) ↔
        ∀ item ∈ first :: more, item.isPlain) := by
  refine ⟨toRequire_exportText settings first more, ?_⟩
  rw [toRequire_exportText]
  constructor
  · intro hsame item hitem
    by_contra hrenamed
    rw [Bool.not_eq_true] at hrenamed
    have hlonger := (length_joinWith_le "; " fun item _ => item.length_assignment_text.1).2
      ⟨item, hitem, item.length_assignment_text.2 hrenamed⟩
    rw [hsame] at hlonger
    exact Nat.lt_irrefl _ hlonger
  · intro hplain
    refine congrArg (Text.joinWith "; ") (List.map_congr_left fun item hitem => ?_)
    have hitem := hplain item hitem
    cases item with
    | plain name isName => rfl
    | renamed inner external isInner isExternal => cases hitem

/-- A renamed item is assigned under a text that is no name. -/
theorem renamed_export_lost :
    toRequire {} "export \x7b x as y \x7d" = "module.exports.x as y = x as y" ∧
      ("module.exports.x as y = x as y" : Text) ≠ ExportItem.assignment "y" "x" := by
  decide +kernel

end SetupScript.EsModule
