import Mathlib.Data.List.Infix
import SetupScript.Component.Sections
import SetupScript.Proofs.ReplacedForms

/-!
# Expanded tags

A component tag that closes itself is written out as an opening and a closing tag. Markup falls into
such tags and characters outside them in one way only, since a tag ends at the first `>` after it
starts. Characters outside stay as they are.

The name for the closing tag is read by the grammar of component names: a capital with letters and
digits, or lower-case letters with a dash and then dashes or lower-case letters. The name of a tag as it
is written goes on to the first white space, slash or `>`. The grammar may stop earlier: a tag gets its
own name back just when its whole name is a component name, and otherwise the closing tag has a name
that is too short.
-/

namespace SetupScript

namespace Markup

/-! ## Names of tags -/

/-- A character of the name of a tag. -/
def isTagNameChar (c : Char) : Bool := !Text.isBlank c && c != '/' && c != '>'

/-- The name of a tag as it is written, read off the text after its opening bracket. -/
def tagName (t : Text) : Text := t.takeWhile isTagNameChar

/-- A component name: a capital with letters and digits after it, or lower-case letters, a dash, and
dashes or lower-case letters. -/
inductive IsComponentName : Text → Prop where
  | capital {c : Char} {rest : Text} (hfirst : c.isUpper) (hrest : rest.all Char.isAlphanum) :
      IsComponentName (c :: rest)
  | dashed {lead rest : Text} (hne : lead ≠ []) (hlead : lead.all Char.isLower)
      (hrest : rest.all fun c => c == '-' || c.isLower) : IsComponentName (lead ++ '-' :: rest)

/-- Letters and digits may stand in the name of a tag. -/
theorem isTagNameChar_of_isAlphanum {c : Char} (h : c.isAlphanum) : isTagNameChar c := by
  have hsolid : Text.isBlank c = false := by
    have hclass : (c.isAlpha || c.isDigit) = true := h
    rcases Bool.or_eq_true_iff.mp hclass with halpha | hdigit
    · have hname : Text.isNameChar c := Text.isNameChar_of_isNameStart (by simp [Text.isNameStart, halpha])
      by_contra hblank
      rw [Text.isNameChar_of_isBlank (by simpa using hblank)] at hname
      cases hname
    · exact Text.isBlank_of_isDigit hdigit
  have hslash : c ≠ '/' := by
    rintro rfl
    exact absurd h (by decide)
  have hangle : c ≠ '>' := by
    rintro rfl
    exact absurd h (by decide)
  simp [isTagNameChar, hsolid, hslash, hangle]

/-- So may all characters of a component name. -/
theorem IsComponentName.all_isTagNameChar {name : Text} (h : IsComponentName name) :
    name.all isTagNameChar := by
  have hletter {c : Char} (hc : (c.isUpper || c.isLower) = true) : isTagNameChar c :=
    isTagNameChar_of_isAlphanum (Bool.or_eq_true_iff.mpr (.inl hc))
  have hlower {c : Char} (hc : c.isLower) : isTagNameChar c :=
    hletter (Bool.or_eq_true_iff.mpr (.inr hc))
  cases h with
  | capital hfirst hrest =>
    rw [List.all_cons, Bool.and_eq_true]
    refine ⟨hletter (Bool.or_eq_true_iff.mpr (.inl hfirst)), ?_⟩
    exact List.all_eq_true.mpr fun c hc => isTagNameChar_of_isAlphanum (List.all_eq_true.mp hrest c hc)
  | dashed hne hlead hrest =>
    rw [List.all_append, List.all_cons, Bool.and_eq_true, Bool.and_eq_true]
    refine ⟨List.all_eq_true.mpr fun c hc => hlower (List.all_eq_true.mp hlead c hc), by decide,
      List.all_eq_true.mpr fun c hc => ?_⟩
    have hclass := List.all_eq_true.mp hrest c hc
    simp only [Bool.or_eq_true, beq_iff_eq] at hclass
    rcases hclass with rfl | hc
    · decide
    · exact hlower hc

/-- A component name has a first character. -/
theorem IsComponentName.ne_nil {name : Text} (h : IsComponentName name) : name ≠ [] := by
  cases h with
  | capital hfirst hrest => exact List.cons_ne_nil _ _
  | dashed hne hlead hrest => simp

/-- A run of a class at the front of a text is part of the longest one. -/
theorem isPrefix_takeWhile {p : Char → Bool} {a t : Text} (ha : a.all p) (h : a <+: t) :
    a <+: t.takeWhile p := by
  obtain ⟨rest, rfl⟩ := h
  rw [List.takeWhile_append_of_pos (List.all_eq_true.mp ha)]
  exact List.prefix_append _ _

/-! ## The name that is read -/

/-- After a capital, letters and digits are read. -/
theorem componentTagName_capital {c : Char} (h : c.isUpper) (rest : Text) :
    componentTagName (c :: rest) = c :: rest.takeWhile Char.isAlphanum := by
  simp only [componentTagName, h, if_true]

/-- A lower-case letter is no capital. -/
theorem isUpper_of_isLower {c : Char} (h : c.isLower) : c.isUpper = false := by
  have hbounds : ('Z').val.toNat = 90 ∧ ('a').val.toNat = 97 := ⟨rfl, rfl⟩
  have hlower : (decide ('a'.val ≤ c.val) && decide (c.val ≤ 'z'.val)) = true := h
  simp only [Bool.and_eq_true, decide_eq_true_eq, UInt32.le_iff_toNat_le] at hlower
  refine Bool.eq_false_iff.mpr fun hc => ?_
  have hupper : decide ('A'.val ≤ c.val ∧ c.val ≤ 'Z'.val) = true := hc
  simp only [decide_eq_true_eq, UInt32.le_iff_toNat_le] at hupper
  omega

/-- Lower-case letters are read up to the dash. -/
theorem takeWhile_isLower {lead : Text} (hlead : lead.all Char.isLower) (rest : Text) :
    (lead ++ '-' :: rest).takeWhile Char.isLower = lead := by
  rw [List.takeWhile_append_of_pos (List.all_eq_true.mp hlead), List.takeWhile_cons_of_neg (by decide),
    List.append_nil]

/-- After lower-case letters and a dash, dashes and lower-case letters are read. -/
theorem componentTagName_dashed {lead : Text} (hne : lead ≠ []) (hlead : lead.all Char.isLower)
    (rest : Text) : componentTagName (lead ++ '-' :: rest) =
      lead ++ '-' :: rest.takeWhile fun c => c == '-' || c.isLower := by
  obtain ⟨c, more, rfl⟩ := List.exists_cons_of_ne_nil hne
  have hfirst : c.isUpper = false := isUpper_of_isLower (List.all_eq_true.mp hlead c List.mem_cons_self)
  have htake := takeWhile_isLower hlead rest
  rw [List.cons_append] at htake ⊢
  simp only [componentTagName, hfirst, htake]
  rw [← List.cons_append, List.drop_left]
  rfl

/-- Only a text that starts like a component name has a name that is read. -/
theorem componentTagName_cases (t : Text) :
    componentTagName t = [] ∨ (∃ c rest, t = c :: rest ∧ c.isUpper) ∨
      ∃ lead rest, t = lead ++ '-' :: rest ∧ lead ≠ [] ∧ lead.all Char.isLower := by
  cases t with
  | nil => exact .inl rfl
  | cons c rest =>
    by_cases hc : c.isUpper
    · exact .inr (.inl ⟨c, rest, rfl, hc⟩)
    · rw [componentTagName, if_neg hc]
      dsimp only
      split
      · next after hafter =>
        split
        · exact .inl rfl
        · next hlead =>
          refine .inr (.inr ⟨_, after, ?_, fun hnil => hlead (List.isEmpty_iff.mpr hnil),
            List.all_takeWhile⟩)
          rw [← hafter]
          exact (List.prefix_iff_eq_append.mp (List.takeWhile_prefix _)).symm
      · exact .inl rfl

/-- What is read is a component name, if anything, and stands at the front. -/
theorem componentTagName_spec (t : Text) :
    (componentTagName t = [] ∨ IsComponentName (componentTagName t)) ∧ componentTagName t <+: t := by
  rcases componentTagName_cases t with hnone | ⟨c, rest, rfl, hc⟩ | ⟨lead, rest, rfl, hne, hlead⟩
  · rw [hnone]
    exact ⟨.inl rfl, List.nil_prefix⟩
  · rw [componentTagName_capital hc]
    exact ⟨.inr (.capital hc List.all_takeWhile),
      List.cons_prefix_cons.mpr ⟨rfl, List.takeWhile_prefix _⟩⟩
  · rw [componentTagName_dashed hne hlead]
    exact ⟨.inr (.dashed hne hlead List.all_takeWhile),
      (List.prefix_append_right_inj lead).mpr (List.cons_prefix_cons.mpr ⟨rfl, List.takeWhile_prefix _⟩)⟩

/-- Every component name at the front is part of the one that is read. -/
theorem IsComponentName.isPrefix_componentTagName {name t : Text} (h : IsComponentName name)
    (hfront : name <+: t) : name <+: componentTagName t := by
  obtain ⟨more, rfl⟩ := hfront
  cases h with
  | @capital c rest hfirst hrest =>
    rw [List.cons_append, componentTagName_capital hfirst]
    exact List.cons_prefix_cons.mpr ⟨rfl, isPrefix_takeWhile hrest (List.prefix_append _ _)⟩
  | @dashed lead rest hne hlead hrest =>
    rw [List.append_assoc, List.cons_append, componentTagName_dashed hne hlead,
      List.prefix_append_right_inj, List.cons_prefix_cons]
    exact ⟨rfl, isPrefix_takeWhile hrest (List.prefix_append _ _)⟩

/-- What is read is part of the name as it is written. -/
theorem componentTagName_isPrefix_tagName (t : Text) : componentTagName t <+: tagName t := by
  obtain ⟨hnone | hname, hfront⟩ := componentTagName_spec t
  · rw [hnone]
    exact List.nil_prefix
  · exact isPrefix_takeWhile hname.all_isTagNameChar hfront

/-- Two texts of which each has the other at its front are one. -/
theorem eq_of_isPrefix {a b : Text} (h : a <+: b) (h' : b <+: a) : a = b :=
  h.eq_of_length_le h'.length_le

/-- What is read depends on the name as it is written only. -/
theorem componentTagName_congr {s t : Text} (h : tagName s = tagName t) :
    componentTagName s = componentTagName t := by
  have hpart {s t : Text} (h : tagName s = tagName t) : componentTagName s <+: componentTagName t := by
    obtain ⟨hnone | hname, -⟩ := componentTagName_spec s
    · rw [hnone]
      exact List.nil_prefix
    · have hwritten : componentTagName s <+: tagName t := h ▸ componentTagName_isPrefix_tagName s
      exact hname.isPrefix_componentTagName (hwritten.trans (List.takeWhile_prefix _))
  exact eq_of_isPrefix (hpart h) (hpart h.symm)

/-- The whole name as it is written is read just when it is a component name. -/
theorem componentTagName_eq_tagName_iff {t : Text} (hne : componentTagName t ≠ []) :
    componentTagName t = tagName t ↔ IsComponentName (tagName t) := by
  constructor
  · intro h
    exact h ▸ (componentTagName_spec t).1.resolve_left hne
  · intro h
    exact eq_of_isPrefix (componentTagName_isPrefix_tagName t)
      (h.isPrefix_componentTagName (List.takeWhile_prefix _))

/-- The name of a tag ends at a slash. -/
theorem tagName_append_slash (a b : Text) : tagName (a ++ '/' :: b) = tagName a := by
  unfold tagName
  induction a with
  | nil => exact List.takeWhile_cons_of_neg (by decide)
  | cons c rest ih => rw [List.cons_append, List.takeWhile_cons, List.takeWhile_cons, ih]

/-! ## Tags -/

/-- A component tag that closes itself: what stands between its opening bracket and its end. It starts
with a component name. -/
@[ext] structure ComponentTag where
  inside : Text
  open_to_end : '>' ∉ inside
  named : ∃ name, IsComponentName name ∧ name <+: inside

namespace ComponentTag

/-- The tag as it is written. -/
def text (tag : ComponentTag) : Text := '<' :: (tag.inside ++ ['/', '>'])

/-- An opening tag with what the tag holds, and a closing tag with the given name. -/
def expanded (tag : ComponentTag) (closing : Text) : Text :=
  "<" ++ Text.trimEnd tag.inside ++ "></" ++ closing ++ ">"

/-- A name is read off every component tag. -/
theorem componentTagName_ne_nil (tag : ComponentTag) : componentTagName tag.inside ≠ [] := by
  obtain ⟨name, hname, hfront⟩ := tag.named
  intro hnone
  have hpart := hname.isPrefix_componentTagName hfront
  rw [hnone, List.prefix_nil] at hpart
  exact hname.ne_nil hpart

end ComponentTag

/-- Trimming at the end leaves a name at the front. -/
theorem trimEnd_append_name {name : Text} (h : IsComponentName name) (attributes : Text) :
    Text.trimEnd (name ++ attributes) = name ++ Text.trimEnd attributes := by
  have hlast := List.dropLast_append_getLast h.ne_nil
  have hsolid := List.all_eq_true.mp h.all_isTagNameChar _ (List.getLast_mem h.ne_nil)
  simp only [isTagNameChar, Bool.and_eq_true, Bool.not_eq_true'] at hsolid
  rw [← hlast, List.append_assoc, List.append_assoc]
  exact Text.trimEnd_append_cons hsolid.1.1 _ _

/-- A tag is read up to the first closing bracket, which has a slash before it. -/
theorem selfClosing_of_parts {t name attributes left : Text} (hname : componentTagName t = name)
    (hne : name ≠ []) (ht : t = name ++ (attributes ++ '/' :: '>' :: left)) (hopen : '>' ∉ attributes) :
    Reader.selfClosing ('<' :: t) =
      some ("<" ++ name ++ Text.trimEnd attributes ++ "></" ++ name ++ ">", left) := by
  have hafter : t.drop name.length = attributes ++ '/' :: '>' :: left := by rw [ht, List.drop_left]
  have hinside : (attributes ++ '/' :: '>' :: left).takeWhile (· != '>') = attributes ++ ['/'] := by
    rw [List.takeWhile_append_of_pos fun c hc => ?_]
    · rfl
    · rw [bne_iff_ne]
      rintro rfl
      exact hopen hc
  have hrest : (attributes ++ '/' :: '>' :: left).drop (attributes ++ ['/']).length = '>' :: left := by
    rw [show attributes ++ '/' :: '>' :: left = (attributes ++ ['/']) ++ '>' :: left by simp,
      List.drop_left]
  refine Reader.bind_eq_some.mpr ⟨(), t, Reader.literal_eq_some.mpr rfl, ?_⟩
  dsimp only
  rw [hname, hafter, hinside, hrest]
  simp [hne]

/-- A tag is read off the front of every text that has one there, with the closing name that the
grammar gives. -/
theorem ComponentTag.selfClosing_text (tag : ComponentTag) (left : Text) :
    Reader.selfClosing (tag.text ++ left) =
      some (tag.expanded (componentTagName tag.inside), left) := by
  have hne := tag.componentTagName_ne_nil
  obtain ⟨hname, attributes, hinside⟩ := componentTagName_spec tag.inside
  have hread : componentTagName (tag.inside ++ '/' :: '>' :: left) = componentTagName tag.inside :=
    componentTagName_congr (tagName_append_slash _ _)
  have hopen : '>' ∉ attributes := fun hmem => tag.open_to_end (by rw [← hinside]; simp [hmem])
  have htext : tag.inside ++ '/' :: '>' :: left =
      componentTagName tag.inside ++ (attributes ++ '/' :: '>' :: left) := by
    rw [← List.append_assoc, hinside]
  have htrim := trimEnd_append_name (hname.resolve_left hne) attributes
  rw [hinside] at htrim
  rw [text, List.cons_append, List.append_assoc, expanded, htrim]
  exact selfClosing_of_parts hread hne htext hopen

/-- A text is cut behind its longest run of a class at the first character outside the class. -/
theorem cut_behind_run {p : Char → Bool} {t rest : Text} {c : Char}
    (h : t.drop (t.takeWhile p).length = c :: rest) : t = t.takeWhile p ++ c :: rest ∧ p c = false := by
  have hcut : t.takeWhile p ++ c :: rest = t := by
    rw [← h]
    exact List.prefix_iff_eq_append.mp (List.takeWhile_prefix p)
  have hdrop : t.dropWhile p = c :: rest :=
    List.append_cancel_left (List.takeWhile_append_dropWhile.trans hcut.symm)
  have hfirst := List.head?_dropWhile_not p t
  rw [hdrop] at hfirst
  exact ⟨hcut.symm, by simpa using hfirst⟩

/-- What is read off is a component tag. -/
theorem exists_tag_of_selfClosing {t value left : Text}
    (h : Reader.selfClosing t = some (value, left)) : ∃ tag : ComponentTag, t = tag.text ++ left := by
  obtain ⟨_, t, hangle, hread⟩ := Reader.bind_eq_some.mp h
  obtain rfl := Reader.literal_eq_some.mp hangle
  have hafter := List.prefix_iff_eq_append.mp (componentTagName_spec t).2
  dsimp only at hread
  generalize t.drop (componentTagName t).length = after at hread hafter
  split at hread
  · next closing rest hrest =>
    split at hread
    · next hslash =>
      obtain ⟨-, rfl⟩ := Prod.mk.inj (Option.some.inj hread)
      rw [Bool.and_eq_true, Bool.not_eq_true', List.isEmpty_eq_false_iff, beq_iff_eq] at hslash
      have hname := (componentTagName_spec t).1.resolve_left hslash.1
      obtain ⟨htext, hclosing⟩ := cut_behind_run hrest
      obtain rfl : closing = '>' := by simpa using hclosing
      obtain ⟨attributes, hattributes⟩ := List.getLast?_eq_some_iff.mp hslash.2
      have hopen : '>' ∉ componentTagName t ++ attributes := by
        rw [List.mem_append, not_or]
        refine ⟨fun hmem => ?_, fun hmem => ?_⟩
        · exact absurd (List.all_eq_true.mp hname.all_isTagNameChar _ hmem) (by decide)
        · have hrun : '>' ∈ after.takeWhile (· != '>') := by simp [hattributes, hmem]
          exact absurd (List.mem_takeWhile_imp hrun) (by decide)
      have hwhole : t = componentTagName t ++ (attributes ++ ['/'] ++ '>' :: rest) := by
        rw [← hattributes, ← htext, hafter]
      refine ⟨⟨componentTagName t ++ attributes, hopen, _, hname, List.prefix_append _ _⟩, ?_⟩
      exact (congrArg ('<' :: ·) hwhole).trans (by simp [ComponentTag.text])
    · cases hread
  · cases hread

/-- The search refuses just where no tag stands at the front. -/
theorem selfClosing_eq_none_iff {t : Text} :
    Reader.selfClosing t = none ↔ ∀ (tag : ComponentTag) (left : Text), t ≠ tag.text ++ left := by
  constructor
  · rintro hnone tag left rfl
    rw [tag.selfClosing_text] at hnone
    cases hnone
  · intro hfree
    cases hread : Reader.selfClosing t with
    | none => rfl
    | some read =>
      obtain ⟨tag, htext⟩ := exists_tag_of_selfClosing hread
      exact absurd htext (hfree tag read.2)

/-! ## The parts of markup -/

/-- A part of markup: a character outside tags, or a tag. -/
inductive Part where
  | outside (c : Char)
  | component (tag : ComponentTag)

/-- The markup falls into these parts: a tag wherever one stands, and single characters elsewhere. -/
inductive Parts : Text → List Part → Prop where
  | nil : Parts [] []
  | outside {c : Char} {rest : Text} {parts : List Part}
      (hfree : ∀ (tag : ComponentTag) (left : Text), c :: rest ≠ tag.text ++ left)
      (hrest : Parts rest parts) : Parts (c :: rest) (.outside c :: parts)
  | component {tag : ComponentTag} {rest : Text} {parts : List Part} (hrest : Parts rest parts) :
      Parts (tag.text ++ rest) (.component tag :: parts)

/-- What becomes of a part when tags are closed with the names that are given. -/
def Part.expanded (closing : ComponentTag → Text) : Part → Text
  | outside c => [c]
  | component tag => tag.expanded (closing tag)

/-- Every markup falls into parts. -/
theorem exists_parts (markup : Text) : ∃ parts, Parts markup parts := by
  induction hsize : markup.length using Nat.strongRecOn generalizing markup with
  | ind size ih =>
    by_cases htag : ∃ (tag : ComponentTag) (left : Text), markup = tag.text ++ left
    · obtain ⟨tag, left, rfl⟩ := htag
      have hshorter : left.length < size := by
        rw [← hsize, ComponentTag.text, List.cons_append, List.length_cons, List.length_append]
        omega
      obtain ⟨parts, hparts⟩ := ih left.length hshorter left rfl
      exact ⟨_, .component hparts⟩
    · cases markup with
      | nil => exact ⟨[], .nil⟩
      | cons c rest =>
        obtain ⟨parts, hparts⟩ := ih rest.length (by rw [← hsize, List.length_cons]; omega) rest rfl
        exact ⟨_, .outside (fun tag left htext => htag ⟨tag, left, htext⟩) hparts⟩

/-- One text has one tag at its front at most. -/
theorem ComponentTag.append_inj {tag tag' : ComponentTag} {left left' : Text}
    (h : tag.text ++ left = tag'.text ++ left') : tag = tag' ∧ left = left' := by
  have hrun (tag : ComponentTag) : (tag.inside ++ ['/']).all (· != '>') := by
    refine List.all_eq_true.mpr fun c hc => bne_iff_ne.mpr ?_
    rintro rfl
    exact tag.open_to_end (by simpa using hc)
  have hend (tag : ComponentTag) (left : Text) :
      tag.text ++ left = '<' :: (tag.inside ++ ['/'] ++ '>' :: left) := by simp [text]
  rw [hend, hend, List.cons.injEq] at h
  -- both tags end at the first closing bracket
  have hinside := (Text.cut_unique (hrun tag) (hrun tag') rfl rfl h.2).1
  rw [hinside, List.append_cancel_left_eq, List.cons.injEq] at h
  exact ⟨ComponentTag.ext (List.append_cancel_right hinside), h.2.2⟩

namespace Parts

variable {c : Char} {tag : ComponentTag} {markup rest : Text} {parts : List Part}

/-- A character where no tag stands is a part. -/
theorem of_outside (hfree : ∀ (tag : ComponentTag) (left : Text), c :: rest ≠ tag.text ++ left)
    (h : Parts (c :: rest) parts) : ∃ more, parts = .outside c :: more ∧ Parts rest more := by
  generalize hmarkup : c :: rest = markup at h
  cases h with
  | nil => cases hmarkup
  | outside _ hrest =>
    obtain ⟨rfl, rfl⟩ := List.cons.inj hmarkup
    exact ⟨_, rfl, hrest⟩
  | component hrest => exact absurd hmarkup (hfree _ _)

/-- A tag at the front is a part. -/
theorem of_component (h : Parts (tag.text ++ rest) parts) :
    ∃ more, parts = .component tag :: more ∧ Parts rest more := by
  generalize hmarkup : tag.text ++ rest = markup at h
  cases h with
  | nil => cases hmarkup
  | outside hfree _ => exact absurd hmarkup.symm (hfree _ _)
  | component hrest =>
    obtain ⟨rfl, rfl⟩ := ComponentTag.append_inj hmarkup
    exact ⟨_, rfl, hrest⟩

/-- Markup falls into parts in one way only. -/
theorem unique (h : Parts markup parts) {others : List Part} (h' : Parts markup others) :
    others = parts := by
  induction h generalizing others with
  | nil =>
    generalize hmarkup : ([] : Text) = markup at h'
    cases h' with
    | nil => rfl
    | outside _ _ => cases hmarkup
    | component _ => cases hmarkup
  | outside hfree hrest ih =>
    obtain ⟨more, rfl, hmore⟩ := of_outside hfree h'
    rw [ih hmore]
  | component hrest ih =>
    obtain ⟨more, rfl, hmore⟩ := of_component h'
    rw [ih hmore]

/-- Expanding goes part by part. -/
theorem expanded (h : Parts markup parts) : expandSelfClosing markup =
    parts.flatMap (Part.expanded fun tag => componentTagName tag.inside) := by
  induction h with
  | nil => rfl
  | @outside c rest parts hfree hrest ih =>
    rw [expandSelfClosing, Text.replaceAll_refused (selfClosing_eq_none_iff.mpr hfree), List.flatMap_cons]
    exact congrArg (c :: ·) ih
  | @component tag rest parts hrest ih =>
    have hne : tag.text ≠ [] := List.cons_ne_nil _ _
    rw [expandSelfClosing, Text.replaceAll_read hne (tag.selfClosing_text rest), List.flatMap_cons]
    exact congrArg (tag.expanded (componentTagName tag.inside) ++ ·) ih

end Parts

/-! ## Closing names -/

/-- Texts made part by part, where no part is longer on one side, agree just when all parts do. -/
theorem flatMap_eq_iff {f g : Part → Text} {parts : List Part}
    (h : ∀ part ∈ parts, (f part).length ≤ (g part).length) :
    parts.flatMap f = parts.flatMap g ↔ ∀ part ∈ parts, f part = g part := by
  refine ⟨fun heq => ?_, fun heq => List.flatMap_congr heq⟩
  have hle {parts : List Part} (h : ∀ part ∈ parts, (f part).length ≤ (g part).length) :
      (parts.flatMap f).length ≤ (parts.flatMap g).length := by
    induction parts with
    | nil => exact Nat.le_refl _
    | cons part rest ih =>
      obtain ⟨hpart, hrest⟩ := List.forall_mem_cons.mp h
      have := ih hrest
      simp only [List.flatMap_cons, List.length_append]
      omega
  induction parts with
  | nil => simp
  | cons part rest ih =>
    obtain ⟨hpart, hrest⟩ := List.forall_mem_cons.mp h
    have hlater := hle hrest
    rw [List.flatMap_cons, List.flatMap_cons] at heq
    have hlength := congrArg List.length heq
    rw [List.length_append, List.length_append] at hlength
    obtain ⟨hfirst, hmore⟩ := List.append_inj heq (by omega)
    exact List.forall_mem_cons.mpr ⟨hfirst, ih hrest hmore⟩

/-- A tag is closed with one name just as with another when the two are the same. -/
theorem ComponentTag.expanded_inj (tag : ComponentTag) {name name' : Text} :
    tag.expanded name = tag.expanded name' ↔ name = name' := by
  simp [expanded]

/-- Markup falls into component tags that close themselves and characters outside them in one way.
Expanding keeps the characters outside, and closes each tag with a name that its own name starts with.
The name is the whole one just when that is a component name. So every tag is closed with the name it
was opened with exactly when the names of all of them, as they are written, are component names. -/
theorem expansion_closes_tags_iff (markup : Text) :
    ∃ parts, Parts markup parts ∧ (∀ others, Parts markup others → others = parts) ∧
      expandSelfClosing markup =
        parts.flatMap (Part.expanded fun tag => componentTagName tag.inside) ∧
      (∀ tag, .component tag ∈ parts → componentTagName tag.inside <+: tagName tag.inside ∧
        (componentTagName tag.inside = tagName tag.inside ↔ IsComponentName (tagName tag.inside))) ∧
      (expandSelfClosing markup = parts.flatMap (Part.expanded fun tag => tagName tag.inside) ↔
        ∀ tag, .component tag ∈ parts → IsComponentName (tagName tag.inside)) := by
  obtain ⟨parts, hparts⟩ := exists_parts markup
  have hwhole (tag : ComponentTag) : componentTagName tag.inside = tagName tag.inside ↔
      IsComponentName (tagName tag.inside) := componentTagName_eq_tagName_iff tag.componentTagName_ne_nil
  refine ⟨parts, hparts, fun others => hparts.unique, hparts.expanded,
    fun tag _ => ⟨componentTagName_isPrefix_tagName tag.inside, hwhole tag⟩, ?_⟩
  rw [hparts.expanded, flatMap_eq_iff]
  · constructor
    · intro hsame tag htag
      exact (hwhole tag).mp (tag.expanded_inj.mp (hsame _ htag))
    · intro hnames part hpart
      cases part with
      | outside c => rfl
      | component tag => exact tag.expanded_inj.mpr ((hwhole tag).mpr (hnames tag hpart))
  · intro part hpart
    cases part with
    | outside c => exact Nat.le_refl _
    | component tag =>
      have hname := (componentTagName_isPrefix_tagName tag.inside).length_le
      simp only [Part.expanded, ComponentTag.expanded, List.length_append]
      omega

/-- A component tag with a digit at the end of a name with a dash. -/
def numberedTag : ComponentTag where
  inside := "my-comp2"
  open_to_end := by decide
  named := ⟨['m', 'y'] ++ '-' :: "comp".toList, .dashed (by decide) (by decide) (by decide), by decide⟩

/-- It is the whole of its markup, and is not closed with the name it was opened with. -/
theorem closing_name_without_digit :
    Parts numberedTag.text [.component numberedTag] ∧ tagName numberedTag.inside = "my-comp2".toList ∧
      expandSelfClosing numberedTag.text = "<my-comp2></my-comp>".toList ∧
      expandSelfClosing numberedTag.text ≠
        [Part.component numberedTag].flatMap (Part.expanded fun tag => tagName tag.inside) := by
  have hparts : Parts (numberedTag.text ++ []) [.component numberedTag] := .component .nil
  rw [List.append_nil] at hparts
  exact ⟨hparts, by decide, by decide, by decide⟩

end Markup

end SetupScript
