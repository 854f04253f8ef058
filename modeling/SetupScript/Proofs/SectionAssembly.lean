import SetupScript.Proofs.TagSearch

/-!
# Files put together from sections

A component file is written section by section, with text between the sections that holds no angle
bracket. Splitting such a file gives the sections back: the template up to its own closing tag,
whatever tags it holds, and scripts and styles from what is left when the template is cut out. Where
the two ends meet no tag arises, since neither holds an angle bracket next to the cut.
-/

namespace SetupScript

/-- A section as it is written: what follows the name in its opening tag, and its content. -/
structure WrittenSection where
  kind : SectionKind
  attributes : Text
  content : Text

namespace WrittenSection

/-- The opening tag of a section. -/
def opening (part : WrittenSection) : Text := "<" ++ part.kind.tag ++ part.attributes ++ ">"

/-- The closing tag of a section. -/
def closing (part : WrittenSection) : Text := "</" ++ part.kind.tag ++ ">"

/-- A section between its tags. -/
def text (part : WrittenSection) : Text := part.opening ++ part.content ++ part.closing

/-- The attribute text as it is read: none when it is empty. -/
def attributes? (part : WrittenSection) : Option Text :=
  if part.attributes.isEmpty then none else some part.attributes

/-- Attributes are set off by a blank and hold no angle brackets, and no tag of a section begins in the
content of a script or style. -/
structure WellFormed (part : WrittenSection) : Prop where
  blank : part.attributes.head?.all Text.isBlank
  unmarked : '<' ∉ part.attributes ∧ '>' ∉ part.attributes
  content : part.kind ≠ .template → ∀ kind, ¬ BeginsTag kind part.content

/-- What a search for sections gives: the attributes as they are read, and the content. -/
def found (part : WrittenSection) : Option Text × Text := (part.attributes?, part.content)

variable {part : WrittenSection}

/-- Whether an attribute is there does not depend on how empty attributes are read. -/
theorem hasAttribute_attributes? (part : WrittenSection) (name : Text) :
    hasAttribute part.attributes? name = hasAttribute (some part.attributes) name := by
  unfold attributes?
  split
  · next hempty => rw [List.isEmpty_iff.mp hempty]; rfl
  · rfl

/-! ## Reading a section -/

/-- The opening tag is read with its attributes. -/
theorem openTag_opening (h : part.WellFormed) (rest : Text) :
    Reader.openTag part.kind.tag (part.opening ++ rest) = some (part.attributes?, rest) := by
  have hopening : part.opening ++ rest =
      "<" ++ (part.kind.tag ++ (part.attributes ++ '>' :: rest)) := by
    simp only [opening, List.append_assoc]
    rfl
  rw [hopening]
  refine Reader.bind_eq_some.mpr ⟨(), _, Reader.literal_eq_some.mpr rfl, ?_⟩
  refine Reader.bind_eq_some.mpr ⟨(), _, Reader.folded_eq_some.mpr ⟨_, rfl, part.kind.spelledAs_tag⟩, ?_⟩
  obtain ⟨hblank, ⟨-, hend⟩, -⟩ := h
  cases hattributes : part.attributes with
  | nil => simp [attributes?, hattributes]
  | cons c more =>
    rw [hattributes] at hblank hend
    simp only [List.mem_cons, not_or] at hend
    have hmore : ∀ d ∈ more, (d != '>') = true := by
      intro d hd
      simp only [bne_iff_ne]
      rintro rfl
      exact hend.2 hd
    have hc : Text.isBlank c = true := by simpa using hblank
    simp [attributes?, hattributes, Ne.symm hend.1, hc, List.dropWhile_append_of_pos hmore,
      List.takeWhile_append_of_pos hmore]

/-- The closing tag is read whatever follows it. -/
theorem closeTag_closing (part : WrittenSection) (rest : Text) :
    Reader.closeTag part.kind.tag (part.closing ++ rest) = some ((), rest) := by
  have hclosing : part.closing ++ rest = "</" ++ (part.kind.tag ++ '>' :: rest) := by
    simp only [closing, List.append_assoc]
    rfl
  rw [hclosing]
  refine Reader.bind_eq_some.mpr ⟨(), _, Reader.literal_eq_some.mpr rfl, ?_⟩
  refine Reader.bind_eq_some.mpr ⟨(), _, Reader.folded_eq_some.mpr ⟨_, rfl, part.kind.spelledAs_tag⟩, ?_⟩
  exact Reader.bind_eq_some.mpr ⟨(), '>' :: rest,
    Reader.blanks_eq_some.mpr ⟨[], rfl, rfl, rfl⟩, Reader.literal_eq_some.mpr rfl⟩

/-- A section in whose content no tag of its kind begins is read as a whole. -/
theorem block_text (h : part.WellFormed) (hcontent : ¬ BeginsTag part.kind part.content) (rest : Text) :
    Reader.block part.kind.tag (part.text ++ rest) =
      some (part.found, rest) := by
  have hfree : TagFree "</" part.kind part.content (part.closing ++ rest) :=
    .of_not_beginsTag (by decide) hcontent rfl
  rw [text, List.append_assoc, List.append_assoc]
  refine Reader.bind_eq_some.mpr ⟨part.attributes?, _, openTag_opening h _, ?_⟩
  refine Reader.bind_eq_some.mpr ⟨part.content, rest, ?_, Reader.pure_eq_some.mpr ⟨rfl, rfl⟩⟩
  exact Reader.upTo_eq_some (fun k hk => Reader.closeTag_eq_none (hfree k hk))
    (part.closeTag_closing rest)

/-! ## Passing over a section -/

/-- A tag of one kind begins with no tag of another. -/
theorem tagStart_other {mark mark' : Text} (hmark : mark ∈ tagMarks) (hmark' : mark' ∈ tagMarks)
    {kind other : SectionKind} (hne : kind ≠ other) (rest : Text) :
    Reader.tagStart mark kind.tag (mark' ++ (other.tag ++ rest)) = none := by
  simp only [tagMarks, List.mem_cons, List.not_mem_nil, or_false] at hmark hmark'
  cases kind <;> cases other
  case template.template => exact absurd rfl hne
  case script.script => exact absurd rfl hne
  case style.style => exact absurd rfl hne
  all_goals rcases hmark with rfl | rfl <;> rcases hmark' with rfl | rfl <;> rfl

/-- No tag of a kind begins in a tag of another. -/
theorem tagFree_tag {mark mark' : Text} (hmark : mark ∈ tagMarks) (hmark' : mark' ∈ tagMarks)
    {kind other : SectionKind} (hne : kind ≠ other) {more : Text} (hmore : '<' ∉ more) (rest : Text) :
    TagFree mark kind (mark' ++ (other.tag ++ more)) rest := by
  obtain ⟨slash, rfl, hslash⟩ : ∃ slash, mark' = '<' :: slash ∧ '<' ∉ slash := by
    simp only [tagMarks, List.mem_cons, List.not_mem_nil, or_false] at hmark'
    rcases hmark' with rfl | rfl
    · exact ⟨[], rfl, by decide⟩
    · exact ⟨['/'], rfl, by decide⟩
  have hfirst : TagFree mark kind ['<'] ((slash ++ (other.tag ++ more)) ++ rest) := by
    intro k hk
    obtain rfl : k = 0 := by simpa using hk
    have hnone := tagStart_other hmark hmark' hne (more ++ rest)
    simpa only [List.drop_zero, List.append_assoc, List.cons_append, List.nil_append] using hnone
  have hlater : '<' ∉ slash ++ (other.tag ++ more) := by
    simp only [List.mem_append, not_or]
    exact ⟨hslash, other.spelledAs_tag.not_mem, hmore⟩
  exact hfirst.append (.of_no_bracket hmark hlater)

/-- No tag of a kind begins in a section of another kind whose content holds none. -/
theorem tagFree_text {mark : Text} (hmark : mark ∈ tagMarks) {kind : SectionKind}
    (h : part.WellFormed) (hne : kind ≠ part.kind) (hcontent : ¬ BeginsTag kind part.content)
    (rest : Text) : TagFree mark kind part.text rest := by
  have hopening (rest : Text) : TagFree mark kind part.opening rest := by
    have hmore : '<' ∉ part.attributes ++ ">" := by
      simp only [List.mem_append, not_or]
      exact ⟨h.unmarked.1, by decide⟩
    have hfree : TagFree mark kind ("<" ++ (part.kind.tag ++ (part.attributes ++ ">"))) rest :=
      tagFree_tag hmark (by decide) hne hmore rest
    simpa only [opening, List.append_assoc] using hfree
  have hclosing (rest : Text) : TagFree mark kind part.closing rest := by
    have hfree : TagFree mark kind ("</" ++ (part.kind.tag ++ ">")) rest :=
      tagFree_tag hmark (by decide) hne (by decide) rest
    simpa only [closing, List.append_assoc] using hfree
  exact ((hopening _).append (.of_not_beginsTag hmark hcontent rfl)).append (hclosing rest)

end WrittenSection

/-! ## Searching a file for sections -/

/-- Sections one after the other, each with the text that follows it. -/
def assembled (parts : List (WrittenSection × Text)) : Text :=
  parts.flatMap fun part => part.1.text ++ part.2

/-- The sections of a kind, in their order. -/
def sectionsOfKind (kind : SectionKind) (parts : List (WrittenSection × Text)) : List WrittenSection :=
  (parts.map Prod.fst).filter fun part => part.kind = kind

theorem sectionsOfKind_cons (kind : SectionKind) (part : WrittenSection × Text)
    (more : List (WrittenSection × Text)) :
    sectionsOfKind kind (part :: more) =
      (if part.1.kind = kind then [part.1] else []) ++ sectionsOfKind kind more := by
  by_cases hsame : part.1.kind = kind
  · simp [sectionsOfKind, hsame]
  · simp [sectionsOfKind, hsame]

theorem sectionsOfKind_append (kind : SectionKind) (before after : List (WrittenSection × Text)) :
    sectionsOfKind kind (before ++ after) = sectionsOfKind kind before ++ sectionsOfKind kind after := by
  simp [sectionsOfKind]

theorem sectionsOfKind_eq_nil {kind : SectionKind} {parts : List (WrittenSection × Text)} :
    sectionsOfKind kind parts = [] ↔ ∀ part ∈ parts, part.1.kind ≠ kind := by
  simp [sectionsOfKind]

/-- A well-formed script or style, with a text after it that holds no angle bracket. -/
structure StandsOutside (part : WrittenSection × Text) : Prop where
  wellFormed : part.1.WellFormed
  not_template : part.1.kind ≠ .template
  gap_unmarked : '<' ∉ part.2

/-- The sections of a kind that a search finds: their attributes and contents. -/
def foundSections (kind : SectionKind) (t : Text) : List (Option Text × Text) :=
  (Text.findAll Text.anywhere (Reader.block kind.tag) t).map Text.Match.value

/-- What a search finds does not depend on where it stands. -/
theorem map_value_moved (kind : SectionKind) (d : Nat) (t : Text) :
    ((Text.findAll Text.anywhere (Reader.block kind.tag) t).map (Text.Match.moved d)).map
      Text.Match.value = foundSections kind t := by
  rw [List.map_map]
  rfl

/-- A search for sections passes over a text in which no tag of the kind begins. -/
theorem foundSections_append {kind : SectionKind} {t rest : Text} (h : TagFree "<" kind t rest) :
    foundSections kind (t ++ rest) = foundSections kind rest := by
  rw [foundSections, Text.findAll_lead fun k hk => Reader.block_eq_none (h k hk), map_value_moved]

/-- A script or style is found by the search for its kind and by no other. -/
theorem foundSections_text {part : WrittenSection} (h : part.WellFormed) (hkind : part.kind ≠ .template)
    (kind : SectionKind) (rest : Text) :
    foundSections kind (part.text ++ rest) =
      (if part.kind = kind then [part.found] else []) ++ foundSections kind rest := by
  have hcontent := h.content hkind
  split
  · next hsame =>
    subst hsame
    have hne : part.text ≠ [] := List.cons_ne_nil '<' _
    rw [foundSections, Text.findAll_read hne (part.block_text h (hcontent _) rest), List.map_cons,
      map_value_moved, List.singleton_append]
  · next hother =>
    exact foundSections_append
      (part.tagFree_text (by decide) h (Ne.symm hother) (hcontent kind) rest)

/-- Assembled scripts and styles are found in their order, and the search goes on after them. -/
theorem foundSections_assembled_append {parts : List (WrittenSection × Text)}
    (hparts : ∀ part ∈ parts, StandsOutside part) (kind : SectionKind) (rest : Text) :
    foundSections kind (assembled parts ++ rest) =
      (sectionsOfKind kind parts).map WrittenSection.found ++ foundSections kind rest := by
  induction parts with
  | nil => rfl
  | cons part more ih =>
    obtain ⟨hpart, hmore⟩ := List.forall_mem_cons.mp hparts
    have hcons : assembled (part :: more) ++ rest =
        part.1.text ++ (part.2 ++ (assembled more ++ rest)) := by
      simp only [assembled, List.flatMap_cons, List.append_assoc]
    rw [hcons, foundSections_text hpart.wellFormed hpart.not_template,
      foundSections_append (.of_no_bracket (by decide) hpart.gap_unmarked), ih hmore,
      sectionsOfKind_cons, List.map_append, List.append_assoc, apply_ite (List.map _)]
    rfl

/-- Assembled scripts and styles are found in their order. -/
theorem foundSections_assembled {parts : List (WrittenSection × Text)}
    (hparts : ∀ part ∈ parts, StandsOutside part) (kind : SectionKind) :
    foundSections kind (assembled parts) = (sectionsOfKind kind parts).map WrittenSection.found := by
  have hend : foundSections kind [] = [] := by cases kind <;> rfl
  have hfound := foundSections_assembled_append hparts kind []
  rwa [List.append_nil, hend, List.append_nil] at hfound

/-- No tag of a template begins in assembled scripts and styles. -/
theorem tagFree_assembled {mark : Text} (hmark : mark ∈ tagMarks)
    {parts : List (WrittenSection × Text)} (hparts : ∀ part ∈ parts, StandsOutside part) (rest : Text) :
    TagFree mark .template (assembled parts) rest := by
  induction parts with
  | nil => exact fun k hk => absurd hk (Nat.not_lt_zero k)
  | cons part more ih =>
    obtain ⟨⟨hpart, hkind, hgap⟩, hmore⟩ := List.forall_mem_cons.mp hparts
    exact ((part.1.tagFree_text hmark hpart (Ne.symm hkind) (hpart.content hkind _) _).append
      (.of_no_bracket hmark hgap)).append (ih hmore)

/-! ## The template -/

/-- A closing tag is no shorter than its mark. -/
theorem Reader.length_lt_of_closeTag {name t left : Text} {u : Unit}
    (h : Reader.closeTag name t = some (u, left)) : left.length < t.length := by
  obtain ⟨spelled, gap, rfl, -⟩ := Reader.closeTag_eq_some h
  simp only [List.length_append]
  have : 0 < ("</" : Text).length := by decide
  omega

/-- A closing tag of a template that starts before an angle bracket ends before it. -/
theorem stop_le_of_closeTag {a b : Text} (hb : b.head? = some '<') {found : Text.Match Unit}
    (hfound : found ∈ Text.findAll Text.anywhere (Reader.closeTag SectionKind.template.tag) (a ++ b))
    (hstart : found.start < a.length) : found.stop ≤ a.length := by
  obtain ⟨left, -, hread, hstop⟩ := Text.mem_findAll hfound
  obtain ⟨spelled, gap, htext, hspelled, hgap⟩ := Reader.closeTag_eq_some hread
  have hblank : '<' ∉ gap := fun hmem => absurd (List.all_eq_true.mp hgap _ hmem) (by decide)
  have hlater : '<' ∉ '/' :: (spelled ++ gap ++ ">") := by
    simp only [List.mem_cons, List.mem_append, not_or]
    exact ⟨by decide, ⟨hspelled.not_mem, hblank⟩, by decide⟩
  have htaken : (a ++ b).drop found.start = '<' :: (('/' :: (spelled ++ gap ++ ">")) ++ left) := by
    rw [htext]
    simp only [List.append_assoc, List.cons_append]
    rfl
  have hlength : found.stop = found.start + 1 + ('/' :: (spelled ++ gap ++ ">")).length := by
    rw [hstop, htaken, List.length_cons, List.length_append]
    omega
  -- otherwise the angle bracket is a later character of the tag
  by_contra hpast
  have hat : (a ++ b)[a.length]? = some '<' := by
    rw [List.getElem?_append_right (Nat.le_refl _), Nat.sub_self, ← List.head?_eq_getElem?, hb]
  obtain ⟨i, hi⟩ := Nat.exists_eq_add_of_lt hstart
  rw [hi, Nat.add_assoc, ← List.getElem?_drop, htaken, List.getElem?_cons_succ,
    List.getElem?_append_left (by omega)] at hat
  exact hlater (List.mem_of_getElem? hat)

/-- The last closing tag of a template after any content is the one that follows the content. -/
theorem getLast?_closeTag {part : WrittenSection} (hkind : part.kind = .template) {post : Text}
    (hpost : TagFree "</" .template post []) :
    (Text.findAll Text.anywhere (Reader.closeTag SectionKind.template.tag)
        (part.content ++ (part.closing ++ post))).getLast? =
      some ⟨part.content.length, part.content.length + part.closing.length, ()⟩ := by
  have hread : Reader.closeTag SectionKind.template.tag
      ((part.content ++ (part.closing ++ post)).drop part.content.length) = some ((), post) := by
    rw [List.drop_left, ← hkind]
    exact part.closeTag_closing post
  have hmem := Text.mem_findAll_of_read (fun _ _ _ => Reader.length_lt_of_closeTag) rfl hread
    fun found hfound hstart => stop_le_of_closeTag rfl hfound hstart
  rw [List.drop_left, List.length_append, Nat.add_sub_cancel] at hmem
  refine Text.getLast?_of_greatest ((Text.pairwise_findAll _).imp And.left) hmem fun other hother => ?_
  -- no closing tag begins past the angle bracket of this one
  by_contra hlater
  obtain ⟨left, hlt, hread', -⟩ := Text.mem_findAll hother
  obtain ⟨i, hi⟩ := Nat.exists_eq_add_of_lt (Nat.lt_of_not_le hlater)
  obtain ⟨more, hmore, hfree⟩ : ∃ more, part.closing = '<' :: more ∧ '<' ∉ more :=
    ⟨'/' :: (part.kind.tag ++ ">"), rfl, by rw [hkind]; decide⟩
  have htail : TagFree "</" .template (more ++ post) [] :=
    (TagFree.of_no_bracket (by decide) hfree).append hpost
  have hdrop : (part.content ++ (part.closing ++ post)).drop other.start = (more ++ post).drop i := by
    rw [hi, Nat.add_assoc, ← List.drop_drop, List.drop_left, hmore, List.cons_append, List.drop_succ_cons]
  have hnone := htail i (by
    rw [hi, hmore] at hlt
    simp only [List.length_append, List.length_cons] at hlt ⊢
    omega)
  rw [List.append_nil] at hnone
  rw [hdrop, Reader.closeTag_eq_none hnone] at hread'
  cases hread'

/-- The template of a file is the section that was written, whatever it contains. -/
theorem templateExtent?_template {part : WrittenSection} (h : part.WellFormed)
    (hkind : part.kind = .template) {pre post : Text}
    (hpre : TagFree "<" .template pre (part.text ++ post)) (hpost : TagFree "</" .template post []) :
    templateExtent? (pre ++ (part.text ++ post)) =
      some ⟨pre.length, pre.length + part.opening.length,
        pre.length + part.opening.length + part.content.length, pre.length + part.text.length⟩ := by
  have htext : part.text ++ post = part.opening ++ (part.content ++ (part.closing ++ post)) := by
    simp only [WrittenSection.text, List.append_assoc]
  have hread := part.openTag_opening h (part.content ++ (part.closing ++ post))
  rw [hkind] at hread
  have hne : part.opening ≠ [] := List.cons_ne_nil '<' _
  have hopening : (Text.findAll Text.anywhere (Reader.openTag SectionKind.template.tag)
      (pre ++ (part.text ++ post))).head? =
        some ⟨pre.length, pre.length + part.opening.length, part.attributes?⟩ := by
    rw [Text.findAll_lead fun k hk => Reader.openTag_eq_none (hpre k hk), htext,
      Text.findAll_read hne hread, List.map_cons, List.head?_cons, Text.Match.moved, Nat.zero_add,
      Nat.add_comm part.opening.length]
  have hdrop : (pre ++ (part.text ++ post)).drop (pre.length + part.opening.length) =
      part.content ++ (part.closing ++ post) := by
    rw [List.drop_length_add_append, htext, List.drop_left]
  have hwidth : part.text.length =
      part.opening.length + (part.content.length + part.closing.length) := by
    simp only [WrittenSection.text, List.length_append, Nat.add_assoc]
  have hclosing := getLast?_closeTag hkind hpost
  rw [← hdrop] at hclosing
  refine Option.bind_eq_some_iff.mpr ⟨_, hopening, Option.bind_eq_some_iff.mpr ⟨_, hclosing, ?_⟩⟩
  rw [hwidth, ← Nat.add_assoc pre.length]
  rfl

/-- Without an opening tag there is no template. -/
theorem templateExtent?_eq_none {t : Text} (h : TagFree "<" .template t []) :
    templateExtent? t = none := by
  have hnone : Text.findAll Text.anywhere (Reader.openTag SectionKind.template.tag) t = [] := by
    have hlead := Text.findAll_lead fun k hk => Reader.openTag_eq_none (h k hk)
    rwa [List.append_nil] at hlead
  exact Option.bind_eq_none_iff.mpr fun opening hopening => by
    cases (congrArg List.head? hnone).symm.trans hopening

/-- What is left of a file when its template is cut out. -/
def outsideTemplate (source : Text) : Text :=
  match templateExtent? source with
  | some e => source.take e.start ++ source.drop e.stop
  | none => source

/-- Scripts and styles are those found outside the template. -/
theorem Sections.ofSource_eq (source : Text) :
    Sections.ofSource source =
      { template := (templateExtent? source).map fun e =>
          expandSelfClosing (source.slice e.innerStart e.innerStop)
        script := (foundSections .script (outsideTemplate source)).head?.map fun found =>
          Sections.scriptBlock found.1 found.2
        styles := (foundSections .style (outsideTemplate source)).map fun found =>
          ⟨found.2, hasAttribute found.1 "scoped"⟩ } := by
  simp only [foundSections, List.head?_map, Option.map_map, List.map_map]
  rfl

/-! ## Splitting what was assembled -/

/-- A component file as it is written: sections with texts around them that hold no angle bracket, of
which one is a script and at most one a template. -/
structure ComponentFile where
  lead : Text
  parts : List (WrittenSection × Text)
  lead_unmarked : '<' ∉ lead
  gap_unmarked : ∀ part ∈ parts, '<' ∉ part.2
  wellFormed : ∀ part ∈ parts, part.1.WellFormed
  one_script : (sectionsOfKind .script parts).length = 1
  one_template : (sectionsOfKind .template parts).length ≤ 1

namespace ComponentFile

variable (file : ComponentFile)

/-- The text of a component file. -/
def text : Text := file.lead ++ assembled file.parts

/-- Sections of the file of which none is a template. -/
theorem standsOutside_of_subset {parts : List (WrittenSection × Text)} (hsub : parts ⊆ file.parts)
    (hnone : sectionsOfKind .template parts = []) : ∀ part ∈ parts, StandsOutside part := by
  intro part hpart
  exact ⟨file.wellFormed part (hsub hpart), sectionsOfKind_eq_nil.mp hnone part hpart,
    file.gap_unmarked part (hsub hpart)⟩

/-- A file around its template: scripts and styles on either side of it. -/
structure Around (before : List (WrittenSection × Text)) (part : WrittenSection) (gap : Text)
    (after : List (WrittenSection × Text)) : Prop where
  parts_eq : file.parts = before ++ (part, gap) :: after
  kind_eq : part.kind = .template
  wellFormed : part.WellFormed
  gap_unmarked : '<' ∉ gap
  before_outside : ∀ part ∈ before, StandsOutside part
  after_outside : ∀ part ∈ after, StandsOutside part

/-- A file has no template, or scripts and styles on either side of one. -/
theorem template_cases :
    (∀ part ∈ file.parts, StandsOutside part) ∨
      ∃ before part gap after, file.Around before part gap after := by
  rcases Classical.em (∀ part ∈ file.parts, part.1.kind ≠ .template) with hnone | hsome
  · exact .inl (file.standsOutside_of_subset (List.Subset.refl _) (sectionsOfKind_eq_nil.mpr hnone))
  · push Not at hsome
    obtain ⟨⟨part, gap⟩, hmem, hkind⟩ := hsome
    obtain ⟨before, after, hparts⟩ := List.append_of_mem hmem
    have hone := file.one_template
    rw [hparts, sectionsOfKind_append, sectionsOfKind_cons, if_pos hkind] at hone
    simp only [List.length_append, List.length_singleton] at hone
    have hbefore : sectionsOfKind .template before = [] := List.eq_nil_of_length_eq_zero (by omega)
    have hafter : sectionsOfKind .template after = [] := List.eq_nil_of_length_eq_zero (by omega)
    refine .inr ⟨before, part, gap, after, hparts, hkind, file.wellFormed _ hmem,
      file.gap_unmarked _ hmem, file.standsOutside_of_subset ?_ hbefore,
      file.standsOutside_of_subset ?_ hafter⟩
    · exact hparts ▸ List.subset_append_left before _
    · exact hparts ▸ List.Subset.trans (List.subset_cons_self _ after) (List.subset_append_right before _)

/-- A file without a template has none to find. -/
theorem templateExtent?_of_outside (hall : ∀ part ∈ file.parts, StandsOutside part) :
    templateExtent? file.text = none :=
  templateExtent?_eq_none <| (TagFree.of_no_bracket (by decide) file.lead_unmarked).append
    (tagFree_assembled (by decide) hall [])

section

variable {file} {before after : List (WrittenSection × Text)} {part : WrittenSection} {gap : Text}

theorem Around.text_eq (h : file.Around before part gap after) :
    file.text = (file.lead ++ assembled before) ++ (part.text ++ (gap ++ assembled after)) := by
  simp only [text, h.parts_eq, assembled, List.flatMap_append, List.flatMap_cons, List.append_assoc]

/-- The sections of a kind are those before the template, the template and those after it. -/
theorem Around.sectionsOfKind_eq (h : file.Around before part gap after) (kind : SectionKind) :
    sectionsOfKind kind file.parts =
      sectionsOfKind kind before ++
        ((if part.kind = kind then [part] else []) ++ sectionsOfKind kind after) := by
  rw [h.parts_eq, sectionsOfKind_append, sectionsOfKind_cons]

/-- The template of a file is found where it was put. -/
theorem Around.templateExtent?_eq (h : file.Around before part gap after) :
    templateExtent? file.text =
      some ⟨(file.lead ++ assembled before).length,
        (file.lead ++ assembled before).length + part.opening.length,
        (file.lead ++ assembled before).length + part.opening.length + part.content.length,
        (file.lead ++ assembled before).length + part.text.length⟩ := by
  rw [h.text_eq]
  refine templateExtent?_template h.wellFormed h.kind_eq ?_ ?_
  · exact (TagFree.of_no_bracket (by decide) file.lead_unmarked).append
      (tagFree_assembled (by decide) h.before_outside _)
  · exact (TagFree.of_no_bracket (by decide) h.gap_unmarked).append
      (tagFree_assembled (by decide) h.after_outside [])

/-- Cutting the template out joins the text before it to the gap after it. -/
theorem Around.outsideTemplate_eq (h : file.Around before part gap after) :
    outsideTemplate file.text = file.lead ++ (assembled before ++ (gap ++ assembled after)) := by
  rw [outsideTemplate, h.templateExtent?_eq]
  simp only [h.text_eq]
  rw [List.take_left, List.drop_length_add_append, List.drop_left, List.append_assoc]

end

/-- The content of the template is what was written between its tags. -/
theorem templateContent_text :
    ((templateExtent? file.text).map fun e => file.text.slice e.innerStart e.innerStop) =
      (sectionsOfKind .template file.parts).head?.map WrittenSection.content := by
  rcases file.template_cases with hall | ⟨before, part, gap, after, h⟩
  · have hnone : sectionsOfKind .template file.parts = [] :=
      sectionsOfKind_eq_nil.mpr fun part hpart => (hall part hpart).not_template
    rw [file.templateExtent?_of_outside hall, hnone]
    rfl
  · have hbefore : sectionsOfKind .template before = [] :=
      sectionsOfKind_eq_nil.mpr fun part hpart => (h.before_outside part hpart).not_template
    rw [h.templateExtent?_eq, h.sectionsOfKind_eq, hbefore, if_pos h.kind_eq, Option.map_some, h.text_eq,
      Text.slice_natCast, Nat.add_sub_cancel_left, ← List.drop_drop, List.drop_left,
      WrittenSection.text, List.append_assoc, List.append_assoc, List.drop_left, List.take_left]
    rfl

/-- Scripts and styles are found outside the template in their order. -/
theorem foundSections_outside {kind : SectionKind} (hkind : kind ≠ .template) :
    foundSections kind (outsideTemplate file.text) =
      (sectionsOfKind kind file.parts).map WrittenSection.found := by
  rcases file.template_cases with hall | ⟨before, part, gap, after, h⟩
  · have houtside : outsideTemplate file.text = file.lead ++ assembled file.parts := by
      rw [outsideTemplate, file.templateExtent?_of_outside hall]
      rfl
    rw [houtside, foundSections_append (.of_no_bracket (by decide) file.lead_unmarked),
      foundSections_assembled hall]
  · have hother : ¬ part.kind = kind := fun heq => hkind (heq.symm.trans h.kind_eq)
    rw [h.outsideTemplate_eq, foundSections_append (.of_no_bracket (by decide) file.lead_unmarked),
      foundSections_assembled_append h.before_outside,
      foundSections_append (.of_no_bracket (by decide) h.gap_unmarked),
      foundSections_assembled h.after_outside, h.sectionsOfKind_eq, if_neg hother, List.nil_append,
      List.map_append]

end ComponentFile

/-- Splitting undoes assembling: from a component file come its template with self-closing tags written
out, its script and whether that is marked as setup, and its styles in their order, each with whether it
is scoped. -/
theorem Sections.ofSource_text (file : ComponentFile) :
    (Sections.ofSource file.text).template =
        (sectionsOfKind .template file.parts).head?.map (expandSelfClosing ·.content) ∧
      (∃ part lang, sectionsOfKind .script file.parts = [part] ∧
        (Sections.ofSource file.text).script =
          some ⟨part.content, hasAttribute (some part.attributes) "setup", lang⟩) ∧
      (Sections.ofSource file.text).styles =
        (sectionsOfKind .style file.parts).map fun part =>
          ⟨part.content, hasAttribute (some part.attributes) "scoped"⟩ := by
  rw [Sections.ofSource_eq, file.foundSections_outside (by decide), file.foundSections_outside (by decide)]
  refine ⟨?_, ?_, ?_⟩
  · have htemplate := congrArg (Option.map expandSelfClosing) file.templateContent_text
    simpa only [Option.map_map, Function.comp_def] using htemplate
  · obtain ⟨part, hpart⟩ := List.length_eq_one_iff.mp file.one_script
    refine ⟨part, (Sections.scriptBlock part.attributes? part.content).lang, hpart, ?_⟩
    rw [hpart, ← part.hasAttribute_attributes?]
    rfl
  · simp only [List.map_map, Function.comp_def, ← WrittenSection.hasAttribute_attributes?]
    rfl

/-- A file with a style on either side of a template that holds tags of its own, and a script. -/
def nestedFile : ComponentFile where
  lead := "\n"
  parts := [(⟨.style, " scoped", "p > a"⟩, "\n"),
    (⟨.template, "", "<template #x><Foo/></template></TEMPLATE><script>"⟩, "\n > "),
    (⟨.script, " lang=\"ts\" setup", "let a = b < c"⟩, ""),
    (⟨.style, "", "p"⟩, "\n")]
  lead_unmarked := by decide
  gap_unmarked := by decide
  wellFormed := by
    simp only [List.forall_mem_cons]
    refine ⟨⟨by decide, by decide, ?_⟩, ⟨by decide, by decide, ?_⟩, ⟨by decide, by decide, ?_⟩,
      ⟨by decide, by decide, ?_⟩, fun _ h => nomatch h⟩
    · rintro - (_ | _ | _) <;> decide
    · exact fun h => absurd rfl h
    · rintro - (_ | _ | _) <;> decide
    · rintro - (_ | _ | _) <;> decide
  one_script := by decide
  one_template := by decide

/-- The tags in the template are neither its end nor a script. -/
theorem ofSource_nestedFile :
    (Sections.ofSource nestedFile.text).template =
        some "<template #x><Foo></Foo></template></TEMPLATE><script>" ∧
      (Sections.ofSource nestedFile.text).script.map ScriptBlock.content = some "let a = b < c" ∧
      (Sections.ofSource nestedFile.text).script.map ScriptBlock.isSetup = some true ∧
      (Sections.ofSource nestedFile.text).styles = [⟨"p > a", true⟩, ⟨"p", false⟩] := by
  obtain ⟨htemplate, ⟨part, lang, hpart, hscript⟩, hstyles⟩ := Sections.ofSource_text nestedFile
  obtain rfl : part = ⟨.script, " lang=\"ts\" setup", "let a = b < c"⟩ := (List.cons.inj hpart).1.symm
  refine ⟨htemplate.trans (by decide), ?_, ?_, hstyles.trans rfl⟩
  · rw [hscript]
    rfl
  · rw [hscript]
    rfl

end SetupScript
