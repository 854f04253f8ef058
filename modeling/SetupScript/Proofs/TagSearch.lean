import Mathlib.Data.List.Forall2
import SetupScript.Component.Sections
import SetupScript.Proofs.EmbeddedText

/-!
# Tags of sections

A tag of a section begins with its mark, an angle bracket with or without a slash, and its name in
any case. The angle bracket is its first character and occurs nowhere else in that beginning, so no
tag begins in one text and goes on past the angle bracket at which another text starts. That is why
sections put one after the other are found one by one, whatever their contents are.
-/

namespace SetupScript

/-- The kinds of section in a component file. -/
inductive SectionKind where
  | template
  | script
  | style
  deriving DecidableEq

/-- The name of the tags around a section. -/
def SectionKind.tag : SectionKind → Text
  | template => "template"
  | script => "script"
  | style => "style"

/-- What opening and closing tags start with. -/
def tagMarks : List Text := ["<", "</"]

/-- The text spells the word, which is given in lower case, letter by letter. -/
def SpelledAs (word spelled : Text) : Prop :=
  List.Forall₂ (fun letter c => sameLetter letter c = true) word spelled

/-- An opening or closing tag of the kind begins somewhere in the text. -/
def BeginsTag (kind : SectionKind) (t : Text) : Prop :=
  ∃ mark ∈ tagMarks, ∃ spelled, mark ++ spelled <:+: t ∧ SpelledAs kind.tag spelled

/-- The name of a tag spells itself. -/
theorem SectionKind.spelledAs_tag (kind : SectionKind) : SpelledAs kind.tag kind.tag := by
  have hself : kind.tag.all fun letter => sameLetter letter letter := by cases kind <;> decide
  exact List.forall₂_same.mpr (List.all_eq_true.mp hself)

/-- The name of a tag holds no angle bracket in any spelling. -/
theorem SpelledAs.not_mem {kind : SectionKind} {spelled : Text} (h : SpelledAs kind.tag spelled) :
    '<' ∉ spelled := by
  have hletters : kind.tag.all fun letter => !sameLetter letter '<' := by cases kind <;> decide
  intro hmem
  obtain ⟨i, hi, hbracket⟩ := List.getElem_of_mem hmem
  have hlength : i < kind.tag.length := by rwa [List.Forall₂.length_eq h]
  have hsame := List.Forall₂.get h hlength hi
  rw [List.get_eq_getElem, List.get_eq_getElem, hbracket] at hsame
  have hother := List.all_eq_true.mp hletters _ (List.getElem_mem hlength)
  rw [hsame] at hother
  cases hother

namespace Reader

variable {t left : Text}

/-- A word that is read without regard to case is spelled letter by letter. -/
theorem folded_eq_some {word : Text} {u : Unit} :
    folded word t = some (u, left) ↔ ∃ spelled, t = spelled ++ left ∧ SpelledAs word spelled := by
  induction word generalizing t with
  | nil =>
    simp only [folded, Option.some.injEq, Prod.mk.injEq, true_and, SpelledAs,
      List.forall₂_nil_left_iff, exists_eq_right, List.nil_append]
  | cons letter word ih =>
    cases t with
    | nil =>
      simp only [folded, reduceCtorEq, false_iff]
      rintro ⟨spelled, hnil, hspelled⟩
      obtain ⟨rfl, -⟩ := List.append_eq_nil_iff.mp hnil.symm
      cases hspelled
    | cons c rest =>
      by_cases hc : sameLetter letter c
      · simp only [folded, hc, if_true, ih]
        constructor
        · rintro ⟨spelled, rfl, hspelled⟩
          exact ⟨c :: spelled, rfl, .cons hc hspelled⟩
        · rintro ⟨_, htext, hspelled⟩
          obtain ⟨d, spelled, -, hmore, rfl⟩ := List.forall₂_cons_left_iff.mp hspelled
          exact ⟨spelled, (List.cons.inj htext).2, hmore⟩
      · simp only [folded, hc, Bool.false_eq_true, if_false, reduceCtorEq, false_iff]
        rintro ⟨_, htext, hspelled⟩
        obtain ⟨d, spelled, hd, -, rfl⟩ := List.forall₂_cons_left_iff.mp hspelled
        exact hc ((List.cons.inj htext).1 ▸ hd)

/-- Read what a tag begins with: its mark and its name. -/
def tagStart (mark name : Text) : Reader Unit := do
  literal mark
  folded name

/-- A tag begins with its mark and its name in any case. -/
theorem tagStart_eq_some {mark name : Text} {u : Unit} :
    tagStart mark name t = some (u, left) ↔
      ∃ spelled, t = mark ++ spelled ++ left ∧ SpelledAs name spelled := by
  simp only [tagStart, bind_eq_some, literal_eq_some, folded_eq_some]
  constructor
  · rintro ⟨_, _, rfl, spelled, rfl, hspelled⟩
    exact ⟨spelled, (List.append_assoc ..).symm, hspelled⟩
  · rintro ⟨spelled, rfl, hspelled⟩
    exact ⟨(), spelled ++ left, List.append_assoc .., spelled, rfl, hspelled⟩

/-- An opening tag is read only where one begins. -/
theorem openTag_eq_none {name : Text} (h : tagStart "<" name t = none) : openTag name t = none := by
  by_contra hread
  obtain ⟨⟨attributes, left⟩, hread⟩ := Option.ne_none_iff_exists'.mp hread
  obtain ⟨_, middle, hmark, hread⟩ := bind_eq_some.mp hread
  obtain ⟨_, rest, hname, -⟩ := bind_eq_some.mp hread
  rw [tagStart, bind_eq_some.mpr ⟨_, _, hmark, hname⟩] at h
  cases h

/-- A closing tag is read only where one begins. -/
theorem closeTag_eq_none {name : Text} (h : tagStart "</" name t = none) : closeTag name t = none := by
  by_contra hread
  obtain ⟨⟨_, left⟩, hread⟩ := Option.ne_none_iff_exists'.mp hread
  obtain ⟨_, middle, hmark, hread⟩ := bind_eq_some.mp hread
  obtain ⟨_, rest, hname, -⟩ := bind_eq_some.mp hread
  rw [tagStart, bind_eq_some.mpr ⟨_, _, hmark, hname⟩] at h
  cases h

/-- A closing tag is its mark, its name in any case, blanks and an angle bracket. -/
theorem closeTag_eq_some {name : Text} {u : Unit} (h : closeTag name t = some (u, left)) :
    ∃ spelled gap, t = "</" ++ spelled ++ gap ++ ">" ++ left ∧ SpelledAs name spelled ∧
      gap.all Text.isBlank := by
  obtain ⟨_, _, hmark, h⟩ := bind_eq_some.mp h
  obtain ⟨_, _, hname, h⟩ := bind_eq_some.mp h
  obtain ⟨_, _, hgap, hend⟩ := bind_eq_some.mp h
  obtain rfl := literal_eq_some.mp hmark
  obtain ⟨spelled, rfl, hspelled⟩ := folded_eq_some.mp hname
  obtain ⟨gap, rfl, hblank, -⟩ := blanks_eq_some.mp hgap
  obtain rfl := literal_eq_some.mp hend
  exact ⟨spelled, gap, by simp only [List.append_assoc], hspelled, hblank⟩

/-- A section is read only where its opening tag begins. -/
theorem block_eq_none {name : Text} (h : tagStart "<" name t = none) : block name t = none := by
  by_contra hread
  obtain ⟨⟨_, left⟩, hread⟩ := Option.ne_none_iff_exists'.mp hread
  obtain ⟨_, middle, htag, -⟩ := bind_eq_some.mp hread
  rw [openTag_eq_none h] at htag
  cases htag

/-- Reading up to a text that can be read takes all before it, if nothing there can be read. -/
theorem upTo_eq_some {last : Reader Unit} {content rest : Text} {u : Unit}
    (hfail : ∀ k < content.length, last (content.drop k ++ rest) = none)
    (hlast : last rest = some (u, left)) : upTo last (content ++ rest) = some (content, left) := by
  induction content with
  | nil =>
    cases rest with
    | nil => simp only [List.append_nil, upTo, hlast, Option.map_some]
    | cons c rest => simp only [List.nil_append, upTo, hlast]
  | cons c content ih =>
    have hfirst : last (c :: (content ++ rest)) = none := hfail 0 (by simp)
    have hmore := ih fun k hk => hfail (k + 1) (by simpa using hk)
    simp only [List.cons_append, upTo, hfirst, hmore, Option.map_some]

end Reader

/-- Whether a tag begins in a text is found out by trying every offset. -/
theorem beginsTag_iff {kind : SectionKind} {t : Text} :
    BeginsTag kind t ↔
      ∃ mark ∈ tagMarks, ∃ k < t.length + 1, (Reader.tagStart mark kind.tag (t.drop k)).isSome := by
  constructor
  · rintro ⟨mark, hmark, spelled, ⟨front, rest, rfl⟩, hspelled⟩
    refine ⟨mark, hmark, front.length, by simp only [List.length_append]; omega, ?_⟩
    rw [List.append_assoc, List.drop_left]
    exact Option.isSome_iff_exists.mpr ⟨((), rest), Reader.tagStart_eq_some.mpr ⟨spelled, rfl, hspelled⟩⟩
  · rintro ⟨mark, hmark, k, -, hread⟩
    obtain ⟨⟨_, left⟩, hread⟩ := Option.isSome_iff_exists.mp hread
    obtain ⟨spelled, htext, hspelled⟩ := Reader.tagStart_eq_some.mp hread
    refine ⟨mark, hmark, spelled, ⟨t.take k, left, ?_⟩, hspelled⟩
    rw [List.append_assoc, ← htext, List.take_append_drop]

instance (kind : SectionKind) (t : Text) : Decidable (BeginsTag kind t) :=
  decidable_of_iff _ beginsTag_iff.symm

/-! ## Searches that go on after a text -/

namespace Text

variable {α : Type} {reader : Reader α}

/-- A match as it stands when `d` characters are put before the text. -/
def Match.moved (d : Nat) (found : Match α) : Match α :=
  ⟨found.start + d, found.stop + d, found.value⟩

/-- A search in which matches may start anywhere depends on nothing before the text. -/
theorem findAllFrom_anywhere (before : Option Char) (pos : Nat) (t : Text) :
    findAllFrom anywhere reader before pos 0 t = (findAll anywhere reader t).map (Match.moved pos) := by
  have hbefore : anywhere before = anywhere none := rfl
  have hmoved : findAllFrom anywhere reader none (0 + pos) 0 t = _ := findAllFrom_shift none 0 0 pos t
  rw [Nat.zero_add] at hmoved
  exact (findAllFrom_congr hbefore pos 0 t).trans hmoved

/-- A search passes over a lead on which the reader fails. -/
theorem findAll_lead {lead rest : Text} (hfail : ∀ k < lead.length, reader (lead.drop k ++ rest) = none) :
    findAll anywhere reader (lead ++ rest) =
      (findAll anywhere reader rest).map (Match.moved lead.length) := by
  rw [findAll, findAllFrom_lead hfail, findAllFrom_anywhere, Nat.zero_add]

/-- A search finds what is read at the front, and goes on after it. -/
theorem findAll_read {taken rest : Text} {value : α} (htaken : taken ≠ [])
    (hread : reader (taken ++ rest) = some (value, rest)) :
    findAll anywhere reader (taken ++ rest) = ⟨0, taken.length, value⟩ ::
      (findAll anywhere reader rest).map (Match.moved taken.length) := by
  have hfound : findAllFrom anywhere reader none 0 0 (taken ++ rest) = _ :=
    findAllFrom_read htaken rfl hread 0
  rw [findAll, hfound, Nat.zero_add, findAllFrom_anywhere]

end Text

/-! ## Where no tag begins -/

/-- No tag with this mark and of this kind begins in the text when `rest` follows it. -/
def TagFree (mark : Text) (kind : SectionKind) (t rest : Text) : Prop :=
  ∀ k < t.length, Reader.tagStart mark kind.tag (t.drop k ++ rest) = none

namespace TagFree

variable {mark t rest : Text} {kind : SectionKind}

/-- No tag begins in two texts when none begins in either. -/
theorem append {a b : Text} (ha : TagFree mark kind a (b ++ rest)) (hb : TagFree mark kind b rest) :
    TagFree mark kind (a ++ b) rest := by
  intro k hk
  rcases Nat.lt_or_ge k a.length with hfirst | hsecond
  · rw [List.drop_append_of_le_length (Nat.le_of_lt hfirst), List.append_assoc]
    exact ha k hfirst
  · obtain ⟨i, rfl⟩ := Nat.exists_eq_add_of_le hsecond
    rw [← List.drop_drop, List.drop_left]
    exact hb i (by simpa using hk)

/-- No tag begins in a text without an angle bracket. -/
theorem of_no_bracket (hmark : mark ∈ tagMarks) (h : '<' ∉ t) : TagFree mark kind t rest := by
  intro k hk
  by_contra hread
  obtain ⟨⟨_, left⟩, hread⟩ := Option.ne_none_iff_exists'.mp hread
  obtain ⟨spelled, htext, -⟩ := Reader.tagStart_eq_some.mp hread
  have hfirst : mark.head? = some '<' := by
    have hall : tagMarks.all fun mark => mark.head? == some '<' := by decide
    simpa using List.all_eq_true.mp hall mark hmark
  rw [List.drop_eq_getElem_cons hk] at htext
  obtain ⟨more, rfl⟩ : ∃ more, mark = '<' :: more := by
    cases mark with
    | nil => cases hfirst
    | cons c more => exact ⟨more, by rw [Option.some.inj hfirst]⟩
  have hbracket : t[k] = '<' := (List.cons.inj htext).1
  exact h (hbracket ▸ List.getElem_mem hk)

/-- No tag begins in a text that holds the beginning of none, when an angle bracket follows. -/
theorem of_not_beginsTag (hmark : mark ∈ tagMarks) (h : ¬ BeginsTag kind t)
    (hrest : rest.head? = some '<') : TagFree mark kind t rest := by
  intro k hk
  by_contra hread
  obtain ⟨⟨_, left⟩, hread⟩ := Option.ne_none_iff_exists'.mp hread
  obtain ⟨spelled, htext, hspelled⟩ := Reader.tagStart_eq_some.mp hread
  rcases Nat.lt_or_ge (t.drop k).length (mark ++ spelled).length with hpast | hinside
  · -- the angle bracket that follows the text would be a later character of the tag
    have hlater : '<' ∉ (mark ++ spelled).drop 1 := by
      have hmarks : tagMarks.all fun mark => mark != [] && !(mark.drop 1).contains '<' := by decide
      have hown := List.all_eq_true.mp hmarks mark hmark
      simp only [Bool.and_eq_true, bne_iff_ne, Bool.not_eq_true', List.contains_eq_mem,
        decide_eq_false_iff_not] at hown
      rw [List.drop_append_of_le_length (List.length_pos_iff.mpr hown.1), List.mem_append, not_or]
      exact ⟨hown.2, hspelled.not_mem⟩
    have hat : (mark ++ spelled)[(t.drop k).length]? = some '<' := by
      have hsame : (mark ++ spelled ++ left)[(t.drop k).length]? = (mark ++ spelled)[(t.drop k).length]? :=
        List.getElem?_append_left hpast
      rw [← hsame, ← htext, List.getElem?_append_right (Nat.le_refl _), Nat.sub_self,
        ← List.head?_eq_getElem?, hrest]
    have hpos : 1 ≤ (t.drop k).length := by
      rw [List.length_drop]
      omega
    obtain ⟨i, hi⟩ := Nat.exists_eq_add_of_le hpos
    rw [hi, ← List.getElem?_drop] at hat
    exact hlater (List.mem_of_getElem? hat)
  · have hprefix : mark ++ spelled <+: t.drop k :=
      List.prefix_of_prefix_length_le ⟨left, htext.symm⟩ (List.prefix_append _ _) hinside
    exact h ⟨mark, hmark, spelled, hprefix.isInfix.trans (List.drop_suffix k t).isInfix, hspelled⟩

end TagFree

end SetupScript
