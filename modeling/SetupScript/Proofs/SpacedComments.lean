import SetupScript.Proofs.DeclaredNames
import SetupScript.Proofs.GappedBindings
import SetupScript.Proofs.KeptCharacters
import SetupScript.Proofs.StatementLevel

/-!
# Comments as white space

A script binds the same names when a space stands for every character of its comments, unless a
comment parts two characters that join, or makes the lead of a function longer than the window in
which the start of its statement is looked for.
-/

namespace SetupScript

/-- The text with a space for every character of its comments; line breaks stay. -/
def Scan.withSpacedComments (scan : Scan) : Text :=
  scan.cells.map fun cell => if cell.mode.isComment && cell.char != '\n' then ' ' else cell.char

/-- A text with a gap for every character of its comments; line breaks stay. -/
def commentGaps (t : Text) : Gapped :=
  (Scan.ofText t).cells.map fun cell =>
    if cell.mode.isComment && cell.char != '\n' then none else some cell.char

namespace Gapped

/-- The cells of a text with a gap for every cell that goes with its comment. -/
def commentCells (t : Text) : List (Option Cell) :=
  (Scan.ofText t).cells.map fun cell => if cell.survives then some cell.bared else none

theorem chars_commentCells (t : Text) : chars (commentCells t) = commentGaps t := by
  rw [chars, commentCells, List.map_map, commentGaps]
  refine List.map_congr_left fun cell _ => ?_
  have hstays : cell.survives = !(cell.mode.isComment && cell.char != '\n') := by
    simp [Cell.survives, bne]
  rw [Function.comp_apply, hstays]
  cases cell.mode.isComment && cell.char != '\n'
  · exact congrArg some cell.char_bared
  · rfl

/-- Closing the gaps of its comments takes the comments out of a text. -/
theorem closedCells_commentCells (t : Text) :
    closedCells (commentCells t) = bareCells (Scan.ofText t).cells := by
  rw [closedCells, commentCells, bareCells]
  induction (Scan.ofText t).cells with
  | nil => rfl
  | cons cell rest ih => cases hstays : cell.survives <;> simpa [hstays] using ih

/-- Filling the gaps of its comments replaces the comments of a text by spaces. -/
theorem filledCells_commentCells (t : Text) :
    filledCells (commentCells t) = replaceLost " " (Scan.ofText t).cells := by
  rw [filledCells, commentCells, replaceLost]
  induction (Scan.ofText t).cells with
  | nil => rfl
  | cons cell rest ih => cases hstays : cell.survives <;> simpa [hstays] using ih

theorem closed_commentGaps (t : Text) : closed (commentGaps t) = (Scan.ofText t).withoutComments := by
  rw [← chars_commentCells, ← (map_char_cells _).1, closedCells_commentCells, withoutComments_ofText]
  rfl

theorem filled_commentGaps (t : Text) : filled (commentGaps t) = (Scan.ofText t).withSpacedComments := by
  rw [filled, commentGaps, List.map_map, Scan.withSpacedComments]
  refine List.map_congr_left fun cell _ => ?_
  simp only [Function.comp_apply]
  split <;> rfl

/-- The scans of a text without its comments, and with spaces for them, are its cells with gaps. -/
theorem scanned_commentCells (t : Text) : Scanned (commentCells t) := by
  constructor
  · rw [chars_commentCells, closed_commentGaps, cells_withoutComments, closedCells_commentCells]
  · have hreads : ReadsReplaced " " .code t := readsReplaced rfl .code t
    rw [← (map_char_cells _).2, filledCells_commentCells]
    exact hreads.1

/-- A text with spaces for its comments has no comments. -/
theorem withoutComments_spaced (t : Text) :
    (Scan.ofText (Scan.ofText t).withSpacedComments).withoutComments =
      (Scan.ofText t).withSpacedComments := by
  have hcells := (scanned_commentCells t).filled
  rw [chars_commentCells, filled_commentGaps] at hcells
  have hcode : ∀ cell ∈ filledCells (commentCells t), cell.mode.isComment = false := by
    intro cell hcell
    obtain ⟨place, hplace, rfl⟩ := List.mem_map.mp hcell
    obtain ⟨source, -, rfl⟩ := List.mem_map.mp hplace
    split
    · unfold Cell.bared
      split
      · rfl
      · next hmode => simpa using hmode
    · rfl
  calc (Scan.ofText (Scan.ofText t).withSpacedComments).withoutComments
      = (bareCells (Scan.ofText (Scan.ofText t).withSpacedComments).cells).map Cell.char :=
        withoutComments_ofText _
    _ = (Scan.ofText (Scan.ofText t).withSpacedComments).text := by
        rw [hcells, bareCells_of_no_comment hcode, Scan.text, hcells]
    _ = (Scan.ofText t).withSpacedComments := Scan.text_ofText _

/-- A comment between two plain texts is a gap of four places. -/
theorem commentGaps_parted {front back : Text} (hfront : front.all isPlain) (hback : back.all isPlain) :
    commentGaps (front ++ ("/**/" ++ back)) =
      front.map some ++ (List.replicate 4 none ++ back.map some) := by
  have hopens : Context.step .code '/' (some '*') = (.blockComment, 2) := by decide
  have hcloses : Context.step .blockComment '*' (some '/') = (.code, 2) := by decide
  have hcomment : labelFrom .code (("/**/" : Text) ++ back) =
      ("/**/" : Text).map (⟨·, .blockComment⟩) ++ labelFrom .code back := by
    change labelFrom .code ('/' :: '*' :: '*' :: '/' :: back) = _
    rw [labelFrom_pair hopens, labelFrom_pair hcloses]
    rfl
  have hplain := (labelFrom_plain hback []).1
  rw [List.append_nil, labelFrom_nil, List.append_nil] at hplain
  rw [commentGaps, Scan.ofText, (labelFrom_plain hfront _).1, hcomment, hplain]
  have hkept (t : Text) : (t.map fun c => (⟨c, .code⟩ : Cell)).map (fun cell =>
      if cell.mode.isComment && cell.char != '\n' then none else some cell.char) = t.map some :=
    List.map_map
  rw [List.map_append, List.map_append, hkept, hkept]
  rfl

end Gapped

/-- A function declaration has an opening parenthesis. -/
theorem Reader.paren_mem_of_functionDeclaration {t name left : Text}
    (h : functionDeclaration t = some (name, left)) : '(' ∈ t := by
  have hskip {p : Char → Bool} {t left : Text} {u : Unit} (h : skipOne p t = some (u, left)) :
      left ⊆ t := by
    cases t with
    | nil => cases h; exact List.Subset.refl _
    | cons c rest =>
      cases h
      split
      · exact List.subset_cons_self ..
      · exact List.Subset.refl _
  simp only [functionDeclaration, bind_eq_some, blanks_eq_some, identifier_eq_some, literal_eq_some,
    pure_eq_some] at h
  obtain ⟨_, _, rfl, _, _, ⟨_, rfl, -⟩, _, rest, hstar, _, _, ⟨_, rfl, -⟩, _, _, ⟨rfl, -⟩, _, _,
    ⟨_, rfl, -⟩, _, _, rfl, -⟩ := h
  have hparen := hskip hstar (a := '(') (by simp)
  simp [hparen]

namespace Bindings

open Gapped

variable {settings : Settings} {name : Text}

/-! ## Comments between characters that join -/

/-- The characters of a declaration of a plain name are plain. -/
theorem all_isPlain_of_declaration {t : Text} (h : t.all isDeclarationChar) : t.all isPlain :=
  all_isPlain_of_inert <| List.all_eq_true.mpr fun c hc =>
    isInert_of_class (p := isDeclarationChar) (by decide) (List.all_eq_true.mp h c hc)

/-- A name collected from a text without brackets is a part of the text. -/
theorem part_of_mem_collect {t : Text} (ht : t.all isDeclarationChar)
    (h : name ∈ (collect settings t).1) : name <:+: t := by
  have habsent {c : Char} (hc : isDeclarationChar c = false) : c ∉ t := fun hmem => by
    simp [List.all_eq_true.mp ht c hmem] at hc
  rw [mem_collect, withoutComments_ofText, bareText_of_plain (all_isPlain_of_declaration ht)] at h
  obtain ⟨-, ⟨p, -, hdeclared⟩ | ⟨opener, hopener, hnames⟩⟩ := h
  · rw [DeclaredAt, Scan.text_ofText] at hdeclared
    obtain ⟨found, hfound, -, rfl⟩ | ⟨⟨found, hfound, -, rfl⟩, -⟩ := hdeclared
    · obtain ⟨left, -, hread, -⟩ := Text.mem_findAll hfound
      obtain ⟨front, hdrop, -, word, gap, b₁, b₂, -, hparts, -⟩ := Reader.of_nameDeclaration hread
      have hpart : found.value <:+: t.drop found.start := by
        rw [hdrop, List.append_cons, hparts]
        exact ⟨word ++ gap, b₁ ++ '=' :: (b₂ ++ left),
          by simp only [List.append_assoc, List.cons_append]⟩
      exact hpart.trans (List.drop_suffix ..).isInfix
    · obtain ⟨left, -, hread, -⟩ := Text.mem_findAll hfound
      have hparen := List.mem_of_mem_drop (Reader.paren_mem_of_functionDeclaration hread)
      exact absurd hparen (habsent (by decide))
  · simp only [patternNames, List.mem_flatMap, List.mem_map, List.mem_filter, Bool.and_eq_true,
      beq_iff_eq, Scan.text_ofText] at hnames
    obtain ⟨-, ⟨found, ⟨hfound, rfl, -⟩, rfl⟩, -⟩ := hnames
    obtain ⟨left, -, hread, -⟩ := Text.mem_findAll hfound
    obtain ⟨taken, hdrop, word, gap, -, rfl, -, hbracket⟩ := Reader.of_patternDeclaration hread
    have hmem : found.value ∈ t.drop found.start := by simp [hdrop]
    replace hmem := List.mem_of_mem_drop hmem
    rcases hbracket with hvalue | hvalue
    · exact absurd (hvalue ▸ hmem) (habsent (by decide))
    · exact absurd (hvalue ▸ hmem) (habsent (by decide))

/-- A comment between two plain texts is gone when names are collected. -/
theorem collect_parted {front back : Text} (hfront : front.all isPlain) (hback : back.all isPlain) :
    collect settings (front ++ ("/**/" ++ back)) = collect settings (front ++ back) := by
  have hbare : (Scan.ofText (front ++ ("/**/" ++ back))).withoutComments =
      (Scan.ofText (front ++ back)).withoutComments := by
    have hplain : (front ++ back).all isPlain := by rw [List.all_append, hfront, hback]; rfl
    rw [← closed_commentGaps, commentGaps_parted hfront hback, withoutComments_ofText (front ++ back),
      bareText_of_plain hplain]
    simp
  rw [collect, hbare]
  rfl

/-- A name that a comment parts is collected whole, and not when spaces stand for the comment. -/
theorem parted_name_differs {a b : Char} (ha : Text.isNameChar a) (hb : Text.isNameChar b) :
    let script := ("const x" : Text) ++ a :: ("/**/" ++ b :: " = 1")
    (collect {} script).1 ≠ (collect {} (Scan.ofText script).withSpacedComments).1 := by
  intro script halike
  have hspace (c : Char) (hc : Text.isNameChar c) : c ≠ ' ' := fun heq => by
    rw [heq] at hc
    exact absurd hc (by decide)
  have hchar (c : Char) (hc : Text.isNameChar c) : isDeclarationChar c := by simp [isDeclarationChar, hc]
  have hfront : (("const x" : Text) ++ [a]).all isDeclarationChar := by
    rw [List.all_append, List.all_cons, hchar a ha]
    decide
  have hback : (b :: (" = 1" : Text)).all isDeclarationChar := by
    rw [List.all_cons, hchar b hb]
    decide
  have hplain := all_isPlain_of_declaration hfront
  have hplain' := all_isPlain_of_declaration hback
  have hscript : script = (("const x" : Text) ++ [a]) ++ ("/**/" ++ b :: " = 1") := List.append_cons ..
  have hwhole : ['x', a, b] ∈ (collect {} script).1 := by
    have hname : Text.isIdentifier ['x', a, b] := by
      simp only [Text.isIdentifier, List.all_cons, ha, hb]
      rfl
    have hown : IsOwn {} ['x', a, b] := by simp [IsOwn]
    have hlead : EndsStatement ([] : Text) := .inl rfl
    have hcollected := mem_collect_of_name hlead (by decide) hname hown "1"
    rw [hscript, collect_parted hplain hplain']
    simpa [declarationText] using hcollected
  rw [halike, hscript, ← filled_commentGaps, commentGaps_parted hplain hplain', filled_append,
    filled_append, filled_map_some, filled_map_some] at hwhole
  have hpart := part_of_mem_collect (by rw [List.all_append, hfront, List.all_append, hback]; decide) hwhole
  simp [List.infix_cons_iff, hspace a ha, hspace b hb] at hpart

/-- Every two characters that join stand in a script that binds other names when spaces stand for a
comment between them. -/
theorem exists_parted_of_joins {a b : Char} (h : Text.joins a b) :
    ∃ front back : Text, let script := front ++ a :: ("/**/" ++ b :: back)
      (collect {} script).1 ≠ (collect {} (Scan.ofText script).withSpacedComments).1 := by
  simp only [Text.joins, Text.startsDeclaring, Bool.or_eq_true, Bool.and_eq_true, beq_iff_eq] at h
  obtain (((⟨ha, hb⟩ | ⟨rfl, hb⟩) | ⟨rfl, hb⟩) | ⟨rfl, rfl⟩) | ⟨ha, hb⟩ := h
  · exact ⟨"const x", " = 1", parted_name_differs ha hb⟩
  · obtain rfl | ((rfl | rfl) | rfl) | rfl := hb
    · exact ⟨"const \x7b.", "a\x7d = x", by decide +kernel⟩
    · exact ⟨"", "onst x = 1", by decide +kernel⟩
    · exact ⟨"", "et x = 1", by decide +kernel⟩
    · exact ⟨"", "ar x = 1", by decide +kernel⟩
    -- closed up, the second word is read; apart, the first one takes it for its name
    · exact ⟨"", "unction\nfunctionx()\x7b\x7d", by decide +kernel⟩
  · obtain rfl | rfl := hb
    · exact ⟨"const \x7b\x60\x27\x60", "\x27, b\x7d = x", by decide +kernel⟩
    · exact ⟨"const \x7b\x60\x22\x60", "\x22, b\x7d = x", by decide +kernel⟩
  · exact ⟨"a ", "function f()\x7b\x7d", by decide +kernel⟩
  · obtain rfl | rfl := ha <;> obtain rfl | rfl := hb
    · exact ⟨"cons", "a\x7d = b", by decide +kernel⟩
    · exact ⟨"cons", "a] = b", by decide +kernel⟩
    · exact ⟨"va", "a\x7d = b", by decide +kernel⟩
    · exact ⟨"va", "a] = b", by decide +kernel⟩

/-! ## Comments elsewhere -/

/-- A comment separates words like white space, as far as it parts no two characters that join. With
spaces for its comments a script then binds no name that it does not bind, and it binds the same names
in the same order unless the lead of a function outgrows the window. Each two characters that join do
need to be kept together: some script binds other names with spaces for a comment between them. -/
theorem spaced_comments_bind_alike (settings : Settings)
    (hparam : settings.propsParam.all Text.isNameChar) (t : Text) :
    let spaced := (Scan.ofText t).withSpacedComments
    (ApartFrom none (commentGaps t) →
      (∀ name ∈ (collect settings spaced).1, name ∈ (collect settings t).1) ∧
        (LeadsInWindow spaced → (collect settings t).1 = (collect settings spaced).1)) ∧
    ∀ a b, Text.joins a b → ∃ front back : Text, let script := front ++ a :: ("/**/" ++ b :: back)
      (collect {} script).1 ≠ (collect {} (Scan.ofText script).withSpacedComments).1 := by
  intro spaced
  refine ⟨fun hapart => ?_, fun _ _ h => exists_parted_of_joins h⟩
  have hscanned := scanned_commentCells t
  have hspaced : spaced = filled (chars (commentCells t)) := by
    rw [chars_commentCells, filled_commentGaps]
  have hbare : (Scan.ofText t).withoutComments = closed (chars (commentCells t)) := by
    rw [chars_commentCells, closed_commentGaps]
  have hstays : (Scan.ofText spaced).withoutComments = spaced := withoutComments_spaced t
  rw [← chars_commentCells] at hapart
  have hplain := plainNames_texts hscanned hapart
  have hobjects := patternNames_texts hparam hscanned hapart (show '{' ≠ ' ' by decide)
  have harrays := patternNames_texts hparam hscanned hapart (show '[' ≠ ' ' by decide)
  have hcollect (u : Text) : (collect settings u).1 =
      let scan := Scan.ofText (Scan.ofText u).withoutComments
      Draft.addNames [] ((plainNames scan ++ (patternNames settings scan '{').1 ++
        (patternNames settings scan '[').1 ++ functionNames scan).filter fun name =>
          name != settings.propsParam && name != settings.emitParam) := rfl
  rw [hcollect, hcollect, hstays, hbare, hspaced]
  dsimp only
  rw [hplain, hobjects, harrays]
  refine ⟨fun name hname => ?_, fun hwindow => ?_⟩
  · have hfunctions := (functionNames_sublist hscanned hapart).subset
    rw [mem_addNames, List.mem_filter] at hname ⊢
    refine hname.imp_right (And.imp_left fun hfound => ?_)
    exact (List.mem_append.mp hfound).elim (List.mem_append_left _)
      fun hfunction => List.mem_append_right _ (hfunctions hfunction)
  · rw [functionNames_texts hscanned hapart hwindow]

/-- Comments in a pattern, before a function and after a word that declares make no difference. -/
theorem commented_script_binds_alike :
    let t : Text := "const \x7ba, /* two */ b: [c /* inner */]\x7d = f() // pair\n" ++
      "export /* now */ function /* * */ g() \x7b\x7d\nlet/* last */ h = 1"
    let spaced := (Scan.ofText t).withSpacedComments
    ApartFrom none (commentGaps t) ∧ LeadsInWindow spaced ∧
      (collect {} t).1 = (collect {} spaced).1 ∧ (collect {} spaced).1 = ["h", "a", "c", "g"] := by
  intro t spaced
  have hapart : ApartFrom none (commentGaps t) := by decide +kernel
  have hwindow : LeadsInWindow spaced := by decide +kernel
  have halike := ((spaced_comments_bind_alike {} (by decide) t).1 hapart).2 hwindow
  exact ⟨hapart, hwindow, halike, by decide +kernel⟩

/-- A comment between a word that declares and a name joins them, and where a long comment was, the
function after it stands at the start of the script. -/
theorem comments_differ_from_spaces :
    let joined : Text := "const/**/x = 1"
    let long : Text := "/*" ++ List.replicate 80 'w' ++ "*/function f() \x7b\x7d"
    ((collect {} joined).1 = [] ∧
      (collect {} (Scan.ofText joined).withSpacedComments).1 = ["x"]) ∧
    (collect {} long).1 = ["f"] ∧ (collect {} (Scan.ofText long).withSpacedComments).1 = [] := by
  decide +kernel

end Bindings

end SetupScript
