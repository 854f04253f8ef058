import SetupScript.Compile
import SetupScript.Proofs.ScanEnds
import SetupScript.Proofs.TextLines

/-!
# The code of a cleaned script

Cleaning an edited script drops its marker lines and trims it. None of the two loses code, since a
marker line that starts in code is a comment from its first character that is not blank, and white
space is no code that counts. A line that reads as a marker but starts inside a literal or a block
comment is dropped as well; that it holds no code and leaves the context as it was is an assumption
here.
-/

namespace SetupScript

/-- The character counts as code where it is code: it is neither white space nor a semicolon. -/
def isSignificant (c : Char) : Bool := !Text.isBlank c && c != ';'

/-- The characters among the cells that are code and count. -/
def significant (cells : List Cell) : Text :=
  (cells.filter fun cell => cell.isCode && isSignificant cell.char).map Cell.char

/-- The characters of a text that are code. -/
def codeText (t : Text) : Text := ((Scan.ofText t).cells.filter Cell.isCode).map Cell.char

/-- There is nothing significant in no cells. -/
@[simp] theorem significant_nil : significant [] = [] := rfl

/-- What is significant is collected part by part. -/
@[simp] theorem significant_append (a b : List Cell) :
    significant (a ++ b) = significant a ++ significant b := by
  simp [significant]

/-- What is significant is collected cell by cell. -/
theorem significant_cons (cell : Cell) (cells : List Cell) :
    significant (cell :: cells) = significant [cell] ++ significant cells :=
  significant_append [cell] cells

/-- A blank is not significant. -/
theorem significant_blank {b : Char} (hb : Text.isBlank b) (mode : Mode) :
    significant [⟨b, mode⟩] = [] := by
  simp [significant, isSignificant, hb]

/-- Cells outside code hold nothing significant. -/
theorem significant_of_not_code {cells : List Cell} (h : ∀ cell ∈ cells, cell.isCode = false) :
    significant cells = [] := by
  rw [significant, List.map_eq_nil_iff, List.filter_eq_nil_iff]
  intro cell hcell
  simp [h cell hcell]

/-- What is significant in a text is what counts among its code. -/
theorem significant_ofText (t : Text) :
    significant (labelFrom .code t) = (codeText t).filter isSignificant := by
  rw [significant, codeText, Scan.ofText, List.filter_map, List.filter_filter]
  congr 2
  funext cell
  exact Bool.and_comm _ _

/-! ## White space at the ends -/

/-- White space at the end of a text adds nothing significant. -/
theorem significant_append_blanks (context : Context) (t : Text) {blanks : Text}
    (h : blanks.all Text.isBlank) :
    significant (labelFrom context (t ++ blanks)) = significant (labelFrom context t) := by
  induction blanks generalizing t with
  | nil => rw [List.append_nil]
  | cons b rest ih =>
    simp only [List.all_cons, Bool.and_eq_true] at h
    obtain ⟨mode, hcells⟩ := labelFrom_concat_blank context t h.1
    rw [List.append_cons, ih (t ++ [b]) h.2, hcells, significant_append, significant_blank h.1,
      List.append_nil]

/-- White space at the start of a text is code that does not count. -/
theorem significant_blanks_append {blanks : Text} (h : blanks.all Text.isBlank) (t : Text) :
    significant (labelFrom .code (blanks ++ t)) = significant (labelFrom .code t) := by
  have hnone : significant (blanks.map (⟨·, .code⟩)) = [] := by
    rw [significant, List.map_eq_nil_iff, List.filter_eq_nil_iff, List.forall_mem_map]
    intro b hb
    simp [isSignificant, List.all_eq_true.mp h b hb]
  rw [(labelFrom_plain (all_isPlain_of_blanks h) t).1, significant_append, hnone, List.nil_append]

/-- Trimming a text loses nothing significant. -/
theorem significant_trim (t : Text) :
    significant (labelFrom .code (Text.trim t)) = significant (labelFrom .code t) := by
  obtain ⟨front, back, ht, hfront, hback⟩ := Text.exists_blanks_trim t
  conv_rhs => rw [ht]
  rw [significant_blanks_append hfront, significant_append_blanks _ _ hback]

/-! ## Lines -/

/-- What is significant in lines that are read one after the other, each with its line break. -/
def significantLines (context : Context) : List Text → Text
  | [] => []
  | line :: rest => significant (labelFrom context (line ++ ['\n'])) ++
      significantLines (context.after (line ++ ['\n'])) rest

/-- What is significant in joined lines is what is so in the lines. -/
theorem significant_joinWith (context : Context) (lines : List Text) :
    significant (labelFrom context (Text.joinWith "\n" lines)) = significantLines context lines := by
  rw [← significant_append_blanks context _ (by decide : (['\n'] : Text).all Text.isBlank)]
  induction lines generalizing context with
  | nil => exact significant_append_blanks context [] (by decide : (['\n'] : Text).all Text.isBlank)
  | cons line rest ih =>
    cases rest with
    | nil => simp [Text.joinWith, significantLines]
    | cons next rest =>
      have hsplit : Text.joinWith "\n" (line :: next :: rest) ++ ['\n'] =
          (line ++ ['\n']) ++ (Text.joinWith "\n" (next :: rest) ++ ['\n']) := by
        simp [Text.joinWith, List.intercalate_cons_cons]
      have hcut : labelFrom context ((line ++ ['\n']) ++
            (Text.joinWith "\n" (next :: rest) ++ ['\n'])) = _ ∧ _ :=
        labelFrom_append_of_last (List.getLast?_concat : _ = some '\n') (by decide) (by decide)
          (by decide) _
      rw [hsplit, hcut.1, significant_append, ih]
      rfl

/-- The lines that read as markers hold nothing significant and leave the context as it was, each
read from the context in which it starts. Lines that start in code do so anyway. -/
def MarkersHarmless (settings : Settings) (context : Context) : List Text → Prop
  | [] => True
  | line :: rest =>
    (settings.isMarker line → context ≠ .code →
      significant (labelFrom context (line ++ ['\n'])) = [] ∧ context.after (line ++ ['\n']) = context) ∧
    MarkersHarmless settings (context.after (line ++ ['\n'])) rest

instance decidableMarkersHarmless (settings : Settings) :
    ∀ (context : Context) (lines : List Text), Decidable (MarkersHarmless settings context lines)
  | _, [] => isTrue trivial
  | context, line :: rest =>
    have := decidableMarkersHarmless settings (context.after (line ++ ['\n'])) rest
    inferInstanceAs (Decidable (_ ∧ _))

/-- The rest of a line in a line comment holds nothing significant. -/
theorem significant_append_comment {line : Text} (h : '\n' ∉ line) (t : Text) :
    significant (labelFrom .lineComment (line ++ t)) = significant (labelFrom .lineComment t) := by
  have hnone : significant (line.map (⟨·, .lineComment⟩)) = [] := by
    apply significant_of_not_code
    rw [List.forall_mem_map]
    intro c _
    rfl
  rw [(labelFrom_lineComment h t).1, significant_append, hnone, List.nil_append]

/-- A line comment with its line break holds nothing significant and leads back to code. -/
theorem significant_lineComment {rest : Text} (h : '\n' ∉ rest) :
    significant (labelFrom .code ('/' :: '/' :: (rest ++ ['\n']))) = [] ∧
      Context.code.after ('/' :: '/' :: (rest ++ ['\n'])) = .code := by
  have hopen : Context.step .code '/' (some '/') = (.lineComment, 2) := rfl
  obtain ⟨hcells, hafter⟩ := labelFrom_lineComment h ['\n']
  obtain ⟨hbreak, hend⟩ := labelFrom_lineComment_break []
  rw [labelFrom_pair hopen, Context.after_pair hopen, hcells, hafter, hbreak, hend]
  refine ⟨significant_of_not_code ?_, rfl⟩
  simp only [labelFrom_nil, List.forall_mem_cons, List.forall_mem_append, List.forall_mem_map]
  exact ⟨rfl, rfl, fun c _ => rfl, rfl, by simp⟩

/-- A marker line that starts in code is a comment, after white space. -/
theorem significant_marker {settings : Settings} (hlead : ("//" : Text) <+: settings.markerLead)
    {line : Text} (h : settings.isMarker line) (hbreak : '\n' ∉ line) :
    significant (labelFrom .code (line ++ ['\n'])) = [] ∧
      Context.code.after (line ++ ['\n']) = .code := by
  obtain ⟨front, back, hline, hfront, -⟩ := Text.exists_blanks_trim line
  obtain ⟨rest, hrest⟩ := hlead.trans (List.isPrefixOf_iff_prefix.mp h)
  have htext : line ++ ['\n'] = front ++ ('/' :: '/' :: ((rest ++ back) ++ ['\n'])) := by
    rw [hline, ← hrest]
    simp
  have hrest' : '\n' ∉ rest ++ back := by
    intro hmem
    apply hbreak
    rw [hline, ← hrest]
    simp only [List.mem_append] at hmem ⊢
    exact .inr (hmem.imp_left .inr)
  obtain ⟨hnone, hcode⟩ := significant_lineComment hrest'
  rw [htext, significant_blanks_append hfront, (labelFrom_plain (all_isPlain_of_blanks hfront) _).2]
  exact ⟨hnone, hcode⟩

/-- Dropping marker lines loses nothing significant. -/
theorem significantLines_filter {settings : Settings} (hlead : ("//" : Text) <+: settings.markerLead)
    {context : Context} {lines : List Text} (hbreaks : ∀ line ∈ lines, '\n' ∉ line)
    (h : MarkersHarmless settings context lines) :
    significantLines context (lines.filter (!settings.isMarker ·)) = significantLines context lines := by
  induction lines generalizing context with
  | nil => rfl
  | cons line rest ih =>
    obtain ⟨hbreak, hrest⟩ := List.forall_mem_cons.mp hbreaks
    obtain ⟨hline, hharmless⟩ := h
    by_cases hmarker : settings.isMarker line
    · have hempty : significant (labelFrom context (line ++ ['\n'])) = [] ∧
          context.after (line ++ ['\n']) = context := by
        by_cases hcode : context = .code
        · subst hcode
          exact significant_marker hlead hmarker hbreak
        · exact hline hmarker hcode
      rw [List.filter_cons_of_neg (by simp [hmarker]), significantLines, hempty.1, hempty.2,
        List.nil_append]
      rw [hempty.2] at hharmless
      exact ih hrest hharmless
    · rw [List.filter_cons_of_pos (by simp [hmarker]), significantLines, significantLines,
        ih hrest hharmless]

/-- Cleaning an edited script loses nothing significant, as long as no line is mistaken for a
marker. -/
theorem Draft.significant_body {draft : Draft} (hlead : ("//" : Text) <+: draft.settings.markerLead)
    {edited : Text} (h : MarkersHarmless draft.settings .code (Text.lines edited)) :
    significant (labelFrom .code (draft.body edited)) = significant (labelFrom .code edited) := by
  rw [body, significant_trim, significant_joinWith,
    significantLines_filter hlead (fun line hline => Text.not_mem_of_mem_lines hline) h,
    ← significant_joinWith, Text.joinWith_lines]

end SetupScript
