import SetupScript.Proofs.DraftInvariant
import SetupScript.Proofs.ScanEnds
import SetupScript.Proofs.TextLines

/-!
# What edits put into a script

Read from code, the text of an edit ends in code or in a line comment. Markers are line comments. Of
the texts that stand for a call all but one are fixed; the arguments of the defaults helper come from
the script, where they end in code, but white space is trimmed off them and a line comment before it
may then be left open.
-/

namespace SetupScript

/-- The text, read from code, ends in a line comment. -/
def EndsInComment (t : Text) : Prop := Context.code.after t = .lineComment

instance (t : Text) : Decidable (EndsInComment t) := inferInstanceAs (Decidable (_ = _))

/-- The text, read from code, ends in code, and not with a slash. -/
def EndsInCode (t : Text) : Prop := Context.code.after t = .code ∧ t.getLast? ≠ some '/'

instance (t : Text) : Decidable (EndsInCode t) := inferInstanceAs (Decidable (_ ∧ _))

/-- A marker without a line break in it ends in a comment. -/
theorem endsInComment_marker {t : Text} (h : '\n' ∉ t) : EndsInComment (({} : Settings).marker t) := by
  have hopen : Context.step .code '/' (some '/') = (.lineComment, 2) := rfl
  have hrest : '\n' ∉ (" [extracted] " : Text) ++ t := by
    rw [List.mem_append, not_or]
    exact ⟨by decide, h⟩
  have hmarker : ({} : Settings).marker t = '/' :: '/' :: ((" [extracted] " : Text) ++ t) := by
    simp [Settings.marker]
  have hcomment := (labelFrom_lineComment hrest []).2
  rw [List.append_nil, Context.after_nil] at hcomment
  rw [EndsInComment, hmarker, Context.after_pair hopen, hcomment]

/-! ## Arguments -/

/-- A cell is marked only when it is a comma in code. -/
theorem markCommas_cons (paren brace bracket : Int) (cell : Cell) (rest : List Cell) :
    ∃ mark paren' brace' bracket', Scan.markCommas paren brace bracket (cell :: rest) =
        (cell.char, mark) :: Scan.markCommas paren' brace' bracket' rest ∧
      (mark = true → cell.mode = .code ∧ cell.char = ',') := by
  refine ⟨_, _, _, _, Scan.markCommas_eq_cons .., fun hmark => ?_⟩
  simp only [Bool.and_eq_true, Cell.isCode, beq_iff_eq] at hmark
  exact hmark.1.1.1

/-- The pieces of a text that ends in code, cut at commas in code, end in code. -/
theorem after_pieces {context : Context} {t : Text} (hcode : context.after t = .code)
    (paren brace bracket : Int) :
    ∃ first others, Text.cutMarked (Scan.markCommas paren brace bracket (labelFrom context t)) =
        first :: others ∧ (first.head? = t.head? ∨ first = [] ∧ t.head? = some ',') ∧
      context.after first = .code ∧ ∀ piece ∈ others, Context.code.after piece = .code := by
  induction context, t using Context.scan_induction generalizing paren brace bracket with
  | nil context => exact ⟨[], [], by simp [Scan.markCommas, Text.cutMarked], .inl rfl, hcode, by simp⟩
  | single context c rest next hstep ih =>
    rw [Context.after_single hstep] at hcode
    rw [labelFrom_single hstep]
    obtain ⟨mark, paren', brace', bracket', hmarks, hcomma⟩ :=
      markCommas_cons paren brace bracket ⟨c, context.readMode next⟩ (labelFrom next rest)
    obtain ⟨first, others, hpieces, hhead, hfirst, hothers⟩ := ih hcode paren' brace' bracket'
    cases mark with
    | true =>
      obtain ⟨hmode, hc⟩ := hcomma rfl
      obtain ⟨rfl, rfl⟩ := Context.readMode_eq_code hmode
      refine ⟨[], first :: others, by rw [hmarks, Text.cutMarked, hpieces]; rfl, .inr ⟨rfl, ?_⟩,
        Context.after_nil, List.forall_mem_cons.mpr ⟨hfirst, hothers⟩⟩
      rw [List.head?_cons, show c = ',' from hc]
    | false =>
      -- the comma that ends the piece is the character after it, and is not looked for
      have hstep' : context.step c first.head? = (next, 1) := by
        rcases hhead with hsame | ⟨rfl, hnext⟩
        · rw [hsame]
          exact hstep
        · rw [hnext] at hstep
          rw [← hstep]
          exact context.step_of_isUnsought c rfl rfl
      refine ⟨c :: first, others, by rw [hmarks, Text.cutMarked, hpieces]; rfl, .inl rfl, ?_, hothers⟩
      rw [Context.after_single hstep', hfirst]
  | pair context c d tail next hstep ih =>
    rw [Context.after_pair hstep] at hcode
    rw [labelFrom_pair hstep]
    have hmode := Context.readMode_of_pair hstep
    obtain ⟨mark, paren', brace', bracket', hmarks, hcomma⟩ := markCommas_cons paren brace bracket
      ⟨c, context.readMode next⟩ (⟨d, context.readMode next⟩ :: labelFrom next tail)
    obtain ⟨mark', paren'', brace'', bracket'', hmarks', hcomma'⟩ :=
      markCommas_cons paren' brace' bracket' ⟨d, context.readMode next⟩ (labelFrom next tail)
    obtain rfl : mark = false := by
      by_contra hmark
      exact hmode (hcomma (by simpa using hmark)).1
    obtain rfl : mark' = false := by
      by_contra hmark
      exact hmode (hcomma' (by simpa using hmark)).1
    obtain ⟨first, others, hpieces, -, hfirst, hothers⟩ := ih hcode paren'' brace'' bracket''
    refine ⟨c :: d :: first, others, ?_, .inl rfl, ?_, hothers⟩
    · rw [hmarks, hmarks', Text.cutMarked, Text.cutMarked, hpieces]
      rfl
    · rw [Context.after_pair hstep, hfirst]
  | cut context c next hstep =>
    rw [Context.after_cut hstep] at hcode
    subst hcode
    cases context <;> simp only [Context.step] at hstep <;> grind

/-- Trimming a text that ends in code leaves it ending in code or in a line comment. -/
theorem after_trim {t : Text} (h : Context.code.after t = .code) :
    Context.code.after (Text.trim t) = .code ∨ Context.code.after (Text.trim t) = .lineComment := by
  obtain ⟨front, back, ht, hfront, hback⟩ := Text.exists_blanks_trim t
  rw [ht, (labelFrom_plain (all_isPlain_of_blanks hfront) _).2] at h
  rcases Context.after_append_blanks (rfl : Context.code.isProper) (Text.trim t) hback with hsame | hcomment
  · exact .inl (hsame ▸ h)
  · exact .inr hcomment

/-- The items of a comma list are trimmed pieces. -/
theorem mem_trimItems {pieces : List Text} {item : Text} (h : item ∈ Text.trimItems pieces) :
    ∃ piece ∈ pieces, item = Text.trim piece := by
  induction pieces with
  | nil => cases h
  | cons piece rest ih =>
    cases rest with
    | nil =>
      simp only [Text.trimItems] at h
      split at h
      · cases h
      · exact ⟨piece, List.mem_cons_self .., List.mem_singleton.mp h⟩
    | cons next rest =>
      rcases List.mem_cons.mp h with rfl | h
      · exact ⟨piece, List.mem_cons_self .., rfl⟩
      · obtain ⟨piece', hpiece, hitem⟩ := ih h
        exact ⟨piece', List.mem_cons_of_mem _ hpiece, hitem⟩

/-- An argument of a list that ends in code ends in code or in a line comment. -/
theorem after_argument {arguments item : Text} (hcode : Context.code.after arguments = .code)
    (h : item ∈ (Scan.ofText arguments).arguments) :
    Context.code.after item = .code ∨ Context.code.after item = .lineComment := by
  obtain ⟨piece, hpiece, rfl⟩ := mem_trimItems h
  obtain ⟨first, others, hpieces, -, hfirst, hothers⟩ := after_pieces hcode 0 0 0
  apply after_trim
  rw [Scan.ofText, hpieces] at hpiece
  rcases List.mem_cons.mp hpiece with rfl | hpiece
  · exact hfirst
  · exact hothers piece hpiece

/-! ## Calls -/

/-- A cell that is a delimiter of one character holds it in code. -/
theorem cell_of_isDelimiter {cells : List Cell} {k : Nat} {c : Char}
    (h : cells[k]?.any (·.isDelimiter [c])) : cells[k]? = some ⟨c, .code⟩ := by
  obtain ⟨⟨d, mode⟩, hcell, hdelimiter⟩ := (Option.any_eq_true _ _).mp h
  simp only [Cell.isDelimiter, Cell.isCode, Bool.and_eq_true, beq_iff_eq, List.cons.injEq,
    and_true] at hdelimiter
  rw [hcell, hdelimiter.1, hdelimiter.2]

/-- The arguments of a call end in code, and so does the call. -/
theorem Scan.IsCall.ends {source : Text} {kind : MacroKind} {start stop : Nat} {arguments : Text}
    (h : (Scan.ofText source).IsCall kind start stop arguments) :
    Context.code.after arguments = .code ∧ (labelFrom .code source)[stop]? = some ⟨')', .code⟩ := by
  obtain ⟨paren, -, hregion, rfl⟩ := h.closed
  have hopens : (labelFrom .code source)[paren]? = some ⟨'(', .code⟩ := cell_of_isDelimiter hregion.opens
  have hcloses : (labelFrom .code source)[stop]? = some ⟨')', .code⟩ := cell_of_isDelimiter hregion.closes
  rw [Scan.text_ofText]
  exact ⟨(labelFrom_between hregion.ordered hopens hcloses).2, hcloses⟩

/-- A text that ends in code, without a slash at its end, may be followed by an argument and a
closing parenthesis. -/
theorem ends_of_argument {lead item : Text} (hlead : EndsInCode lead)
    (h : Context.code.after item = .code ∨ Context.code.after item = .lineComment) :
    EndsInComment (lead ++ item ++ [')']) ∨ EndsInCode (lead ++ item ++ [')']) := by
  have hafter : Context.code.after (lead ++ item ++ [')']) = Context.code.after (item ++ [')']) := by
    rw [List.append_assoc]
    exact (labelFrom_append hlead.1 (not_slashMeets_of_last hlead.2 _)).2
  rcases h with hcode | hcomment
  · right
    have hmeets : ¬ SlashMeets (labelFrom .code item) [')'] := by simp [SlashMeets]
    refine ⟨?_, by simp⟩
    rw [hafter, (labelFrom_append hcode hmeets).2]
    rfl
  · left
    rw [EndsInComment, hafter, (labelFrom_append_of_lineComment hcomment [')']).2]
    rfl

/-- What takes the place of a call ends in code or in a line comment. -/
theorem CallReplacement.ends {arguments t : Text} (h : CallReplacement {} arguments t)
    (hcode : Context.code.after arguments = .code) : EndsInComment t ∨ EndsInCode t := by
  cases h with
  | props => exact .inr (by decide)
  | emit => exact .inr (by decide)
  | declaredEmit => exact .inr (by decide)
  | marker kind => exact .inl (endsInComment_marker (by cases kind <;> decide))
  | nothing => exact .inr (by decide)
  | defaults =>
    apply ends_of_argument (by decide)
    cases hitems : (Scan.ofText arguments).arguments.drop 1 with
    | nil => exact .inl (by decide)
    | cons item rest =>
      refine after_argument hcode (List.mem_of_mem_drop (i := 1) ?_)
      rw [hitems]
      exact List.mem_cons_self ..

/-- The text of an edit ends in a line comment, or it ends in code and the edit covers a call up to
its closing parenthesis. -/
theorem Edit.HasForm.ends {source : Text} {edit : Edit} (h : edit.HasForm {} (Scan.ofText source)) :
    EndsInComment edit.replacement ∨ EndsInCode edit.replacement ∧
      ∃ stop : Nat, edit.stop = stop ∧ (labelFrom .code source)[stop]? = some ⟨')', .code⟩ := by
  rcases h with ⟨statement, hmarker⟩ | ⟨kind, start, stop, arguments, -, hstop, hcall, hreplacement⟩
  · rw [hmarker]
    exact .inl (endsInComment_marker (Text.not_mem_joinWith_words statement))
  · obtain ⟨hcode, hcloses⟩ := hcall.ends
    rcases hreplacement.ends hcode with hcomment | hends
    · exact .inl hcomment
    · exact .inr ⟨hends, stop, hstop, hcloses⟩

end SetupScript
