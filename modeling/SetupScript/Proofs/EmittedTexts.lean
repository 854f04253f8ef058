import SetupScript.Proofs.ExpansionRuns
import SetupScript.Proofs.Recompilation

/-!
# The texts that generated punctuation follows

A compilation puts a comma after the props, the events and what is exposed, and a parenthesis after
the defaults of a rewritten `withDefaults` call. Each of these texts is a fixed one or a stretch of the
script between two delimiters, with the white space around it taken off. Such a stretch ends in code.
Without its last line break it ends in a line comment, if its last word stands in one, and then the
punctuation is part of that comment.
-/

namespace SetupScript

/-! ## How a trimmed stretch ends -/

/-- A step leads into a line comment just when it reads one, except for the line break at its end. -/
theorem Context.readMode_eq_lineComment {context next : Context} {c : Char} {d : Option Char} {width : Nat}
    (h : context.step c d = (next, width)) (hc : width = 1 → c ≠ '\n') :
    context.readMode next = .lineComment ↔ next = .lineComment := by
  cases context with
  | code => cases next <;> simp [readMode, mode]
  | lineComment =>
    simp only [step] at h
    split at h
    · next hbreak =>
      obtain ⟨-, rfl⟩ := Prod.mk.inj h
      exact absurd hbreak (hc rfl)
    · obtain ⟨rfl, -⟩ := Prod.mk.inj h
      simp [readMode, mode]
  | blockComment => simp only [step] at h; grind [readMode, mode]
  | quoted quote => simp only [step] at h; grind [readMode, mode]
  | template => simp only [step] at h; grind [readMode, mode]

/-- A text that does not end with a line break ends in a line comment just when its last character
stands in one. -/
theorem after_eq_lineComment_iff {context : Context} {t : Text} {c : Char} (hlast : t.getLast? = some c)
    (hc : c ≠ '\n') : context.after t = .lineComment ↔
      ∃ d, (labelFrom context t).getLast? = some ⟨d, .lineComment⟩ := by
  induction context, t using Context.scan_induction with
  | nil context => simp at hlast
  | single context d rest next hstep ih =>
    rw [Context.after_single hstep, labelFrom_single hstep]
    cases rest with
    | nil =>
      obtain rfl : d = c := by simpa using hlast
      simp [Context.readMode_eq_lineComment hstep fun _ => hc]
    | cons e tail =>
      rw [ih (by simpa using hlast), List.getLast?_cons_of_ne_nil]
      simp [← List.length_pos_iff]
  | pair context d e tail next hstep ih =>
    rw [Context.after_pair hstep, labelFrom_pair hstep]
    cases tail with
    | nil => simp [Context.readMode_eq_lineComment hstep fun hwidth => by cases hwidth]
    | cons f tail =>
      rw [ih (by simpa using hlast), List.getLast?_cons_of_ne_nil (List.cons_ne_nil _ _),
        List.getLast?_cons_of_ne_nil]
      simp [← List.length_pos_iff]
  | cut context d next hstep =>
    rw [Context.after_cut hstep, labelFrom_cut hstep]
    simp [Context.readMode_eq_lineComment hstep fun hwidth => by cases hwidth]

/-- A trimmed text does not end with white space. -/
theorem Text.isBlank_of_getLast?_trim {t : Text} {c : Char} (h : (trim t).getLast? = some c) :
    isBlank c = false := by
  have hhead := List.head?_dropWhile_not isBlank (trimStart t).reverse
  rw [trim, trimEnd, List.getLast?_reverse] at h
  rw [h] at hhead
  exact hhead

/-- Among blank cells there is no other. -/
theorem find?_solid_of_blanks {cells : List Cell} (h : (cells.map Cell.char).all Text.isBlank) :
    cells.reverse.find? (fun cell => !Text.isBlank cell.char) = none := by
  refine List.find?_eq_none.mpr fun cell hcell => ?_
  have hblank := List.all_eq_true.mp h cell.char (List.mem_map_of_mem (List.mem_reverse.mp hcell))
  simp [hblank]

/-- The last cell of a trimmed text is the last one of the text that is not blank. -/
theorem find?_solid_labelFrom (s : Text) :
    (labelFrom .code s).reverse.find? (fun cell => !Text.isBlank cell.char) =
      (labelFrom .code (Text.trim s)).getLast? := by
  -- the cells of the text are those of the trimmed one, with blank cells on both sides
  obtain ⟨front, back, hs, hfront, hback⟩ := Text.exists_blanks_trim s
  obtain ⟨rest, hrest⟩ := labelFrom_prefix_append_blanks .code (Text.trim s) hback
  have hchars : rest.map Cell.char = back := by
    have hmap := congrArg (List.map Cell.char) hrest
    rwa [List.map_append, map_char_labelFrom, map_char_labelFrom, List.append_cancel_left_eq] at hmap
  have hsplit : labelFrom .code s =
      front.map (⟨·, .code⟩) ++ (labelFrom .code (Text.trim s) ++ rest) := by
    conv_lhs => rw [hs]
    rw [(labelFrom_plain (all_isPlain_of_blanks hfront) _).1, hrest]
  rw [hsplit, List.reverse_append, List.reverse_append, List.find?_append, List.find?_append,
    find?_solid_of_blanks (hchars ▸ hback), Option.none_or]
  cases hlast : (labelFrom .code (Text.trim s)).getLast? with
  | none =>
    have hblanks : ((front.map fun c => (⟨c, .code⟩ : Cell)).map Cell.char).all Text.isBlank := by
      simpa [Function.comp_def] using hfront
    rw [List.getLast?_eq_none_iff.mp hlast, find?_solid_of_blanks hblanks]
    rfl
  | some cell =>
    have hchar : (Text.trim s).getLast? = some cell.char := by
      rw [← map_char_labelFrom .code (Text.trim s), List.getLast?_map, hlast]
      rfl
    obtain ⟨init, hinit⟩ := List.getLast?_eq_some_iff.mp hlast
    rw [hinit, List.reverse_append, List.reverse_singleton, List.singleton_append,
      List.find?_cons_of_pos (by simp [Text.isBlank_of_getLast?_trim hchar]), Option.some_or]

/-- A trimmed text ends in a line comment just when its last character stands in one. -/
theorem after_trim_eq_lineComment_iff (s : Text) :
    Context.code.after (Text.trim s) = .lineComment ↔
      (labelFrom .code (Text.trim s)).getLast?.any (·.mode == .lineComment) := by
  cases hlast : (Text.trim s).getLast? with
  | none =>
    rw [List.getLast?_eq_none_iff.mp hlast]
    simp
  | some c =>
    have hblank := Text.isBlank_of_getLast?_trim hlast
    have hbreak : c ≠ '\n' := fun hbreak => absurd (hbreak ▸ hblank) (by decide)
    rw [after_eq_lineComment_iff hlast hbreak]
    cases (labelFrom .code (Text.trim s)).getLast? with
    | none => simp
    | some cell =>
      obtain ⟨d, mode⟩ := cell
      simp

/-- The last character of the stretch that is not white space stands in a line comment. -/
def LeavesComment (source : Text) (start stop : Nat) : Prop :=
  ((((labelFrom .code source).drop start).take (stop - start)).reverse.find? fun cell =>
    !Text.isBlank cell.char).any (·.mode == .lineComment)

instance (source : Text) (start stop : Nat) : Decidable (LeavesComment source start stop) :=
  inferInstanceAs (Decidable (_ = true))

/-- A stretch between delimiters without the white space around it ends in code, unless its last word
stands in a line comment. -/
theorem IsArgument.after_trim {source : Text} {start stop : Nat} (h : IsArgument source start stop) :
    (Context.code.after (Text.trim (source.slice start stop)) = .code ↔
      ¬ LeavesComment source start stop) ∧
    (LeavesComment source start stop →
      Context.code.after (Text.trim (source.slice start stop)) = .lineComment) := by
  obtain ⟨hstands, hcode⟩ := h.reads
  have hends := SetupScript.after_trim hcode
  have hcells : ((labelFrom .code source).drop start).take (stop - start) =
      labelFrom .code (source.slice start stop) := by
    have htake := List.prefix_iff_eq_take.mp hstands
    rw [length_labelFrom, h.length_slice] at htake
    exact htake.symm
  have hleaves : Context.code.after (Text.trim (source.slice start stop)) = .lineComment ↔
      LeavesComment source start stop := by
    rw [LeavesComment, hcells, find?_solid_labelFrom, after_trim_eq_lineComment_iff]
  refine ⟨⟨fun hclosed hopen => ?_, fun hclosed => hends.resolve_right (hclosed ∘ hleaves.mp)⟩,
    hleaves.mpr⟩
  rw [hleaves.mpr hopen] at hclosed
  cases hclosed

/-! ## Where definitions come from -/

/-- The text is a fixed one, or a stretch of the source between delimiters without the white space
around it. -/
def IsDefinition (source blank t : Text) : Prop :=
  t = blank ∨ ∃ start stop : Nat, IsArgument source start stop ∧ t = Text.trim (source.slice start stop)

/-- What an argument list defines. -/
theorem IsArgument.isDefinition {source : Text} {start stop : Nat} (h : IsArgument source start stop)
    (blank : Text) : IsDefinition source blank (definedBy blank (source.slice start stop)) := by
  unfold definedBy
  split
  · exact .inl rfl
  · exact .inr ⟨start, stop, h, rfl⟩

/-- What a call defines. -/
theorem Scan.IsCall.isDefinition {source : Text} {kind : MacroKind} {index : Nat} {call : MacroCall}
    (h : (Scan.ofText source).IsCall kind index call.stop call.arguments) (blank : Text) :
    IsDefinition source blank (call.definition blank) := by
  obtain ⟨first, -, harguments, htext⟩ := h.isArgument
  rw [show call.definition blank = definedBy blank call.arguments from rfl, htext]
  exact harguments.isDefinition blank

/-- The defaults of a rewritten call. -/
theorem Rewrite.Valid.isDefinition {source : Text} {rewrite : Rewrite}
    (h : rewrite.Valid (Scan.ofText source)) : IsDefinition source "\x7b\x7d" rewrite.defaults := by
  obtain ⟨first, -, harguments, htext⟩ := h.isCall.isArgument
  rw [Rewrite.defaults, htext]
  cases hitems : (Scan.ofText (source.slice first rewrite.call.stop)).arguments.drop 1 with
  | nil => exact .inl rfl
  | cons item rest =>
    have hitem : item ∈ (Scan.ofText (source.slice first rewrite.call.stop)).arguments :=
      List.mem_of_mem_drop (i := 1) (hitems ▸ List.mem_cons_self ..)
    obtain ⟨start, stop, hstretch, -, -, rfl⟩ := harguments.of_item hitem
    exact .inr ⟨start, stop, hstretch, rfl⟩

/-- An import statement starts with its word. -/
theorem import_of_mem_importMatches {ending t : Text} {found : Text.Match Hoisted}
    (h : found ∈ importMatches ending t) : ("import" : Text) <+: t.drop found.start := by
  have hword {β : Type} {more : Unit → Reader β} (raw : Text.Match β)
      (hraw : raw ∈ Text.findAll Text.outsideMember (Reader.importWord >>= more) t) :
      ("import" : Text) <+: t.drop raw.start := by
    obtain ⟨left, -, hread, -⟩ := Text.mem_findAll hraw
    obtain ⟨_, rest, himport, -⟩ := Reader.bind_eq_some.mp hread
    obtain ⟨gap, htext, -⟩ := Reader.importWord_eq_some.mp himport
    exact ⟨_, htext.symm⟩
  simp only [importMatches_eq, componentStatements, namedStatements, defaultStatements,
    List.mem_append, List.mem_map] at h
  rcases h with (⟨raw, hraw, rfl⟩ | ⟨raw, hraw, rfl⟩) | ⟨raw, hraw, rfl⟩
  · exact hword raw hraw
  · exact hword raw hraw
  · exact hword raw hraw

/-- No other macro and no import starts as `withDefaults` does. -/
theorem not_prefix_withDefaults {word t : Text} (hword : word = "import" ∨
    ∃ kind : MacroKind, kind ≠ .withDefaults ∧ word = kind.name) (h : word <+: t) :
    ¬ MacroKind.withDefaults.name <+: t := by
  intro hdefaults
  have hapart : ¬ word <+: MacroKind.withDefaults.name ∧ ¬ MacroKind.withDefaults.name <+: word := by
    rcases hword with rfl | ⟨kind, hkind, rfl⟩
    · decide
    · cases kind
      case withDefaults => exact absurd rfl hkind
      all_goals decide
  rcases List.prefix_or_prefix_of_prefix h hdefaults with hleft | hright
  · exact hapart.1 hleft
  · exact hapart.2 hright

namespace Draft

/-- What the draft defines comes from the script, and where an edit covers a `withDefaults` call it is
one that rewrites it. -/
structure Sourced (source : Text) (draft : Draft) : Prop where
  scan : draft.scan = Scan.ofText source
  props : ∀ t, draft.props = some t → IsDefinition source "\x7b\x7d" t
  emits : ∀ t, draft.emits = some t → IsDefinition source "[]" t
  expose : ∀ t, draft.expose = some t → IsDefinition source [] t
  defaults : ∀ edit ∈ draft.edits, ∀ start : Nat, edit.start = start →
    MacroKind.withDefaults.name <+: source.drop start →
      ∃ rewrite : Rewrite, rewrite.Valid (Scan.ofText source) ∧ edit = rewrite.edit draft.settings

/-- After hoisting nothing is defined, and all edits cover imports. -/
theorem sourced_hoisted {settings : Settings} {source : Text} (name : Option Text)
    (strict : Option Bool) (h : ¬ Entangled settings.componentExtension source) :
    (hoisted settings source name strict).Sourced source := by
  obtain ⟨-, hsame, -, -, hprops, hemits, hexpose⟩ := hoisted_facts name strict h
  refine ⟨hsame.scan, by simp [hprops], by simp [hemits], by simp [hexpose],
    fun edit hedit start hstart hdefaults => ?_⟩
  obtain ⟨found, hfound, -, hfirst, -⟩ := exists_mem_of_mem_hoisted h hedit
  obtain rfl : found.start = start := Int.ofNat_inj.mp (hfirst.symm.trans hstart)
  exact absurd hdefaults (not_prefix_withDefaults (.inl rfl) (import_of_mem_importMatches hfound))

namespace Sourced

variable {source : Text} {draft : Draft}

/-- Logging changes nothing. -/
theorem log (h : draft.Sourced source) (journal : Journal) :
    Sourced source { draft with journal := journal } := ⟨h.scan, h.props, h.emits, h.expose, h.defaults⟩

/-- Rewriting calls of the script. -/
theorem rewritten (h : draft.Sourced source) {rewrites : List Rewrite}
    (hvalid : ∀ rewrite ∈ rewrites, rewrite.Valid (Scan.ofText source)) (journal : Journal) :
    (draft.rewritten rewrites journal).Sourced source := by
  refine ⟨h.scan, fun t ht => ?_, h.emits, h.expose, fun edit hedit start hstart hdefaults => ?_⟩
  · rcases Option.or_eq_some_iff.mp ht with hprops | ⟨-, hfirst⟩
    · exact h.props t hprops
    · obtain ⟨rewrite, hhead, rfl⟩ := Option.map_eq_some_iff.mp hfirst
      have hrewrite := hvalid rewrite (List.mem_of_head? hhead)
      obtain ⟨q, -, -, first, last, -, -, hstretch, hdefinition⟩ := hrewrite.isCall.carried hrewrite.carries
      rw [hdefinition]
      exact hstretch.isDefinition _
  · rcases List.mem_append.mp hedit with hedit | hedit
    · exact h.defaults edit hedit start hstart hdefaults
    · obtain ⟨rewrite, hrewrite, rfl⟩ := List.mem_map.mp hedit
      exact ⟨rewrite, hvalid rewrite hrewrite, rfl⟩

/-- Replacing a call of another macro. -/
theorem expanded (h : draft.Sourced source) {kind : MacroKind} (hkind : kind ≠ .withDefaults)
    {index : Nat} {call : MacroCall} (hcall : draft.firstCall? kind = some (index, call))
    (replacement : Text) (boundName : Option Text) (journal : Journal) :
    (draft.expanded index call replacement boundName journal).Sourced source := by
  refine ⟨h.scan, h.props, h.emits, h.expose, fun edit hedit start hstart hdefaults => ?_⟩
  rcases List.mem_append.mp hedit with hedit | hedit
  · exact h.defaults edit hedit start hstart hdefaults
  · obtain rfl := List.mem_singleton.mp hedit
    obtain rfl : index = start := Int.ofNat_inj.mp hstart
    have hnamed := (Scan.of_mem_callOffsets (of_firstCall? hcall).1).2
    rw [h.scan, Scan.text_ofText] at hnamed
    exact absurd hdefaults (not_prefix_withDefaults (.inr ⟨kind, hkind, rfl⟩) hnamed)

/-- What the call that a pass works on defines. -/
theorem isDefinition (h : draft.Sourced source) {kind : MacroKind} {index : Nat} {call : MacroCall}
    (hcall : draft.firstCall? kind = some (index, call)) (blank : Text) :
    IsDefinition source blank (call.definition blank) := by
  have hisCall := (of_firstCall? hcall).2.2.2.isCall
  rw [h.scan] at hisCall
  exact hisCall.isDefinition blank

/-- The `defineProps` pass. -/
theorem expandProps (h : draft.Sourced source) : draft.expandProps.draft.Sourced source := by
  rcases draft.expandProps_cases with ⟨-, journal, hrun⟩ |
    ⟨index, call, hcall, ⟨-, -, hrun⟩ | ⟨-, replacement, boundName, journal, error, hrun, -⟩⟩
  · rw [hrun]
    exact h.log journal
  · rw [hrun]
    exact h
  · rw [hrun]
    obtain ⟨hscan, hprops, hemits, hexpose, hdefaults⟩ :=
      h.expanded (by decide) hcall replacement boundName journal
    exact ⟨hscan, fun t ht => Option.some.inj ht ▸ h.isDefinition hcall _, hemits, hexpose, hdefaults⟩

/-- The `defineEmits` pass. -/
theorem expandEmits (h : draft.Sourced source) : draft.expandEmits.draft.Sourced source := by
  rcases draft.expandEmits_cases with ⟨-, journal, hrun⟩ |
    ⟨index, call, hcall, replacement, boundName, journal, error, hrun, -⟩
  · rw [hrun]
    exact h.log journal
  · rw [hrun]
    obtain ⟨hscan, hprops, hemits, hexpose, hdefaults⟩ :=
      h.expanded (by decide) hcall replacement boundName journal
    exact ⟨hscan, hprops, fun t ht => Option.some.inj ht ▸ h.isDefinition hcall _, hexpose, hdefaults⟩

/-- The `defineExpose` pass. -/
theorem expandExpose (h : draft.Sourced source) : draft.expandExpose.draft.Sourced source := by
  rcases draft.expandExpose_cases with ⟨-, journal, hrun⟩ |
    ⟨index, call, hcall, replacement, boundName, journal, hrun⟩
  · rw [hrun]
    exact h.log journal
  · rw [hrun]
    obtain ⟨hscan, hprops, hemits, hexpose, hdefaults⟩ :=
      h.expanded (by decide) hcall replacement boundName journal
    refine ⟨hscan, hprops, hemits, fun t ht => ?_, hdefaults⟩
    obtain rfl := Option.some.inj ht
    have hdefinition := h.isDefinition hcall []
    rcases hempty : (Text.trim call.arguments).isEmpty with _ | _
    · simpa [MacroCall.definition, hempty] using hdefinition
    · exact .inl (List.isEmpty_iff.mp hempty)

end Sourced

end Draft

/-! ## What a compilation emits -/

/-- The texts that generated punctuation follows: the definitions of an output, and the defaults in the
edit over a `withDefaults` call. -/
inductive EmittedText (settings : Settings) (source : Text) (output : Output) (edits : EditList) :
    Text → Prop
  | props {t : Text} (h : output.props = some t) : EmittedText settings source output edits t
  | emits {t : Text} (h : output.emits = some t) : EmittedText settings source output edits t
  | expose {t : Text} (h : output.expose = some t) : EmittedText settings source output edits t
  | defaults {t arguments : Text} {edit : Edit} {start stop : Nat} (hedit : edit ∈ edits)
      (hstart : edit.start = start) (hstop : edit.stop = stop)
      (hcall : (Scan.ofText source).IsCall .withDefaults start stop arguments)
      (hreplacement : edit.replacement =
        settings.defaultsHelper ++ "(" ++ settings.propsParam ++ ", " ++ t ++ ")") :
      EmittedText settings source output edits t

/-- The passes of a compilation that gives an output leave definitions that come from the script. -/
theorem sourced_of_compiles {settings : Settings} {source : Text} {name : Option Text}
    {strict : Option Bool} {output : Output}
    (h : (compileScript settings source name strict).value = .ok output) :
    (expandScript settings source name strict).draft.Sourced source ∧
      (expandScript settings source name strict).draft.settings = settings ∧
      output = (expandScript settings source name strict).draft.finish.1 := by
  obtain ⟨hentangled, hsame, hdraft, houtput⟩ := Draft.stages_of_compiles h
  obtain ⟨rewrites, journal, hvalid, -, -, hbefore⟩ := Draft.beforeProps_run settings source name strict
  have hhoisted := Draft.sourced_hoisted name strict hentangled
  rw [hhoisted.scan] at hvalid
  have hdefaults : (Draft.beforeProps settings source name strict).Sourced source := by
    rw [hbefore]
    exact hhoisted.rewritten hvalid journal
  have hsourced : (expandScript settings source name strict).draft.Sourced source := by
    rw [hdraft]
    exact hdefaults.expandProps.expandEmits.expandExpose
  exact ⟨hsourced, hsame.settings, houtput⟩

/-- A text that is emitted is a fixed one or comes from the script. -/
theorem EmittedText.isDefinition {settings : Settings} {source t : Text} {draft : Draft}
    (h : EmittedText settings source draft.finish.1 draft.edits t) (hsettings : draft.settings = settings)
    (hsourced : draft.Sourced source) :
    t = "\x7b\x7d" ∨ t = "[]" ∨
      ∃ start stop : Nat, IsArgument source start stop ∧ t = Text.trim (source.slice start stop) := by
  cases h with
  | props h => exact (hsourced.props t h).imp id .inr
  | emits h => exact .inr (hsourced.emits t h)
  | expose h =>
    obtain ⟨hexpose, hne⟩ := Option.filter_eq_some_iff.mp h
    rcases hsourced.expose t hexpose with rfl | hstretch
    · cases hne
    · exact .inr (.inr hstretch)
  | defaults hedit hstart hstop hcall hreplacement =>
    have hnamed := hcall.named
    rw [Scan.text_ofText] at hnamed
    obtain ⟨rewrite, hvalid, rfl⟩ := hsourced.defaults _ hedit _ hstart hnamed
    have hdefaults : t = rewrite.defaults := by
      rw [hsettings] at hreplacement
      exact (List.append_cancel_left (List.append_cancel_right hreplacement)).symm
    rw [hdefaults]
    exact hvalid.isDefinition.imp id .inr

/-- A comma or a parenthesis after a text is code just when the text ends in code. -/
theorem closed_iff_punctuation_code {t : Text}
    (h : Context.code.after t = .code ∨ Context.code.after t = .lineComment) {c : Char}
    (hc : c ∈ [',', ')']) :
    Context.code.after t = .code ↔ (labelFrom .code (t ++ [c])).getLast? = some ⟨c, .code⟩ := by
  have hplain : isPlain c ∧ c ≠ '\n' := by
    have hall : [',', ')'].all fun c => isPlain c && c != '\n' := by decide
    simpa using List.all_eq_true.mp hall c hc
  rcases h with hcode | hcomment
  · have hmeets : ¬ SlashMeets (labelFrom .code t) [c] := by
      rintro ⟨-, hhead | hhead⟩
      · obtain rfl : c = '/' := by simpa using hhead
        simp at hc
      · obtain rfl : c = '*' := by simpa using hhead
        simp at hc
    have hlast : labelFrom .code [c] = [⟨c, .code⟩] := by
      rw [labelFrom_single (step_of_isPlain hplain.1 none), labelFrom_nil]
      rfl
    rw [(labelFrom_append hcode hmeets).1, hlast, List.getLast?_concat]
    exact iff_of_true hcode rfl
  · have hlast : labelFrom .lineComment [c] = [⟨c, .lineComment⟩] := by
      have hstep : Context.step .lineComment c ([] : Text).head? = (.lineComment, 1) := by
        simp [Context.step, hplain.2]
      rw [labelFrom_single hstep, labelFrom_nil]
      rfl
    rw [(labelFrom_append_of_lineComment hcomment [c]).1, hlast, List.getLast?_concat, hcomment]
    simp

/-- Every emitted text is a fixed one, which ends in code, or a stretch of the script between delimiters
without the white space around it. Such a stretch ends in code, and punctuation after it is code, unless
its last word stands in a line comment; then it ends in that comment. -/
theorem emitted_text_closed_iff_no_comment_left (settings : Settings) (source : Text)
    (name : Option Text) (strict : Option Bool) (output : Output)
    (hok : (compileScript settings source name strict).value = .ok output) (t : Text)
    (ht : EmittedText settings source output (expandScript settings source name strict).draft.edits t) :
    (∀ c ∈ [',', ')'],
      (Context.code.after t = .code ↔ (labelFrom .code (t ++ [c])).getLast? = some ⟨c, .code⟩)) ∧
    ((t = "\x7b\x7d" ∨ t = "[]") ∧ Context.code.after t = .code ∨
      ∃ start stop : Nat, IsArgument source start stop ∧ t = Text.trim (source.slice start stop) ∧
        (Context.code.after t = .code ↔ ¬ LeavesComment source start stop) ∧
        (LeavesComment source start stop → Context.code.after t = .lineComment)) := by
  obtain ⟨hsourced, hsettings, rfl⟩ := sourced_of_compiles hok
  have hfixed (h : t = "\x7b\x7d" ∨ t = "[]") : Context.code.after t = .code := by
    rcases h with rfl | rfl
    · decide
    · decide
  rcases ht.isDefinition hsettings hsourced with hbraces | hbrackets | ⟨start, stop, hstretch, rfl⟩
  · exact ⟨fun c hc => closed_iff_punctuation_code (.inl (hfixed (.inl hbraces))) hc,
      .inl ⟨.inl hbraces, hfixed (.inl hbraces)⟩⟩
  · exact ⟨fun c hc => closed_iff_punctuation_code (.inl (hfixed (.inr hbrackets))) hc,
      .inl ⟨.inr hbrackets, hfixed (.inr hbrackets)⟩⟩
  · exact ⟨fun c hc => closed_iff_punctuation_code (SetupScript.after_trim hstretch.reads.2) hc,
      .inr ⟨start, stop, hstretch, rfl, hstretch.after_trim⟩⟩

/-- The line break after a comment at the end of the arguments is trimmed off, and the comma that is
generated after the props stands in the comment. -/
theorem props_left_open :
    ∃ output, (compileScript {} "defineProps(['a'] // names\n)" none none).value = .ok output ∧
      output.props = some "['a'] // names" ∧
      Context.code.after "['a'] // names" = .lineComment ∧
      (labelFrom .code ("['a'] // names" ++ [','])).getLast? = some ⟨',', .lineComment⟩ := by
  have hdefined : (plainRun "defineProps(['a'] // names\n)" none).draft.props = some "['a'] // names" := by
    decide +kernel
  obtain ⟨output, hok, hprops, -⟩ := compileScript_of_plain "defineProps(['a'] // names\n)" none
    (by decide +kernel) (by decide +kernel) (by decide +kernel)
  exact ⟨output, hok, hprops.trans hdefined, by decide, by decide⟩

/-- A comment inside the arguments leaves nothing open. -/
theorem props_closed_after_inner_comment :
    ∃ output, (compileScript {} "defineProps([ // names\n'a'])" none none).value = .ok output ∧
      output.props = some "[ // names\n'a']" ∧ Context.code.after "[ // names\n'a']" = .code ∧
      ∃ start stop : Nat, IsArgument "defineProps([ // names\n'a'])" start stop ∧
        (("[ // names\n'a']" : Text) =
          Text.trim (Text.slice "defineProps([ // names\n'a'])" start stop)) ∧
        ¬ LeavesComment "defineProps([ // names\n'a'])" start stop := by
  have hdefined : (plainRun "defineProps([ // names\n'a'])" none).draft.props =
      some "[ // names\n'a']" := by decide +kernel
  obtain ⟨output, hok, hprops, -⟩ := compileScript_of_plain "defineProps([ // names\n'a'])" none
    (by decide +kernel) (by decide +kernel) (by decide +kernel)
  rw [hdefined] at hprops
  have hends : Context.code.after "[ // names\n'a']" = .code := by decide
  obtain ⟨-, ⟨hfixed, -⟩ | ⟨start, stop, hstretch, htext, hclosed, -⟩⟩ :=
    emitted_text_closed_iff_no_comment_left {} "defineProps([ // names\n'a'])" none none output hok _
      (.props hprops)
  · exact absurd hfixed (by decide)
  · exact ⟨output, hok, hprops, hends, start, stop, hstretch, htext, hclosed.mp hends⟩

end SetupScript
