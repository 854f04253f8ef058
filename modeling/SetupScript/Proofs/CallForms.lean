import SetupScript.Proofs.TextLines
import SetupScript.Proofs.WrittenNames

/-!
# Calls as they are written

The name of a macro, an opening parenthesis, arguments whose brackets are balanced, and a closing
parenthesis: wherever such a text stands in code outside a longer name, a call of the macro is found
there, with that extent and those arguments, whatever follows.

A list of two arguments of this kind is cut at the comma between them.
-/

namespace SetupScript

/-! ## Balanced texts -/

/-- The three kinds of bracket. -/
def bracketKinds : List (Char × Char) := [('(', ')'), ('{', '}'), ('[', ']')]

/-- Read from code the text ends in code, and of each kind of bracket as many are closed in code as
opened, and on the way never more. -/
structure Balanced (t : Text) : Prop where
  code : Context.code.after t = .code
  nonneg : ∀ kind ∈ bracketKinds, ∀ k ≤ t.length,
    0 ≤ surplus [kind.1] [kind.2] ((labelFrom .code t).take k)
  zero : ∀ kind ∈ bracketKinds, surplus [kind.1] [kind.2] (labelFrom .code t) = 0

instance (t : Text) : Decidable (Balanced t) :=
  decidable_of_iff
    (Context.code.after t = .code ∧
      (bracketKinds.all fun kind => (List.range (t.length + 1)).all fun k =>
        0 ≤ surplus [kind.1] [kind.2] ((labelFrom .code t).take k)) ∧
      bracketKinds.all fun kind => surplus [kind.1] [kind.2] (labelFrom .code t) = 0)
    ⟨fun h => ⟨h.1, by simpa [Nat.lt_succ_iff] using h.2.1, by simpa using h.2.2⟩,
      fun h => ⟨h.code, by simpa [Nat.lt_succ_iff] using h.nonneg, by simpa using h.zero⟩⟩

/-- Past the end of a balanced text its surplus stays at zero. -/
theorem Balanced.surplus_take_nonneg {t : Text} (h : Balanced t) (kind : Char × Char)
    (hkind : kind ∈ bracketKinds) (k : Nat) :
    0 ≤ surplus [kind.1] [kind.2] ((labelFrom .code t).take k) := by
  rcases Nat.le_total k t.length with hle | hge
  · exact h.nonneg kind hkind k hle
  · rw [List.take_of_length_le (by simpa using hge)]
    exact Int.le_of_eq (h.zero kind hkind).symm

/-- Balanced texts compose unless a slash meets what follows it. -/
theorem Balanced.append {s t : Text} (hs : Balanced s) (ht : Balanced t)
    (hmeets : ¬ SlashMeets (labelFrom .code s) t) : Balanced (s ++ t) := by
  obtain ⟨hcells, hafter⟩ := labelFrom_append hs.code hmeets
  refine ⟨hafter.trans ht.code, fun kind hkind k _ => ?_, fun kind hkind => ?_⟩
  · rw [hcells, List.take_append, surplus_append]
    exact Int.add_nonneg (hs.surplus_take_nonneg kind hkind k) (ht.surplus_take_nonneg kind hkind _)
  · rw [hcells, surplus_append, hs.zero kind hkind, ht.zero kind hkind]
    rfl

/-- A character that means nothing to a scan and is no bracket. -/
def isNeutral (c : Char) : Bool :=
  isPlain c && bracketKinds.all fun kind => c != kind.1 && c != kind.2

/-- A text of neutral characters is balanced. -/
theorem balanced_of_neutral {t : Text} (h : t.all isNeutral) : Balanced t := by
  have hplain : t.all isPlain := by
    refine List.all_eq_true.mpr fun c hc => ?_
    have hneutral := List.all_eq_true.mp h c hc
    rw [isNeutral, Bool.and_eq_true] at hneutral
    exact hneutral.1
  obtain ⟨hcells, hafter⟩ := labelFrom_plain hplain []
  rw [List.append_nil] at hcells hafter
  rw [labelFrom_nil, List.append_nil] at hcells
  have hnone {part : Text} (hpart : ∀ c ∈ part, isNeutral c) {kind : Char × Char}
      (hkind : kind ∈ bracketKinds) : surplus [kind.1] [kind.2] (part.map (⟨·, .code⟩)) = 0 := by
    induction part with
    | nil => rfl
    | cons c rest ih =>
      obtain ⟨hc, hrest⟩ := List.forall_mem_cons.mp hpart
      rw [isNeutral, Bool.and_eq_true] at hc
      have hkinds := List.all_eq_true.mp hc.2 kind hkind
      simp only [Bool.and_eq_true, bne_iff_ne] at hkinds
      rw [List.map_cons, surplus_cons, ih hrest]
      simp [Cell.delimiterStep, Cell.isDelimiter, Ne.symm hkinds.1, Ne.symm hkinds.2]
  refine ⟨by rw [hafter, Context.after_nil], fun kind hkind k _ => ?_, fun kind hkind => ?_⟩
  · rw [hcells, ← List.map_take]
    exact Int.le_of_eq (hnone (fun c hc => List.all_eq_true.mp h c (List.mem_of_mem_take hc)) hkind).symm
  · rw [hcells, hnone (List.all_eq_true.mp h) hkind]

/-- Parentheses around a text that ends in code are code. -/
theorem labelFrom_parenthesized {inner : Text} (h : Context.code.after inner = .code) (tail : Text) :
    labelFrom .code ('(' :: (inner ++ ')' :: tail)) =
        ⟨'(', .code⟩ :: (labelFrom .code inner ++ ⟨')', .code⟩ :: labelFrom .code tail) ∧
      Context.code.after ('(' :: (inner ++ ')' :: tail)) = Context.code.after tail := by
  have hopen : Context.step .code '(' (inner ++ ')' :: tail).head? = (.code, 1) :=
    step_of_isPlain (by decide) _
  have hclose : Context.step .code ')' tail.head? = (.code, 1) := step_of_isPlain (by decide) _
  have hmeets : ¬ SlashMeets (labelFrom .code inner) (')' :: tail) := fun hmeets => by
    simp [SlashMeets] at hmeets
  obtain ⟨hcells, hafter⟩ := labelFrom_append h hmeets
  rw [labelFrom_single hopen, hcells, labelFrom_single hclose, Context.after_single hopen, hafter,
    Context.after_single hclose]
  exact ⟨rfl, rfl⟩

/-- A balanced text in parentheses is balanced. -/
theorem Balanced.parenthesized {inner : Text} (h : Balanced inner) :
    Balanced ('(' :: (inner ++ [')'])) := by
  obtain ⟨hcells, hafter⟩ := labelFrom_parenthesized h.code []
  rw [labelFrom_nil] at hcells
  have hsteps (kind : Char × Char) (hkind : kind ∈ bracketKinds) :
      0 ≤ Cell.delimiterStep [kind.1] [kind.2] ⟨'(', .code⟩ ∧
        Cell.delimiterStep [kind.1] [kind.2] ⟨'(', .code⟩ +
          Cell.delimiterStep [kind.1] [kind.2] ⟨')', .code⟩ = 0 := by
    simp only [bracketKinds, List.mem_cons, List.not_mem_nil, or_false] at hkind
    rcases hkind with rfl | rfl | rfl
    · decide
    · decide
    · decide
  have hzero (kind : Char × Char) (hkind : kind ∈ bracketKinds) :
      surplus [kind.1] [kind.2] (labelFrom .code ('(' :: (inner ++ [')']))) = 0 := by
    have hboth := (hsteps kind hkind).2
    rw [hcells, surplus_cons, surplus_append, h.zero kind hkind, surplus_cons, surplus_nil]
    omega
  refine ⟨hafter.trans Context.after_nil, fun kind hkind k _ => ?_, hzero⟩
  rcases Nat.lt_or_ge (inner.length + 1) k with hpast | hwithin
  · rw [List.take_of_length_le (by simp; omega)]
    exact Int.le_of_eq (hzero kind hkind).symm
  · rw [hcells]
    cases k with
    | zero => simp
    | succ k =>
      rw [List.take_succ_cons, surplus_cons, List.take_append_of_le_length (by simpa using hwithin)]
      exact Int.add_nonneg (hsteps kind hkind).1 (h.surplus_take_nonneg kind hkind k)

/-! ## Finding a call -/

/-- A call of a macro as it is written. -/
def callText (kind : MacroKind) (arguments : Text) : Text := kind.name ++ '(' :: (arguments ++ [')'])

/-- How long a call is. -/
theorem length_callText (kind : MacroKind) (arguments : Text) :
    (callText kind arguments).length = kind.name.length + arguments.length + 2 := by
  simp only [callText, List.length_append, List.length_cons, List.length_nil]
  omega

/-- The names of macros are words. -/
theorem MacroKind.name_isWord (kind : MacroKind) : kind.name.all Text.isNameChar ∧ kind.name ≠ [] := by
  cases kind <;> decide

/-- The cells of a call whose arguments end in code. -/
theorem labelFrom_callText (kind : MacroKind) {arguments : Text}
    (h : Context.code.after arguments = .code) (tail : Text) :
    labelFrom .code (callText kind arguments ++ tail) = kind.name.map (⟨·, .code⟩) ++
      ⟨'(', .code⟩ :: (labelFrom .code arguments ++ ⟨')', .code⟩ :: labelFrom .code tail) := by
  have htext : callText kind arguments ++ tail = kind.name ++ '(' :: (arguments ++ ')' :: tail) := by
    simp only [callText, List.append_assoc, List.cons_append, List.nil_append]
  have hplain : kind.name.all isPlain := by cases kind <;> decide
  rw [htext, (labelFrom_plain hplain _).1, (labelFrom_parenthesized h _).1]

/-- Cells that spell a name are taken off the front. -/
theorem spelled?_map (name : Text) (mode : Mode) (after : List Cell) :
    spelled? name (name.map (⟨·, mode⟩) ++ after) = some after := by
  induction name with
  | nil => rfl
  | cons c name ih => simp [spelled?, ih]

namespace Scan

/-- The characters before the offsets of a scan are those of its text. -/
theorem charBefore_ofText (t : Text) (k : Nat) :
    charBefore none (ofText t).cells k = Text.charBefore none t k := by
  cases k with
  | zero => rfl
  | succ k => rw [charBefore, Text.charBefore, ← List.getElem?_map, ofText, map_char_labelFrom]

/-- The arguments that stand in parentheses are read with their extent. -/
theorem callFrom_of_cells {t arguments : Text} {paren : Nat} {rest : List Cell}
    (hcells : (ofText t).cells.drop paren =
      ⟨'(', .code⟩ :: (labelFrom .code arguments ++ ⟨')', .code⟩ :: rest))
    (harguments : Balanced arguments) (index : Int) (kind : MacroKind) :
    (ofText t).callFrom index kind paren =
      .ok ⟨kind, index, paren + 1 + arguments.length, arguments, none⟩ := by
  have hdrop : t.drop paren = '(' :: (arguments ++ ')' :: rest.map Cell.char) := by
    have hchars := congrArg (List.map Cell.char) hcells
    rw [List.map_drop, ofText, map_char_labelFrom] at hchars
    simpa using hchars
  have hregion : (ofText t).balanced? paren "(" ")" = some ⟨paren, paren + 1 + arguments.length,
      (t.drop paren).take (arguments.length + 2)⟩ := by
    have hfound := balanced?_of_cells ['('] [')'] hcells (by decide) (by decide)
      (fun j hj => harguments.nonneg ('(', ')') (by decide) j (by simpa using hj))
      (harguments.zero ('(', ')') (by decide))
    rw [length_labelFrom, text_ofText] at hfound
    exact hfound
  have hinner : Span.inner ⟨paren, paren + 1 + arguments.length,
      (t.drop paren).take (arguments.length + 2)⟩ = arguments := by
    have hwidth : paren + 1 + arguments.length - paren - 1 = arguments.length := by omega
    rw [inner_eq_of_balanced? hregion, text_ofText, ← List.drop_drop, hdrop, hwidth]
    exact List.take_left
  have hangle : (ofText t).text.at? paren ≠ some '<' := by
    have hparen : t[paren]? = some '(' := by
      rw [← Nat.add_zero paren, ← List.getElem?_drop, hdrop]
      rfl
    simp [Text.at?, hparen]
  simp only [callFrom, hangle, if_false, callArguments, hregion, if_true, Except.map, hinner]

section Call

variable {front arguments : Text} (hfront : Context.code.after front = .code) (kind : MacroKind)

include hfront

/-- The cells from a call on that stands where the text before it ends in code. -/
theorem drop_cells_callText (harguments : Context.code.after arguments = .code) (tail : Text) :
    (ofText (front ++ (callText kind arguments ++ tail))).cells.drop front.length =
      kind.name.map (⟨·, .code⟩) ++
        ⟨'(', .code⟩ :: (labelFrom .code arguments ++ ⟨')', .code⟩ :: labelFrom .code tail) := by
  have hmeets : ¬ SlashMeets (labelFrom .code front) (callText kind arguments ++ tail) := by
    obtain ⟨hword, hne⟩ := kind.name_isWord
    rw [callText]
    cases hname : kind.name with
    | nil => exact absurd hname hne
    | cons c rest =>
      rw [hname] at hword
      have hletter := List.all_eq_true.mp hword c (List.mem_cons_self ..)
      rintro ⟨-, hslash | hstar⟩
      · obtain rfl : c = '/' := by simpa using hslash
        exact absurd hletter (by decide)
      · obtain rfl : c = '*' := by simpa using hstar
        exact absurd hletter (by decide)
  rw [ofText, (labelFrom_append hfront hmeets).1, List.drop_left' (length_labelFrom .code front),
    labelFrom_callText kind harguments]

/-- A call is found where it stands in code, outside a longer name. -/
theorem mem_callOffsets_callText (harguments : Context.code.after arguments = .code) (tail : Text)
    (hbefore : front.getLast?.any Text.isNameChar = false) :
    front.length ∈ (ofText (front ++ (callText kind arguments ++ tail))).callOffsets kind.name := by
  refine mem_callOffsetsFrom.mpr ⟨front.length, (Nat.zero_add _).symm, ?_⟩
  rw [charBefore_ofText, Text.charBefore_append, drop_cells_callText hfront kind harguments]
  have hspelled := spelled?_map kind.name .code
    (⟨'(', .code⟩ :: (labelFrom .code arguments ++ ⟨')', .code⟩ :: labelFrom .code tail))
  cases hname : kind.name with
  | nil => exact absurd hname kind.name_isWord.2
  | cons c rest =>
    rw [hname, List.map_cons, List.cons_append] at hspelled
    rw [List.map_cons, List.cons_append, callHere, hspelled]
    simp only [hbefore]
    rfl

/-- The call is read with its extent and its arguments. -/
theorem callAt_callText (harguments : Balanced arguments) (tail : Text) :
    (ofText (front ++ (callText kind arguments ++ tail))).callAt front.length kind =
      .ok ⟨kind, front.length, front.length + kind.name.length + 1 + arguments.length, arguments, none⟩ := by
  have hpast : (ofText (front ++ (callText kind arguments ++ tail))).cells.drop
      (front.length + kind.name.length) =
        ⟨'(', .code⟩ :: (labelFrom .code arguments ++ ⟨')', .code⟩ :: labelFrom .code tail) := by
    rw [← List.drop_drop, drop_cells_callText hfront kind harguments.code,
      List.drop_left' (List.length_map _)]
  have hblanks : (((ofText (front ++ (callText kind arguments ++ tail))).text.drop
      (front.length + kind.name.length)).takeWhile Text.isBlank).length = 0 := by
    rw [text, ← List.map_drop, hpast]
    rfl
  rw [callAt]
  simp only [hblanks, Nat.add_zero]
  exact callFrom_of_cells hpast harguments front.length kind

end Call

/-- Where the only call of a macro is, is where it is called. -/
theorem callOffsets_eq_singleton {scan : Scan} {name : Text} {p : Nat}
    (hmem : p ∈ scan.callOffsets name) (honly : ∀ q ∈ scan.callOffsets name, q = p) :
    scan.callOffsets name = [p] := by
  have hordered : (scan.callOffsets name).Pairwise (· < ·) := pairwise_callOffsetsFrom _ _ _ _
  cases hcalls : scan.callOffsets name with
  | nil => simp [hcalls] at hmem
  | cons first rest =>
    rw [hcalls] at honly hordered
    obtain rfl := honly first (List.mem_cons_self ..)
    cases rest with
    | nil => rfl
    | cons second later =>
      have hlt := (List.pairwise_cons.mp hordered).1 second (List.mem_cons_self ..)
      have hsame := honly second (by simp)
      omega

/-- A name that is called at the start of a text is found there first. -/
theorem findCall?_zero {scan : Scan} {name : Text} (h : 0 ∈ scan.callOffsets name) :
    scan.findCall? name 0 = some 0 := by
  have hordered : (scan.callOffsets name).Pairwise (· < ·) := pairwise_callOffsetsFrom _ _ _ _
  cases hcalls : scan.callOffsets name with
  | nil => simp [hcalls] at h
  | cons first rest =>
    rw [hcalls] at h hordered
    have hfirst : first = 0 := by
      rcases List.mem_cons.mp h with hzero | hlater
      · exact hzero.symm
      · exact absurd ((List.pairwise_cons.mp hordered).1 0 hlater) (Nat.not_lt_zero _)
    simp [findCall?, hcalls, hfirst]

end Scan

/-- What a declaring call defines: its trimmed arguments, or the blank definition. -/
def definedBy (blank arguments : Text) : Text :=
  if (Text.trim arguments).isEmpty then blank else Text.trim arguments

/-- The props definition of an argument that is a `defineProps` call. -/
theorem propsDefinition?_callText {arguments : Text} (h : Balanced arguments) :
    propsDefinition? (callText .defineProps arguments) = some (definedBy "\x7b\x7d" arguments) := by
  have hcalled := Scan.mem_callOffsets_callText Context.after_nil .defineProps h.code [] rfl
  have hcall := Scan.callAt_callText Context.after_nil .defineProps h []
  rw [List.nil_append, List.append_nil, List.length_nil] at hcalled hcall
  simp only [propsDefinition?, Scan.findCall?_zero hcalled, Option.bind_some, hcall]
  rfl

/-- A call with balanced arguments is balanced. -/
theorem Balanced.callText {arguments : Text} (h : Balanced arguments) (kind : MacroKind) :
    Balanced (callText kind arguments) := by
  have hname : Balanced kind.name := balanced_of_neutral (by cases kind <;> decide)
  exact hname.append h.parenthesized fun hmeets => by simp [SlashMeets] at hmeets

/-! ## Argument lists -/

namespace Scan

/-- Marking commas keeps the characters. -/
theorem map_fst_markCommas (paren brace bracket : Int) (cells : List Cell) :
    (markCommas paren brace bracket cells).map Prod.fst = cells.map Cell.char := by
  induction cells generalizing paren brace bracket with
  | nil => rfl
  | cons cell rest ih => rw [markCommas_eq_cons, List.map_cons, ih, List.map_cons]

/-- After a list of cells the three counts have grown by its surpluses. -/
theorem markCommas_append (paren brace bracket : Int) (a b : List Cell) :
    markCommas paren brace bracket (a ++ b) = markCommas paren brace bracket a ++
      markCommas (paren + surplus ['('] [')'] a) (brace + surplus ['{'] ['}'] a)
        (bracket + surplus ['['] [']'] a) b := by
  induction a generalizing paren brace bracket with
  | nil => simp [markCommas]
  | cons cell rest ih =>
    rw [List.cons_append, markCommas_eq_cons, markCommas_eq_cons, ih, List.cons_append]
    simp only [surplus_cons, Int.add_assoc]

/-- Inside parentheses no comma is marked. -/
theorem unmarked_of_open {paren : Int} {cells : List Cell}
    (h : ∀ k ≤ cells.length, 0 < paren + surplus ['('] [')'] (cells.take k)) (brace bracket : Int) :
    (markCommas paren brace bracket cells).all (!·.2) := by
  induction cells generalizing paren brace bracket with
  | nil => rfl
  | cons cell rest ih =>
    have hparen : (paren == 0) = false := by
      have hfirst := h 0 (Nat.zero_le _)
      simp only [List.take_zero, surplus_nil] at hfirst
      simp only [beq_eq_false_iff_ne]
      omega
    rw [markCommas_eq_cons, List.all_cons, hparen, Bool.and_false, Bool.false_and, Bool.false_and]
    refine (Bool.and_eq_true _ _).mpr ⟨rfl, ih (fun k hk => ?_) _ _⟩
    have hlater := h (k + 1) (by simpa using hk)
    rw [List.take_succ_cons, surplus_cons] at hlater
    omega

/-- Where there is no comma none is marked. -/
theorem unmarked_of_no_comma {cells : List Cell} (h : ∀ cell ∈ cells, cell.char ≠ ',')
    (paren brace bracket : Int) : (markCommas paren brace bracket cells).all (!·.2) := by
  induction cells generalizing paren brace bracket with
  | nil => rfl
  | cons cell rest ih =>
    obtain ⟨hcell, hrest⟩ := List.forall_mem_cons.mp h
    rw [markCommas_eq_cons, List.all_cons, ih hrest]
    simp [hcell]

end Scan

/-- No comma of the text stands in code outside all brackets. -/
def NoComma (t : Text) : Prop := (Scan.markCommas 0 0 0 (labelFrom .code t)).all (!·.2)

instance (t : Text) : Decidable (NoComma t) := inferInstanceAs (Decidable (_ = true))

/-- The commas in a call stand in its parentheses. -/
theorem noComma_callText {arguments : Text} (h : Balanced arguments) (kind : MacroKind) :
    NoComma (callText kind arguments) := by
  have hcomma : kind.name.all (· != ',') := by cases kind <;> decide
  have hname : surplus ['('] [')'] (kind.name.map (⟨·, .code⟩)) = 0 := by cases kind <;> decide
  have hcells := labelFrom_callText kind h.code []
  rw [List.append_nil, labelFrom_nil] at hcells
  have hinner (brace bracket : Int) :
      (Scan.markCommas 1 brace bracket (labelFrom .code arguments)).all (!·.2) := by
    refine Scan.unmarked_of_open (fun k hk => ?_) brace bracket
    have hnonneg := h.surplus_take_nonneg ('(', ')') (by decide) k
    simp only at hnonneg
    omega
  rw [NoComma, hcells, Scan.markCommas_append, List.all_append, hname, Int.zero_add,
    Scan.markCommas_eq_cons, List.all_cons, Scan.markCommas_append, List.all_append]
  simp only [Bool.and_eq_true]
  refine ⟨Scan.unmarked_of_no_comma ?_ .., rfl, hinner _ _, Scan.unmarked_of_no_comma ?_ ..⟩
  · simpa using hcomma
  · simp

/-- A text without such a comma is one piece. -/
theorem NoComma.cutMarked {t : Text} (h : NoComma t) :
    Text.cutMarked (Scan.markCommas 0 0 0 (labelFrom .code t)) = [t] := by
  rw [Text.cutMarked_of_unmarked h, Scan.map_fst_markCommas, map_char_labelFrom]

/-- A text that ends in code, with as many brackets closed as opened and no comma outside them, is cut
off at the comma after it. -/
theorem NoComma.cutMarked_append {piece : Text} (h : NoComma piece)
    (hcode : Context.code.after piece = .code)
    (hzero : ∀ kind ∈ bracketKinds, surplus [kind.1] [kind.2] (labelFrom .code piece) = 0) (rest : Text) :
    Text.cutMarked (Scan.markCommas 0 0 0 (labelFrom .code (piece ++ ',' :: rest))) =
      piece :: Text.cutMarked (Scan.markCommas 0 0 0 (labelFrom .code rest)) := by
  have hmeets : ¬ SlashMeets (labelFrom .code piece) (',' :: rest) := fun hmeets => by
    simp [SlashMeets] at hmeets
  have hcomma : Context.step .code ',' rest.head? = (.code, 1) := step_of_isPlain (by decide) _
  have hmark : Scan.markCommas 0 0 0 (labelFrom .code (piece ++ ',' :: rest)) =
      Scan.markCommas 0 0 0 (labelFrom .code piece) ++
        (',', true) :: Scan.markCommas 0 0 0 (labelFrom .code rest) := by
    rw [(labelFrom_append hcode hmeets).1, labelFrom_single hcomma, Scan.markCommas_append,
      hzero ('(', ')') (by decide), hzero ('{', '}') (by decide), hzero ('[', ']') (by decide),
      Scan.markCommas_eq_cons]
    rfl
  rw [hmark, Text.cutMarked_append_cut, h.cutMarked, List.singleton_append]

/-- A list of two arguments is cut at the comma between them. -/
theorem arguments_of_pair {first second : Text} (hfirst : Balanced first) (hnone : NoComma first)
    (hnone' : NoComma second) :
    (Scan.ofText (first ++ ',' :: second)).arguments = Text.trimItems [first, second] := by
  rw [Scan.arguments, Scan.ofText, hnone.cutMarked_append hfirst.code hfirst.zero, hnone'.cutMarked]

end SetupScript
