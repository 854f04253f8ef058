import SetupScript.Proofs.CallForms
import SetupScript.Proofs.EmbeddedText
import SetupScript.Proofs.ReplacementTexts

/-!
# Argument texts and where they stand

The arguments of a call are cut out of the script and scanned again on their own. Such a text begins
right after a parenthesis or a comma in code, and it is read on its own as it is read in the script.
So its calls are calls of the script, its commas are commas of the script, and an argument of an
argument is again a stretch of the script between two delimiters.
-/

namespace SetupScript

/-- The text, read on its own, gives the cells that stand in the source from an offset on. -/
def StandsAt (source : Text) (start : Nat) (t : Text) : Prop :=
  labelFrom .code t <+: (labelFrom .code source).drop start

namespace StandsAt

variable {source s t : Text} {start a b : Nat}

/-- A text that stands in one that stands in the source stands in the source. -/
theorem trans (h : StandsAt source a s) (h' : StandsAt s b t) : StandsAt source (a + b) t := by
  obtain ⟨rest, hrest⟩ := h
  rw [StandsAt, ← List.drop_drop, ← hrest, List.drop_append]
  exact List.IsPrefix.trans h' (List.prefix_append _ _)

/-- The cells of the text are those of the source. -/
theorem cell (h : StandsAt source start t) {k : Nat} (hk : k < t.length) :
    (labelFrom .code source)[start + k]? = (labelFrom .code t)[k]? := by
  obtain ⟨rest, hrest⟩ := h
  rw [← List.getElem?_drop, ← hrest, List.getElem?_append_left (by simpa using hk)]

/-- A cell of the text is one of the source. -/
theorem cell_of_some (h : StandsAt source start t) {k : Nat} {cell : Cell}
    (hcell : (labelFrom .code t)[k]? = some cell) :
    (labelFrom .code source)[start + k]? = some cell := by
  obtain ⟨hk, -⟩ := List.getElem?_eq_some_iff.mp hcell
  rw [h.cell (by simpa using hk), hcell]

/-- The characters of the text are those of the source. -/
theorem text (h : StandsAt source start t) : t <+: source.drop start := by
  have hchars := List.IsPrefix.map Cell.char h
  rwa [map_char_labelFrom, List.map_drop, map_char_labelFrom] at hchars

/-- A stretch of the text is a stretch of the source. -/
theorem slice (h : StandsAt source start t) {i j : Nat} (hj : j ≤ t.length) :
    t.slice i j = source.slice (start + i : Nat) (start + j : Nat) := by
  obtain ⟨rest, hrest⟩ := h.text
  rw [Text.slice_natCast, Text.slice_natCast, ← List.drop_drop, ← hrest, Nat.add_sub_add_left]
  by_cases hi : i ≤ j
  · rw [List.drop_append_of_le_length (by omega), List.take_append_of_le_length (by simp; omega)]
  · rw [Nat.sub_eq_zero_of_le (by omega), List.take_zero, List.take_zero]

end StandsAt

/-- White space at the end changes no cell before it. -/
theorem labelFrom_prefix_append_blanks (context : Context) (t : Text) {blanks : Text}
    (h : blanks.all Text.isBlank) : labelFrom context t <+: labelFrom context (t ++ blanks) := by
  induction blanks generalizing t with
  | nil => simp
  | cons b rest ih =>
    simp only [List.all_cons, Bool.and_eq_true] at h
    obtain ⟨mode, hcells⟩ := labelFrom_concat_blank context t h.1
    rw [List.append_cons]
    refine List.IsPrefix.trans ?_ (ih (t ++ [b]) h.2)
    rw [hcells]
    exact List.prefix_append _ _

/-- Without the white space around it a text stands where it stood, after blanks. -/
theorem standsAt_trim (t : Text) :
    ∃ k, StandsAt t k (Text.trim t) ∧ k + (Text.trim t).length ≤ t.length ∧
      (t.take k).all Text.isBlank ∧ (t.drop (k + (Text.trim t).length)).all Text.isBlank := by
  obtain ⟨front, back, ht, hfront, hback⟩ := Text.exists_blanks_trim t
  have hlength : t.length = front.length + ((Text.trim t).length + back.length) := by
    conv_lhs => rw [ht, List.length_append, List.length_append]
  refine ⟨front.length, ?_, by omega, ?_, ?_⟩
  · have hcells := (labelFrom_plain (all_isPlain_of_blanks hfront) (Text.trim t ++ back)).1
    rw [← ht] at hcells
    rw [StandsAt, hcells, List.drop_left' (by simp)]
    exact labelFrom_prefix_append_blanks .code _ hback
  · rw [show t.take front.length = front by rw [ht, List.take_left]]
    exact hfront
  · rw [← List.drop_drop,
      show t.drop front.length = Text.trim t ++ back by conv_lhs => rw [ht, List.drop_left],
      List.drop_left]
    exact hback

/-- A stretch of the source that begins right after a parenthesis or a comma in code, and that a
comma or a parenthesis in code follows. -/
structure IsArgument (source : Text) (start stop : Nat) : Prop where
  ordered : start ≤ stop
  opens : ∃ c ∈ ['(', ','], ∃ before, start = before + 1 ∧
    (labelFrom .code source)[before]? = some ⟨c, .code⟩
  closes : ∃ c ∈ [',', ')'], (labelFrom .code source)[stop]? = some ⟨c, .code⟩

namespace IsArgument

variable {source : Text} {start stop : Nat}

/-- A stretch between delimiters ends before the end of the source. -/
theorem stop_lt (h : IsArgument source start stop) : stop < source.length := by
  obtain ⟨c, -, hcell⟩ := h.closes
  obtain ⟨hlt, -⟩ := List.getElem?_eq_some_iff.mp hcell
  simpa using hlt

/-- A stretch between delimiters is as long as its offsets are apart. -/
theorem length_slice (h : IsArgument source start stop) :
    (source.slice start stop).length = stop - start := by
  have hstop := h.stop_lt
  rw [Text.slice_natCast, List.length_take, List.length_drop]
  omega

/-- Read on its own, a stretch between delimiters is read as in the source, and it ends in code. -/
theorem reads (h : IsArgument source start stop) :
    StandsAt source start (source.slice start stop) ∧
      Context.code.after (source.slice start stop) = .code := by
  obtain ⟨c, hc, before, rfl, hbefore⟩ := h.opens
  obtain ⟨d, -, hstop⟩ := h.closes
  have hle := h.ordered
  have hlt := h.stop_lt
  have hchar : source[before]? = some c := by
    rw [← map_char_labelFrom .code source, List.getElem?_map, hbefore]
    rfl
  have hcells : labelFrom .code source =
      labelFrom .code (source.take (before + 1)) ++ labelFrom .code (source.drop (before + 1)) := by
    have hmeets : ¬ SlashMeets (labelFrom .code (source.take (before + 1)))
        (source.drop (before + 1)) := by
      apply not_slashMeets_of_last
      rw [List.take_add_one, hchar]
      rintro hslash
      obtain rfl : c = '/' := by simpa using hslash
      simp at hc
    have happend := (labelFrom_append (after_take_succ_of_code hbefore) hmeets).1
    rwa [List.take_append_drop] at happend
  have hlength : (labelFrom .code (source.take (before + 1))).length = before + 1 := by
    rw [length_labelFrom, List.length_take_of_le (by omega)]
  -- the closing delimiter is code of the rest too, so the rest may be cut before it
  have hrest : (labelFrom .code (source.drop (before + 1)))[stop - (before + 1)]? = some ⟨d, .code⟩ := by
    rw [hcells, List.getElem?_append_right (by omega), hlength] at hstop
    exact hstop
  rw [Text.slice_natCast]
  refine ⟨?_, (after_take_of_code hrest).1⟩
  rw [StandsAt, hcells, List.drop_left' hlength]
  conv_rhs => rw [labelFrom_split hrest]
  exact List.prefix_append _ _

/-- A stretch between delimiters of a text that stands in the source is one of the source. -/
theorem of_standsAt {t : Text} {a : Nat} (h : IsArgument t start stop) (ht : StandsAt source a t) :
    IsArgument source (a + start) (a + stop) := by
  obtain ⟨c, hc, before, rfl, hbefore⟩ := h.opens
  obtain ⟨d, hd, hstop⟩ := h.closes
  exact ⟨by have := h.ordered; omega, ⟨c, hc, a + before, rfl, ht.cell_of_some hbefore⟩,
    ⟨d, hd, ht.cell_of_some hstop⟩⟩

/-- No name reaches over the start of a stretch between delimiters. -/
theorem charBefore_start (h : IsArgument source start stop) :
    (charBefore none (labelFrom .code source) start).any Text.isNameChar = false := by
  obtain ⟨c, hc, before, rfl, hbefore⟩ := h.opens
  have hnone : ['(', ','].all (!Text.isNameChar ·) := by decide
  simpa [charBefore, hbefore] using List.all_eq_true.mp hnone c hc

end IsArgument

/-! ## The items of an argument list -/

/-- The pieces of a cut text stand between marks: the first from the beginning on, each other one
right after a mark, and all of them up to a mark or to the end. -/
theorem Text.cutMarked_pieces (marked : List (Char × Bool)) :
    ∃ first others, cutMarked marked = first :: others ∧
      (∃ inner back, marked = inner ++ back ∧ first = inner.map Prod.fst ∧
        back.head?.all Prod.snd) ∧
      ∀ piece ∈ others, ∃ front c inner back, marked = front ++ (c, true) :: (inner ++ back) ∧
        piece = inner.map Prod.fst ∧ back.head?.all Prod.snd := by
  induction marked with
  | nil => exact ⟨[], [], rfl, ⟨[], [], rfl, rfl, rfl⟩, by simp⟩
  | cons entry rest ih =>
    obtain ⟨c, cut⟩ := entry
    obtain ⟨first, others, hpieces, ⟨inner, back, hrest, hfirst, hends⟩, hothers⟩ := ih
    have hlater (piece : Text) (hpiece : piece ∈ others) : ∃ front d inner back,
        (c, cut) :: rest = front ++ (d, true) :: (inner ++ back) ∧ piece = inner.map Prod.fst ∧
          back.head?.all Prod.snd := by
      obtain ⟨front, d, inner, back, hmarked, hpiece, hends⟩ := hothers piece hpiece
      exact ⟨(c, cut) :: front, d, inner, back, by rw [hmarked, List.cons_append], hpiece, hends⟩
    cases cut with
    | true =>
      refine ⟨[], first :: others, by simp [cutMarked, hpieces],
        ⟨[], (c, true) :: rest, rfl, rfl, rfl⟩, fun piece hpiece => ?_⟩
      rcases List.mem_cons.mp hpiece with rfl | hpiece
      · exact ⟨[], c, inner, back, by rw [hrest, List.nil_append], hfirst, hends⟩
      · exact hlater piece hpiece
    | false =>
      exact ⟨c :: first, others, by simp [cutMarked, hpieces, consFirst],
        ⟨(c, false) :: inner, back, by rw [hrest, List.cons_append], by rw [hfirst, List.map_cons], hends⟩,
        hlater⟩

/-- A marked cell is a comma in code. -/
theorem cell_of_markCommas {paren brace bracket : Int} {cells : List Cell} {n : Nat} {c : Char}
    (h : (Scan.markCommas paren brace bracket cells)[n]? = some (c, true)) :
    cells[n]? = some ⟨',', .code⟩ := by
  induction cells generalizing paren brace bracket n with
  | nil => simp [Scan.markCommas] at h
  | cons cell rest ih =>
    obtain ⟨mark, paren', brace', bracket', hmarks, hcomma⟩ :=
      markCommas_cons paren brace bracket cell rest
    rw [hmarks] at h
    cases n with
    | zero =>
      obtain ⟨-, hmark⟩ : cell.char = c ∧ mark = true := by simpa using h
      obtain ⟨hmode, hchar⟩ := hcomma hmark
      rw [List.getElem?_cons_zero, ← hmode, ← hchar]
    | succ n => exact ih h

/-- The characters between two marks of an argument list, with a delimiter of the source before them,
are a stretch of the source between delimiters. -/
theorem IsArgument.of_marks {source : Text} {start stop : Nat} (h : IsArgument source start stop)
    (front : List (Char × Bool)) {inner back : List (Char × Bool)}
    (hmarked : Scan.markCommas 0 0 0 (labelFrom .code (source.slice start stop)) =
      front ++ (inner ++ back))
    (hopens : ∃ c ∈ ['(', ','], ∃ before, start + front.length = before + 1 ∧
      (labelFrom .code source)[before]? = some ⟨c, .code⟩)
    (hends : back.head?.all Prod.snd) :
    ∃ start' stop', IsArgument source start' stop' ∧ start ≤ start' ∧ stop' ≤ stop ∧
      inner.map Prod.fst = source.slice start' stop' := by
  have hstands := h.reads.1
  have hlength := h.length_slice
  have hle := h.ordered
  generalize source.slice start stop = list at hstands hlength hmarked
  have hlist : list = front.map Prod.fst ++ (inner.map Prod.fst ++ back.map Prod.fst) := by
    rw [← List.map_append, ← List.map_append, ← hmarked, Scan.map_fst_markCommas, map_char_labelFrom]
  have hcount : list.length = front.length + (inner.length + back.length) := by simp [hlist]
  refine ⟨start + front.length, start + (front.length + inner.length), ⟨by omega, hopens, ?_⟩,
    by omega, by omega, ?_⟩
  · cases back with
    | nil =>
      have hstop : start + (front.length + inner.length) = stop := by
        simp only [List.length_nil] at hcount
        omega
      rw [hstop]
      exact h.closes
    | cons mark rest =>
      obtain ⟨c, cut⟩ := mark
      obtain rfl : cut = true := by simpa using hends
      have hcell : (Scan.markCommas 0 0 0 (labelFrom .code list))[front.length + inner.length]? =
          some (c, true) := by
        rw [hmarked, List.getElem?_append_right (by omega), List.getElem?_append_right (by omega),
          Nat.add_sub_cancel_left, Nat.sub_self, List.getElem?_cons_zero]
      exact ⟨',', by simp, hstands.cell_of_some (cell_of_markCommas hcell)⟩
  · rw [← hstands.slice (by omega), Text.slice_natCast, Nat.add_sub_cancel_left]
    conv_rhs => rw [hlist]
    rw [List.drop_left' (by simp), List.take_left' (by simp)]

/-- An item of an argument list is a trimmed stretch of the list between two delimiters, where the
list itself is one. -/
theorem IsArgument.of_item {source item : Text} {start stop : Nat} (h : IsArgument source start stop)
    (hitem : item ∈ (Scan.ofText (source.slice start stop)).arguments) :
    ∃ start' stop', IsArgument source start' stop' ∧ start ≤ start' ∧ stop' ≤ stop ∧
      item = Text.trim (source.slice start' stop') := by
  obtain ⟨piece, hpiece, rfl⟩ := mem_trimItems hitem
  suffices hstretch : ∃ start' stop', IsArgument source start' stop' ∧ start ≤ start' ∧ stop' ≤ stop ∧
      piece = source.slice start' stop' by
    obtain ⟨start', stop', hstretch, hstart, hstop, rfl⟩ := hstretch
    exact ⟨start', stop', hstretch, hstart, hstop, rfl⟩
  obtain ⟨first, others, hpieces, ⟨inner, back, hmarked, hfirst, hends⟩, hothers⟩ :=
    Text.cutMarked_pieces (Scan.markCommas 0 0 0 (labelFrom .code (source.slice start stop)))
  rw [Scan.ofText, hpieces] at hpiece
  rcases List.mem_cons.mp hpiece with rfl | hpiece
  · rw [hfirst]
    exact h.of_marks [] hmarked h.opens hends
  · obtain ⟨front, c, inner, back, hmarked, rfl, hends⟩ := hothers piece hpiece
    have hcell : (Scan.markCommas 0 0 0 (labelFrom .code (source.slice start stop)))[front.length]? =
        some (c, true) := by
      rw [hmarked, List.getElem?_append_right (by omega), Nat.sub_self, List.getElem?_cons_zero]
    refine h.of_marks (front ++ [(c, true)]) (by rw [hmarked]; simp) ?_ hends
    exact ⟨',', by simp, start + front.length, by simp; omega,
      h.reads.1.cell_of_some (cell_of_markCommas hcell)⟩

/-- The arguments of a call are the stretch between its parentheses. -/
theorem Scan.IsCall.isArgument {source arguments : Text} {kind : MacroKind} {start stop : Nat}
    (h : (Scan.ofText source).IsCall kind start stop arguments) :
    ∃ first, start < first ∧ IsArgument source first stop ∧ arguments = source.slice first stop := by
  obtain ⟨paren, hopens, hregion, rfl⟩ := h.closed
  have hparen : start + kind.name.length ≤ paren := by
    obtain ⟨first, hfirst, -, rfl | ⟨-, angle, hangle, hlt, -⟩⟩ := hopens <;> omega
  have hopen : (labelFrom .code source)[paren]? = some ⟨'(', .code⟩ := cell_of_isDelimiter hregion.opens
  refine ⟨paren + 1, by omega, ⟨hregion.ordered, ⟨'(', by simp, paren, rfl, hopen⟩,
    ⟨')', by simp, h.ends.2⟩⟩, ?_⟩
  rw [Text.slice_natCast, Scan.text_ofText, Nat.sub_sub]

/-! ## The calls of an argument -/

/-- A name is spelled whatever follows. -/
theorem spelled?_of_prefix {name : Text} {cells after : List Cell} (h : spelled? name cells = some after)
    (more : List Cell) : spelled? name (cells ++ more) = some (after ++ more) := by
  induction name generalizing cells with
  | nil => simpa [spelled?] using h
  | cons c name ih =>
    cases cells with
    | nil => simp [spelled?] at h
    | cons cell rest =>
      simp only [spelled?] at h
      split at h
      · next hc => simpa [spelled?, hc] using ih h
      · cases h

/-- A call is recognised whatever follows. -/
theorem callHere_of_prefix {name : Text} {before : Option Char} {cells : List Cell}
    (h : callHere name before cells) (more : List Cell) : callHere name before (cells ++ more) := by
  cases cells with
  | nil => simp [callHere] at h
  | cons cell rest =>
    simp only [callHere, Bool.and_eq_true] at h
    obtain ⟨hcode, hname⟩ := h
    split at hname
    · cases hname
    · next after hafter =>
      simp only [Bool.and_eq_true] at hname
      obtain ⟨⟨hbefore, hhead⟩, hstarts⟩ := hname
      have hne : after.dropWhile (fun cell => Text.isBlank cell.char) ≠ [] := by
        intro hnil
        simp [startsArguments, hnil] at hstarts
      obtain ⟨first, others, hfirst⟩ := List.exists_cons_of_ne_nil hne
      have hstarts' : startsArguments (after ++ more) := by
        simpa [startsArguments, List.dropWhile_append, hfirst] using hstarts
      have hhead' : (after ++ more).head? = after.head? := by
        cases after with
        | nil => exact absurd rfl hne
        | cons first others => rfl
      have hafter' := spelled?_of_prefix hafter more
      rw [List.cons_append] at hafter'
      simp only [List.cons_append, callHere, hafter', hcode, hbefore, hhead', hhead, hstarts',
        Bool.and_self]

/-- A call in a text that stands in the source is a call in the source, unless a longer name starts
before the text. -/
theorem StandsAt.mem_callOffsets {source t name : Text} {start q : Nat} (h : StandsAt source start t)
    (hbefore : (charBefore none (labelFrom .code source) start).any Text.isNameChar = false)
    (hq : q ∈ (Scan.ofText t).callOffsets name) :
    start + q ∈ (Scan.ofText source).callOffsets name := by
  obtain ⟨k, hqk, hcall⟩ := mem_callOffsetsFrom.mp hq
  obtain rfl : q = k := by omega
  refine mem_callOffsetsFrom.mpr ⟨start + q, by omega, ?_⟩
  obtain ⟨rest, hrest⟩ := h
  have hlt : q < t.length := by
    by_contra hge
    rw [List.drop_eq_nil_of_le (by simpa [Scan.ofText] using hge)] at hcall
    simp [callHere] at hcall
  have hcells : (labelFrom .code source).drop (start + q) = (labelFrom .code t).drop q ++ rest := by
    rw [← List.drop_drop, ← hrest, List.drop_append_of_le_length (by simp; omega)]
  change callHere name _ ((labelFrom .code source).drop (start + q))
  rw [hcells]
  refine callHere_of_prefix ?_ rest
  rw [← hcall]
  refine callHere_congr ?_
  cases q with
  | zero => exact hbefore
  | succ q =>
    have hcell := StandsAt.cell ⟨rest, hrest⟩ (k := q) (by omega)
    change ((labelFrom .code source)[start + q]?.map Cell.char).any _ =
      ((labelFrom .code t)[q]?.map Cell.char).any _
    rw [hcell]

/-- No name reaches over white space at the beginning of a text. -/
theorem StandsAt.charBefore_add {source t : Text} {start k : Nat} (h : StandsAt source start t)
    (hk : k ≤ t.length) (hblank : (t.take k).all Text.isBlank)
    (hstart : (charBefore none (labelFrom .code source) start).any Text.isNameChar = false) :
    (charBefore none (labelFrom .code source) (start + k)).any Text.isNameChar = false := by
  cases k with
  | zero => exact hstart
  | succ k =>
    have hlast : Text.isBlank t[k] :=
      List.all_eq_true.mp hblank _ (List.mem_take_iff_getElem.mpr ⟨k, by omega, rfl⟩)
    have hchar : (labelFrom .code source)[start + k]?.map Cell.char = some t[k] := by
      rw [h.cell hk, ← List.getElem?_map, map_char_labelFrom, List.getElem?_eq_getElem hk]
    change ((labelFrom .code source)[start + k]?.map Cell.char).any Text.isNameChar = false
    rw [hchar, Option.any_some, Text.isNameChar_of_isBlank hlast]

/-- The definition that a call carries in its first argument is that of a `defineProps` call inside the
arguments, and it is a stretch of the source between the parentheses of that call. -/
theorem Scan.IsCall.carried {source arguments definition : Text} {kind : MacroKind} {start stop : Nat}
    (h : (Scan.ofText source).IsCall kind start stop arguments)
    (hcarries : propsDefinition? ((Scan.ofText arguments).arguments.headD []) = some definition) :
    ∃ q ∈ (Scan.ofText source).callOffsets MacroKind.defineProps.name, start < q ∧
      ∃ first last, q < first ∧ last < stop ∧ IsArgument source first last ∧
        definition = definedBy "\x7b\x7d" (source.slice first last) := by
  obtain ⟨opening, hopening, harguments, rfl⟩ := h.isArgument
  cases hitems : (Scan.ofText (source.slice opening stop)).arguments with
  | nil =>
    rw [hitems] at hcarries
    cases hcarries
  | cons item rest =>
    rw [hitems, List.headD_cons] at hcarries
    obtain ⟨start', stop', hitem, hstart, hstop, rfl⟩ := harguments.of_item (hitems ▸ List.mem_cons_self ..)
    -- the trimmed item stands in the source behind blanks, which end every name before it
    obtain ⟨k, htrim, hlength, hfront, -⟩ := standsAt_trim (source.slice start' stop')
    have hstands := hitem.reads.1.trans htrim
    have hbefore := hitem.reads.1.charBefore_add (by omega) hfront hitem.charBefore_start
    rw [hitem.length_slice] at hlength
    generalize Text.trim (source.slice start' stop') = argument at *
    simp only [propsDefinition?, Option.bind_eq_some_iff] at hcarries
    obtain ⟨index, hindex, hread⟩ := hcarries
    split at hread
    · next call hcall =>
      have hmem : index ∈ (Scan.ofText argument).callOffsets MacroKind.defineProps.name :=
        List.mem_of_find?_eq_some hindex
      obtain ⟨first, hfirst, hinner, hinnerText⟩ := (Scan.callAt_eq_ok hmem hcall).2.2.isArgument
      have hlast := hinner.stop_lt
      have hdefinition : definition = definedBy "\x7b\x7d" (argument.slice first call.stop) := by
        rw [← hinnerText]
        exact (Option.some.inj hread).symm
      refine ⟨start' + k + index, hstands.mem_callOffsets hbefore hmem, by omega, start' + k + first,
        start' + k + call.stop, by omega, by omega, hinner.of_standsAt hstands, ?_⟩
      rw [hdefinition, hstands.slice (by omega)]
    · cases hread

end SetupScript
