import SetupScript.Proofs.CodeWords
import SetupScript.Proofs.ExtractedRegions

/-!
# Where a call that was found has its arguments

A call is found by its name, and then its extent is read. The argument list opens with the first
character after the name that is not blank, or, when type arguments come first, behind the first angle
bracket in code that a parenthesis follows. All characters on the way to that parenthesis which matter
are code, so the region that is read is the one that opens there and none that opens later. The call is
refused just when the type arguments have no end or the parenthesis is never closed.
-/

namespace SetupScript

/-! ## Blanks on the way -/

/-- From `start` on there are blanks and then the character, at `stop`. -/
def LeadsTo (t : Text) (start : Nat) (c : Char) (stop : Nat) : Prop :=
  ∃ gap rest, t.drop start = gap ++ c :: rest ∧ gap.all Text.isBlank ∧ stop = start + gap.length

namespace LeadsTo

variable {t : Text} {start stop : Nat} {c : Char}

/-- The character stands where the blanks lead. -/
theorem getElem? (h : LeadsTo t start c stop) : t[stop]? = some c := by
  obtain ⟨gap, rest, htext, -, rfl⟩ := h
  rw [← List.getElem?_drop, htext, List.getElem?_append_right (Nat.le_refl _), Nat.sub_self,
    List.getElem?_cons_zero]

/-- Blanks lead to one character only. -/
theorem unique (h : LeadsTo t start c stop) (hc : Text.isBlank c = false) {d : Char} {stop' : Nat}
    (h' : LeadsTo t start d stop') (hd : Text.isBlank d = false) : stop = stop' ∧ c = d := by
  obtain ⟨gap, rest, htext, hgap, rfl⟩ := h
  obtain ⟨gap', rest', htext', hgap', rfl⟩ := h'
  obtain ⟨rfl, rfl⟩ := Text.cut_unique hgap hgap' hc hd (htext.symm.trans htext')
  exact ⟨rfl, rfl⟩

/-- The blanks on the way are all that there are. -/
theorem eq_takeWhile (h : LeadsTo t start c stop) (hc : Text.isBlank c = false) :
    stop = start + ((t.drop start).takeWhile Text.isBlank).length := by
  obtain ⟨gap, rest, htext, hgap, rfl⟩ := h
  rw [htext, List.takeWhile_append_of_pos (List.all_eq_true.mp hgap),
    List.takeWhile_cons_of_neg (by simp [hc]), List.append_nil]

/-- Another character that is not blank stands behind the one that blanks lead to. -/
theorem lt_of_ne (h : LeadsTo t start c stop) {k : Nat} {d : Char} (hk : start ≤ k) (hget : t[k]? = some d)
    (hd : Text.isBlank d = false) (hne : d ≠ c) : stop < k := by
  obtain ⟨gap, rest, htext, hgap, rfl⟩ := h
  obtain ⟨i, rfl⟩ := Nat.exists_eq_add_of_le hk
  rw [← List.getElem?_drop, htext] at hget
  rcases Nat.lt_trichotomy i gap.length with hlt | rfl | hgt
  · rw [List.getElem?_append_left hlt] at hget
    have hblank := List.all_eq_true.mp hgap d (List.mem_of_getElem? hget)
    rw [hd] at hblank
    cases hblank
  · rw [List.getElem?_append_right (Nat.le_refl _), Nat.sub_self, List.getElem?_cons_zero] at hget
    exact absurd (Option.some.inj hget).symm hne
  · omega

/-- Where a text is read from code on, blanks lead to code. -/
theorem code (h : LeadsTo t start c stop) (hc : isPlain c)
    (hread : (Scan.ofText t).cells.drop start = labelFrom .code (t.drop start)) :
    (Scan.ofText t).cells[stop]? = some ⟨c, .code⟩ := by
  obtain ⟨gap, rest, htext, hgap, rfl⟩ := h
  have hplain : (gap ++ [c]).all isPlain := by
    rw [List.all_append, all_isPlain_of_blanks hgap]
    simpa using hc
  have hcells := (labelFrom_plain hplain rest).1
  rw [List.append_assoc, List.singleton_append, ← htext, ← hread] at hcells
  rw [← List.getElem?_drop, hcells]
  simp

end LeadsTo

/-! ## Type arguments -/

/-- Type arguments may end with the angle bracket at `angle`: it is code, and blanks lead from it to the
parenthesis at `paren`. -/
structure EndsTypes (t : Text) (angle paren : Nat) : Prop where
  code : (Scan.ofText t).isCode angle
  bracket : t[angle]? = some '>'
  opens : LeadsTo t (angle + 1) '(' paren

namespace EndsTypes

variable {t : Text} {angle paren : Nat}

/-- The parenthesis after type arguments is code. -/
theorem paren_code (h : EndsTypes t angle paren) :
    (Scan.ofText t).cells[paren]? = some ⟨'(', .code⟩ := by
  have hdrop := Scan.drop_cells h.code
  obtain ⟨hlt, hget⟩ := List.getElem?_eq_some_iff.mp h.bracket
  have htext : t.drop angle = ['>'] ++ t.drop (angle + 1) := by
    rw [List.drop_eq_getElem_cons hlt, hget]
    rfl
  refine h.opens.code rfl ?_
  rw [htext, (labelFrom_plain (a := ['>']) rfl _).1] at hdrop
  rw [← List.drop_drop, hdrop]
  rfl

end EndsTypes

/-- Read the end of type arguments: an angle bracket, blanks and an opening parenthesis. -/
def Reader.typesEnd : Reader Unit := do
  literal ">"
  blanks
  literal "("

/-- The end of type arguments is read where an angle bracket stands and blanks lead from it to a
parenthesis. -/
theorem Reader.typesEnd_eq_some {t left : Text} {k : Nat} {u : Unit} :
    typesEnd (t.drop k) = some (u, left) ↔
      ∃ paren, t[k]? = some '>' ∧ LeadsTo t (k + 1) '(' paren ∧ left = t.drop (paren + 1) := by
  have hread : typesEnd (t.drop k) = some (u, left) ↔
      ∃ gap, t.drop k = '>' :: (gap ++ '(' :: left) ∧ gap.all Text.isBlank := by
    simp only [typesEnd, bind_eq_some, literal_eq_some, blanks_eq_some]
    constructor
    · rintro ⟨_, _, htext, _, _, ⟨gap, rfl, hgap, -⟩, rfl⟩
      exact ⟨gap, htext, hgap⟩
    · rintro ⟨gap, htext, hgap⟩
      exact ⟨(), _, htext, (), _, ⟨gap, rfl, hgap, rfl⟩, rfl⟩
  rw [hread]
  constructor
  · rintro ⟨gap, htext, hgap⟩
    have hget : t[k]? = some '>' := by
      rw [← Nat.add_zero k, ← List.getElem?_drop, htext, List.getElem?_cons_zero]
    have hafter : t.drop (k + 1) = gap ++ '(' :: left := by
      rw [← List.drop_drop, htext]
      rfl
    refine ⟨k + 1 + gap.length, hget, ⟨gap, left, hafter, hgap, rfl⟩, ?_⟩
    rw [Nat.add_assoc (k + 1), ← List.drop_drop, hafter, ← List.drop_drop, List.drop_left]
    rfl
  · rintro ⟨_, hget, ⟨gap, rest, hafter, hgap, rfl⟩, rfl⟩
    obtain ⟨hlt, hchar⟩ := List.getElem?_eq_some_iff.mp hget
    refine ⟨gap, ?_, hgap⟩
    rw [Nat.add_assoc (k + 1), ← List.drop_drop, hafter, ← List.drop_drop, List.drop_left,
      List.drop_eq_getElem_cons hlt, hchar, hafter]
    rfl

/-- Reading the end of type arguments takes at least one character. -/
theorem Reader.length_lt_of_typesEnd (t : Text) (u : Unit) (left : Text)
    (h : typesEnd t = some (u, left)) :
    left.length < t.length := by
  rw [← List.drop_zero (l := t)] at h
  obtain ⟨paren, -, hopens, rfl⟩ := typesEnd_eq_some.mp h
  have hlt := (List.getElem?_eq_some_iff.mp hopens.getElem?).1
  rw [List.length_drop]
  omega

/-- The search for the end of type arguments finds every angle bracket that a parenthesis follows. -/
theorem mem_findAll_typesEnd {t : Text} {start paren : Nat} :
    ⟨start, paren + 1, ()⟩ ∈ Text.findAll Text.anywhere Reader.typesEnd t ↔
      t[start]? = some '>' ∧ LeadsTo t (start + 1) '(' paren := by
  -- a match ends right behind the parenthesis that blanks lead to
  have hwidth {start paren : Nat} (hopens : LeadsTo t (start + 1) '(' paren) :
      start + ((t.drop start).length - (t.drop (paren + 1)).length) = paren + 1 := by
    have hlt : paren < t.length := (List.getElem?_eq_some_iff.mp hopens.getElem?).1
    have hle : start + 1 ≤ paren := by
      obtain ⟨gap, rest, -, -, rfl⟩ := hopens
      omega
    rw [List.length_drop, List.length_drop]
    omega
  constructor
  · intro hmem
    obtain ⟨left, -, hread, hstop⟩ := Text.mem_findAll hmem
    obtain ⟨paren', hget, hopens, rfl⟩ := Reader.typesEnd_eq_some.mp hread
    rw [hwidth hopens] at hstop
    obtain rfl : paren = paren' := Nat.succ.inj hstop
    exact ⟨hget, hopens⟩
  · rintro ⟨hget, hopens⟩
    have hread := (Reader.typesEnd_eq_some (u := ())).mpr ⟨paren, hget, hopens, rfl⟩
    rw [← hwidth hopens]
    refine Text.mem_findAll_of_read Reader.length_lt_of_typesEnd rfl hread fun found hfound hearlier => ?_
    obtain ⟨left, -, hread', hstop⟩ := Text.mem_findAll hfound
    obtain ⟨paren', -, hopens', rfl⟩ := Reader.typesEnd_eq_some.mp hread'
    rw [hstop, hwidth hopens']
    exact hopens'.lt_of_ne hearlier hget rfl (by decide)

/-- From `offset` on, the first end of type arguments is the angle bracket at `angle`. -/
structure IsTypesEnd (t : Text) (offset angle paren : Nat) : Prop where
  after : offset ≤ angle
  ends : EndsTypes t angle paren
  first : ∀ k p, offset ≤ k → k < angle → ¬ EndsTypes t k p

/-- There is one first end of type arguments. -/
theorem IsTypesEnd.unique {t : Text} {offset angle paren angle' paren' : Nat}
    (h : IsTypesEnd t offset angle paren) (h' : IsTypesEnd t offset angle' paren') :
    angle = angle' ∧ paren = paren' := by
  rcases Nat.lt_trichotomy angle angle' with hlt | rfl | hgt
  · exact absurd h.ends (h'.first angle paren h.after hlt)
  · exact ⟨rfl, (h.ends.opens.unique rfl h'.ends.opens rfl).1⟩
  · exact absurd h'.ends (h.first angle' paren' h'.after hgt)

namespace Scan

variable {t : Text} {offset angle paren : Nat}

/-- An end of type arguments is a match of the search that starts in code. -/
theorem endsTypes_iff (hoffset : offset ≤ angle) : EndsTypes t angle paren ↔
    offset ≤ paren ∧ (ofText t).isCode angle ∧
      ⟨angle - offset, paren - offset + 1, ()⟩ ∈
        Text.findAll Text.anywhere Reader.typesEnd (t.drop offset) := by
  obtain ⟨k, rfl⟩ := Nat.exists_eq_add_of_le hoffset
  rw [mem_findAll_typesEnd, Nat.add_sub_cancel_left, List.getElem?_drop]
  -- blanks lead alike from the offset on as in the whole text
  have hshift (hparen : offset ≤ paren) :
      LeadsTo (t.drop offset) (k + 1) '(' (paren - offset) ↔ LeadsTo t (offset + k + 1) '(' paren := by
    simp only [LeadsTo, List.drop_drop, Nat.add_assoc]
    refine exists_congr fun gap => exists_congr fun rest => and_congr_right fun _ => and_congr_right fun _ => ?_
    omega
  constructor
  · rintro ⟨hcode, hget, hopens⟩
    have hparen : offset ≤ paren := by
      obtain ⟨gap, rest, -, -, rfl⟩ := hopens
      omega
    exact ⟨hparen, hcode, hget, (hshift hparen).mpr hopens⟩
  · rintro ⟨hparen, hcode, hget, hopens⟩
    exact ⟨hcode, hget, (hshift hparen).mp hopens⟩

/-- The end of type arguments is the first match of its reader that starts in code. -/
theorem typesEnd?_eq (t : Text) (offset : Nat) :
    (ofText t).typesEnd? offset =
      ((Text.findAll Text.anywhere Reader.typesEnd (t.drop offset)).find?
        fun found => (ofText t).isCode (offset + found.start)).map
      fun found => (offset + found.start, offset + found.stop - 1) := by
  rw [typesEnd?, text_ofText]
  rfl

/-- What the search for the end of type arguments gives is the first one. -/
theorem isTypesEnd_of_typesEnd? (h : (ofText t).typesEnd? offset = some (angle, paren)) :
    IsTypesEnd t offset angle paren := by
  simp only [typesEnd?_eq, Option.map_eq_some_iff, Prod.mk.injEq] at h
  obtain ⟨found, hfound, rfl, rfl⟩ := h
  obtain ⟨hcode, before, after, hall, hbefore⟩ := List.find?_eq_some_iff_append.mp hfound
  have hmem := List.mem_of_find?_eq_some hfound
  have hordered : (Text.findAll Text.anywhere Reader.typesEnd (t.drop offset)).Pairwise
      fun a b => a.start < b.start ∧ a.stop ≤ b.start := Text.pairwise_findAll (t.drop offset)
  have hstop : 0 < found.stop := by
    obtain ⟨left, -, hread, hstop⟩ := Text.mem_findAll hmem
    have hlt := Reader.length_lt_of_typesEnd _ _ _ hread
    omega
  refine ⟨Nat.le_add_right _ _, (endsTypes_iff (Nat.le_add_right _ _)).mpr ⟨by omega, hcode, ?_⟩,
    fun k p hk hlt hends => ?_⟩
  · rw [Nat.add_sub_cancel_left, show offset + found.stop - 1 - offset + 1 = found.stop by omega]
    exact hmem
  -- an earlier end would have been found first
  · obtain ⟨-, hcode', hmem'⟩ := (endsTypes_iff hk).mp hends
    rw [hall] at hmem' hordered
    rcases List.mem_append.mp hmem' with hearlier | hlater
    · have hpassed := hbefore _ hearlier
      rw [Nat.add_sub_cancel' hk, hcode'] at hpassed
      cases hpassed
    · obtain ⟨-, hrest, -⟩ := List.pairwise_append.mp hordered
      rcases List.mem_cons.mp hlater with rfl | hlater
      · simp only at hlt
        omega
      · have hgt := ((List.pairwise_cons.mp hrest).1 _ hlater).1
        simp only at hgt
        omega

/-- Without a result of the search there is no end of type arguments. -/
theorem not_endsTypes_of_typesEnd? (h : (ofText t).typesEnd? offset = none) (hoffset : offset ≤ angle) :
    ¬ EndsTypes t angle paren := by
  intro hends
  obtain ⟨-, hcode, hmem⟩ := (endsTypes_iff hoffset).mp hends
  simp only [typesEnd?_eq, Option.map_eq_none_iff, List.find?_eq_none] at h
  refine h _ hmem ?_
  rwa [Nat.add_sub_cancel' hoffset]

end Scan

/-! ## The extent of a call -/

/-- The argument list of a call whose name ends before `past` opens with the parenthesis at `paren`:
after the name, or behind type arguments. -/
inductive OpensCall (t : Text) (past : Nat) : Nat → Option Text → Prop where
  | plain {paren : Nat} (opens : LeadsTo t past '(' paren) : OpensCall t past paren none
  | generic {first angle paren : Nat} (opens : LeadsTo t past '<' first)
      (ends : IsTypesEnd t (first + 1) angle paren) :
      OpensCall t past paren (some (Text.trim ((t.drop (first + 1)).take (angle - (first + 1)))))

/-- What there is to say about the call whose name stands at `index`: where it ends and what its
arguments are, or why it is no call. -/
inductive CallExtent (t : Text) (kind : MacroKind) (index : Nat) : Except CallFault MacroCall → Prop where
  | call {paren stop : Nat} {types : Option Text}
      (opens : OpensCall t (index + kind.name.length) paren types)
      (closed : (Scan.ofText t).IsRegion "(" ")" paren stop) :
      CallExtent t kind index
        (.ok ⟨kind, index, stop, (t.drop (paren + 1)).take (stop - (paren + 1)), types⟩)
  | unterminated {first : Nat} (opens : LeadsTo t (index + kind.name.length) '<' first)
      (never : ∀ angle paren, first < angle → ¬ EndsTypes t angle paren) :
      CallExtent t kind index (.error (.unterminatedTypes kind))
  | unbalanced {paren : Nat} {types : Option Text}
      (opens : OpensCall t (index + kind.name.length) paren types)
      (never : ∀ stop, ¬ (Scan.ofText t).IsRegion "(" ")" paren stop) :
      CallExtent t kind index (.error (.unbalancedArguments kind))

variable {t : Text} {kind : MacroKind} {index past : Nat}

/-- An argument list opens in one place only. -/
theorem OpensCall.unique {paren paren' : Nat} {types types' : Option Text}
    (h : OpensCall t past paren types) (h' : OpensCall t past paren' types') :
    paren = paren' ∧ types = types' := by
  cases h with
  | plain hopens =>
    cases h' with
    | plain hopens' => exact ⟨(hopens.unique rfl hopens' rfl).1, rfl⟩
    | generic hopens' _ => exact absurd (hopens.unique rfl hopens' rfl).2 (by decide)
  | generic hopens hends =>
    cases h' with
    | plain hopens' => exact absurd (hopens.unique rfl hopens' rfl).2 (by decide)
    | generic hopens' hends' =>
      obtain ⟨rfl, -⟩ := hopens.unique rfl hopens' rfl
      obtain ⟨rfl, rfl⟩ := hends.unique hends'
      exact ⟨rfl, rfl⟩

/-- Where an argument list opens, the type arguments have an end. -/
theorem OpensCall.terminated {paren first : Nat} {types : Option Text} (h : OpensCall t past paren types)
    (hopens : LeadsTo t past '<' first) : ∃ angle, first < angle ∧ EndsTypes t angle paren := by
  cases h with
  | plain hopens' => exact absurd (hopens.unique rfl hopens' rfl).2 (by decide)
  | generic hopens' hends =>
    obtain ⟨rfl, -⟩ := hopens.unique rfl hopens' rfl
    exact ⟨_, hends.after, hends.ends⟩

/-- The parenthesis with which an argument list opens is code. -/
theorem OpensCall.code {paren : Nat} {types : Option Text} (h : OpensCall t past paren types)
    (hread : (Scan.ofText t).cells.drop past = labelFrom .code (t.drop past)) :
    (Scan.ofText t).cells[paren]? = some ⟨'(', .code⟩ := by
  cases h with
  | plain hopens => exact hopens.code rfl hread
  | generic _ hends => exact hends.ends.paren_code

/-- There is one thing to say about a call. -/
theorem CallExtent.unique {result result' : Except CallFault MacroCall}
    (h : CallExtent t kind index result) (h' : CallExtent t kind index result') : result = result' := by
  cases h with
  | call hopens hclosed =>
    cases h' with
    | call hopens' hclosed' =>
      obtain ⟨rfl, rfl⟩ := hopens.unique hopens'
      rw [hclosed.unique hclosed']
    | unterminated hopens' hnever =>
      obtain ⟨angle, hlt, hends⟩ := hopens.terminated hopens'
      exact absurd hends (hnever _ _ hlt)
    | unbalanced hopens' hnever =>
      obtain ⟨rfl, -⟩ := hopens.unique hopens'
      exact absurd hclosed (hnever _)
  | unterminated hopens hnever =>
    cases h' with
    | call hopens' _ | unbalanced hopens' _ =>
      obtain ⟨angle, hlt, hends⟩ := hopens'.terminated hopens
      exact absurd hends (hnever _ _ hlt)
    | unterminated _ _ => rfl
  | unbalanced hopens hnever =>
    cases h' with
    | call hopens' hclosed =>
      obtain ⟨rfl, -⟩ := hopens.unique hopens'
      exact absurd hclosed (hnever _)
    | unterminated hopens' hnever' =>
      obtain ⟨angle, hlt, hends⟩ := hopens.terminated hopens'
      exact absurd hends (hnever' _ _ hlt)
    | unbalanced _ _ => rfl

/-- At a parenthesis in code, arguments are read when it is closed again, and then to where it is. -/
theorem callArguments_of_code (kind : MacroKind) {paren : Nat}
    (hcode : (Scan.ofText t).cells[paren]? = some ⟨'(', .code⟩) :
    (∃ span, (Scan.ofText t).callArguments kind paren = .ok span ∧
        (Scan.ofText t).IsRegion "(" ")" paren span.stop ∧
        span.inner = (t.drop (paren + 1)).take (span.stop - (paren + 1))) ∨
      (Scan.ofText t).callArguments kind paren = .error (.unbalancedArguments kind) ∧
        ∀ stop, ¬ (Scan.ofText t).IsRegion "(" ")" paren stop := by
  have hfinds (span : Span) : (Scan.ofText t).balanced? paren "(" ")" = some span ↔ _ :=
    Scan.balanced?_eq_some_of_opener (by decide) hcode
  cases hsearch : (Scan.ofText t).balanced? paren "(" ")" with
  | none =>
    right
    refine ⟨by rw [Scan.callArguments, hsearch], fun stop hregion => ?_⟩
    let span : Span := ⟨paren, stop, ((Scan.ofText t).text.drop paren).take (stop + 1 - paren)⟩
    have hfound : (Scan.ofText t).balanced? paren "(" ")" = some span :=
      (hfinds span).mpr ⟨rfl, hregion, rfl⟩
    rw [hsearch] at hfound
    cases hfound
  | some span =>
    left
    obtain ⟨hstart, hregion, -⟩ := (hfinds span).mp hsearch
    have hinner := Scan.inner_eq_of_balanced? hsearch
    rw [hstart, Scan.text_ofText, Nat.sub_sub] at hinner
    refine ⟨span, ?_, hregion, hinner⟩
    rw [Scan.callArguments, hsearch]
    exact if_pos (by rw [hstart])

/-- What is read from the parenthesis that opens an argument list is all there is to say. -/
theorem OpensCall.extent {paren : Nat} {types : Option Text}
    (hopens : OpensCall t (index + kind.name.length) paren types)
    (hcode : (Scan.ofText t).cells[paren]? = some ⟨'(', .code⟩) :
    CallExtent t kind index (((Scan.ofText t).callArguments kind paren).map fun span =>
      ⟨kind, index, span.stop, span.inner, types⟩) := by
  obtain ⟨span, hread, hregion, hinner⟩ | ⟨hread, hnever⟩ := callArguments_of_code kind hcode
  · rw [hread, Except.map, hinner]
    exact .call hopens hregion
  · rw [hread]
    exact .unbalanced hopens hnever

/-- A call that is found by its name is read from code on behind it. -/
theorem IsCalledAt.drop_cells (h : IsCalledAt t kind.name index) :
    (Scan.ofText t).cells.drop (index + kind.name.length) =
      labelFrom .code (t.drop (index + kind.name.length)) := by
  obtain ⟨hword, hne⟩ := kind.name_isWord
  have hcode : (Scan.ofText t).isCode index := h.code 0 (List.length_pos_iff.mpr hne)
  rw [← List.drop_drop, Scan.drop_cells_of_word hword hcode h.spelled]
  exact List.drop_left' (List.length_map _)

/-- What is read of a call that is found by its name is all there is to say about it. -/
theorem IsCalledAt.extent (h : IsCalledAt t kind.name index) :
    CallExtent t kind index ((Scan.ofText t).callAt index kind) := by
  obtain ⟨opener, first, hopener, hleads⟩ : ∃ opener first, (opener = '(' ∨ opener = '<') ∧
      LeadsTo t (index + kind.name.length) opener first := by
    obtain ⟨gap, opener, rest, htext, hgap, hopener⟩ := h.opens
    exact ⟨opener, _, hopener, gap, rest, htext, hgap, rfl⟩
  have hsolid : Text.isBlank opener = false := by rcases hopener with rfl | rfl <;> decide
  have hget : (Scan.ofText t).text.at? (first : Nat) = some opener := by
    rw [Scan.text_ofText, Text.at?, if_pos (Int.natCast_nonneg first), Int.toNat_natCast, hleads.getElem?]
  rw [Scan.callAt, Scan.text_ofText, ← hleads.eq_takeWhile hsolid, Scan.callFrom, hget]
  rcases hopener with rfl | rfl
  · have hopens := OpensCall.plain hleads
    rw [if_neg (by decide)]
    exact hopens.extent (hopens.code h.drop_cells)
  · rw [if_pos rfl]
    split
    · next hsearch =>
      exact .unterminated hleads fun angle paren hlt => Scan.not_endsTypes_of_typesEnd? hsearch hlt
    · next angle paren hsearch =>
      have hopens := OpensCall.generic hleads (Scan.isTypesEnd_of_typesEnd? hsearch)
      have hextent := hopens.extent (hopens.code h.drop_cells)
      rw [← Text.slice_natCast] at hextent
      rw [Scan.text_ofText]
      exact hextent

/-- At an offset in the text no fault of the offset arises. -/
theorem Scan.callAtOffset_natCast (scan : Scan) (index : Nat) (kind : MacroKind) :
    scan.callAtOffset index kind = .ok (scan.callAt index kind) := by
  have hpast : (0 : Int) ≤ index + kind.name.length := by omega
  rw [callAtOffset, Text.pastBlanks, if_pos hpast]
  rfl

/-- A call that is found is located completely. The outcome is the one thing there is to say about it:
a call that ends with the parenthesis in code that closes the one in code which opens its arguments,
with the text between the two and its type arguments; or that the type arguments have no end; or that
the parenthesis is never closed. The parenthesis that opens the arguments is code, so the search for
the region never goes on to one that opens later. -/
theorem found_call_located (t : Text) (kind : MacroKind) (offset : Int) (index : Nat)
    (h : (Scan.ofText t).findCall? kind.name offset = some index) :
    let scan := Scan.ofText t
    (∃ result, CallExtent t kind index result) ∧
    (∀ result, scan.callAtOffset index kind = .ok result ↔ CallExtent t kind index result) ∧
    ∀ paren types, OpensCall t (index + kind.name.length) paren types →
      scan.cells[paren]? = some ⟨'(', .code⟩ ∧
      ∀ span, scan.balanced? paren "(" ")" = some span → span.start = paren := by
  intro scan
  obtain ⟨hword, hne⟩ := kind.name_isWord
  have hcalled : IsCalledAt t kind.name index :=
    (Scan.mem_callOffsets_iff hword hne).mp (List.mem_of_find?_eq_some h)
  refine ⟨⟨_, hcalled.extent⟩, fun result => ?_, fun paren types hopens => ?_⟩
  · rw [scan.callAtOffset_natCast, Except.ok.injEq]
    exact ⟨fun heq => heq ▸ hcalled.extent, fun hextent => hcalled.extent.unique hextent⟩
  · have hcode := hopens.code hcalled.drop_cells
    exact ⟨hcode, fun span hspan => ((Scan.balanced?_eq_some_of_opener (by decide) hcode).mp hspan).1⟩

/-- Type arguments with the signs of their end in a string, and with an arrow. -/
theorem found_call_located_arrow :
    let t : Text := "f(defineProps<'>(' | (a) => b>([c]))"
    let scan := Scan.ofText t
    scan.findCall? MacroKind.defineProps.name 1 = some 2 ∧
      ∃ result, CallExtent t .defineProps 2 result ∧
        result.toOption.map (fun call => (call.stop, call.arguments, call.typeArguments)) =
          some (34, "[c]".toList, some "'>(' | (a) => b".toList) := by
  intro t scan
  have hfound : scan.findCall? MacroKind.defineProps.name 1 = some 2 := by decide +kernel
  have hread : (scan.callAtOffset 2 .defineProps).toOption.map
      (fun result => result.toOption.map fun call => (call.stop, call.arguments, call.typeArguments)) =
        some (some (34, "[c]".toList, some "'>(' | (a) => b".toList)) := by decide +kernel
  obtain ⟨result, hresult, hcall⟩ := Option.map_eq_some_iff.mp hread
  have hlocated := (found_call_located t .defineProps 1 2 hfound).2.1 result
  refine ⟨hfound, result, hlocated.mp ?_, hcall⟩
  cases hsearch : scan.callAtOffset 2 .defineProps with
  | ok value =>
    rw [hsearch] at hresult
    exact congrArg Except.ok (Option.some.inj hresult)
  | error fault =>
    rw [hsearch] at hresult
    cases hresult

end SetupScript
