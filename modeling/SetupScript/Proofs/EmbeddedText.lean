import Mathlib.Data.List.TakeWhile
import SetupScript.Proofs.CallExtents
import SetupScript.Proofs.ImportForms
import SetupScript.Proofs.ScanComposition

/-!
# A text between two others

When a text is put between a lead and a tail, its calls and its import statements stay what they
were, moved by the length of the lead, provided that the seams change nothing: the text is read
between the two as it is on its own, no searched word stands in the lead or the tail or begins at
the end of one, and the text ends with a character that ends every search. Calls are searched for in
code only, so that a name between quotes in the lead may hold anything that leaves it a string.
-/

namespace SetupScript

/-- The word stands nowhere in the text, and no beginning of it stands at the end. -/
def StaysOut (word t : Text) : Prop :=
  ∀ k < t.length, ¬ word <+: t.drop k ∧ ¬ t.drop k <+: word

instance (word t : Text) : Decidable (StaysOut word t) :=
  inferInstanceAs (Decidable (∀ k < t.length, _ ∧ _))

/-- A word that stays out of a text starts nowhere in it, whatever follows the text. -/
theorem StaysOut.not_starts {word t : Text} (h : StaysOut word t) {k : Nat} (hk : k < t.length)
    (rest : Text) : ¬ word <+: t.drop k ++ rest := by
  intro hword
  rcases List.prefix_or_prefix_of_prefix hword (List.prefix_append (t.drop k) rest) with hin | hout
  · exact (h k hk).1 hin
  · exact (h k hk).2 hout

/-- A word that does not hold the character ends before it. -/
theorem isPrefix_of_append_cons {word s rest : Text} {c : Char} (hc : c ∉ word)
    (h : word <+: s ++ c :: rest) : word <+: s := by
  have hcut : s ++ [c] <+: s ++ c :: rest := ⟨rest, by simp⟩
  rcases List.prefix_or_prefix_of_prefix h hcut with hin | hout
  · rcases List.prefix_concat_iff.mp hin with rfl | hin
    · simp at hc
    · exact hin
  · exact absurd (hout.subset (by simp)) hc

/-- A word stays out of a text with a quoted part when it stays out of what stands around the quotes and
does not stand between them. -/
theorem StaysOut.quoted {word front t back : Text} {quote : Char} (hquote : quote ∉ word)
    (hne : word ≠ []) (hfront : StaysOut word front) (ht : ¬ word <:+: t) (hback : StaysOut word back) :
    StaysOut word (front ++ (quote :: (t ++ (quote :: back)))) := by
  -- what holds a quote is no beginning of the word
  have hholds {s : Text} (hs : quote ∈ s) : ¬ s <+: word := fun hstarts => hquote (hstarts.subset hs)
  intro k hk
  rcases Nat.lt_or_ge k front.length with hin | hpast
  · rw [List.drop_append_of_le_length (Nat.le_of_lt hin)]
    exact ⟨fun hword => (hfront k hin).1 (isPrefix_of_append_cons hquote hword), hholds (by simp)⟩
  obtain ⟨k, rfl⟩ : ∃ j, k = front.length + j := ⟨k - front.length, by omega⟩
  rw [← List.drop_drop, List.drop_left]
  cases k with
  | zero => exact ⟨fun hword => hne (List.prefix_nil.mp (isPrefix_of_append_cons (s := []) hquote hword)),
      hholds (by simp)⟩
  | succ k =>
    rw [List.drop_succ_cons]
    rcases Nat.lt_or_ge t.length k with hpast | hin
    · obtain ⟨j, rfl⟩ : ∃ j, k = t.length + (j + 1) := ⟨k - t.length - 1, by omega⟩
      rw [← List.drop_drop, List.drop_left, List.drop_succ_cons]
      refine hback j ?_
      simp only [List.length_append, List.length_cons] at hk
      omega
    · rw [List.drop_append_of_le_length hin]
      refine ⟨fun hword => ht ?_, hholds (by simp)⟩
      exact (isPrefix_of_append_cons hquote hword).isInfix.trans (List.drop_suffix k t).isInfix

/-- The body is read between the other two texts as it is on its own. -/
def ReadsAlone (lead body tail : Text) : Prop :=
  labelFrom .code (lead ++ (body ++ tail)) =
    labelFrom .code lead ++ (labelFrom .code body ++ labelFrom .code tail)

/-- What is code in the body is code between the other texts. -/
theorem ReadsAlone.isCode {lead body tail : Text} (h : ReadsAlone lead body tail) {q : Nat}
    (hq : q < body.length) :
    (Scan.ofText (lead ++ (body ++ tail))).isCode (lead.length + q) = (Scan.ofText body).isCode q := by
  have hcell : (labelFrom .code (lead ++ (body ++ tail)))[lead.length + q]? =
      (labelFrom .code body)[q]? := by
    rw [h, List.getElem?_append_right (by simp), length_labelFrom, Nat.add_sub_cancel_left,
      List.getElem?_append_left (by simpa using hq)]
  simp only [Scan.isCode, Scan.ofText, hcell]

/-- What is code in the lead is code before the other texts. -/
theorem ReadsAlone.isCode_lead {lead body tail : Text} (h : ReadsAlone lead body tail) {k : Nat}
    (hk : k < lead.length) :
    (Scan.ofText (lead ++ (body ++ tail))).isCode k = (Scan.ofText lead).isCode k := by
  simp only [Scan.isCode, Scan.ofText]
  rw [h, List.getElem?_append_left (by simpa using hk)]

/-! ## Calls -/

/-- The word starts nowhere in the code of the text, whatever follows the text. -/
def StartsNowhere (word t : Text) : Prop :=
  ∀ k < t.length, (Scan.ofText t).isCode k → ∀ rest, ¬ word <+: t.drop k ++ rest

/-- A quoted text without quotes and escapes inside is no code. -/
theorem isCode_quoted {t : Text} (hquote : '\x22' ∉ t) (hescape : '\\' ∉ t) (back : Text) {k : Nat}
    (hk : k < t.length + 2) :
    (Scan.ofText ('\x22' :: (t ++ ('\x22' :: back)))).isCode k = false := by
  have hstep : Context.step .code '\x22' (t ++ ('\x22' :: back)).head? = (.quoted '\x22', 1) := rfl
  have hcells := (labelFrom_quoted hquote hescape (by decide) back).1
  rw [Scan.isCode, Scan.ofText, labelFrom_single hstep, hcells]
  cases k with
  | zero => rfl
  | succ k =>
    rw [List.getElem?_cons_succ, List.getElem?_append_left (by simp; omega), List.getElem?_map]
    cases (t ++ ['\x22'])[k]? <;> rfl

/-- A word starts nowhere in the code of a text with a quoted part when it stays out of what stands
around the quotes. -/
theorem StartsNowhere.quoted {word front t back : Text} (hword : '\x22' ∉ word)
    (hfront : StaysOut word front) (hcode : Context.code.after front = .code)
    (hlast : front.getLast? ≠ some '/') (hquote : '\x22' ∉ t) (hescape : '\\' ∉ t)
    (hback : StaysOut word back) : StartsNowhere word (front ++ ('\x22' :: (t ++ ('\x22' :: back)))) := by
  intro k hk hat rest hstarts
  rcases Nat.lt_or_ge k front.length with hin | hpast
  · rw [List.drop_append_of_le_length (Nat.le_of_lt hin), List.append_assoc] at hstarts
    exact (hfront k hin).1 (isPrefix_of_append_cons hword hstarts)
  obtain ⟨k, rfl⟩ : ∃ j, k = front.length + j := ⟨k - front.length, by omega⟩
  rw [Scan.isCode_append_right hcode (not_slashMeets_of_last hlast _)] at hat
  rcases Nat.lt_or_ge k (t.length + 2) with hin | hpast
  · rw [isCode_quoted hquote hescape back hin] at hat
    cases hat
  · obtain ⟨j, rfl⟩ : ∃ j, k = 1 + (t.length + (1 + j)) := ⟨k - t.length - 2, by omega⟩
    rw [← List.drop_drop, List.drop_left, ← List.drop_drop, List.drop_one, List.tail_cons,
      ← List.drop_drop, List.drop_left, ← List.drop_drop, List.drop_one, List.tail_cons] at hstarts
    simp only [List.length_append, List.length_cons] at hk
    exact hback.not_starts (by omega) rest hstarts

/-- A name that does not hold the last character of the cells is spelled alike whatever follows
them, and ends before that character. -/
theorem spelled?_append {name : Text} {cells : List Cell} {last : Cell}
    (hlast : cells.getLast? = some last) (hname : last.char ∉ name) (tail : List Cell) :
    spelled? name (cells ++ tail) = (spelled? name cells).map (· ++ tail) ∧
      ∀ after, spelled? name cells = some after → after.getLast? = some last := by
  induction name generalizing cells with
  | nil => simp [spelled?, hlast]
  | cons c name ih =>
    simp only [List.mem_cons, not_or] at hname
    cases cells with
    | nil => simp at hlast
    | cons cell rest =>
      by_cases hc : cell.char = c
      · have hrest : rest.getLast? = some last := by
          cases rest with
          | nil =>
            obtain rfl : cell = last := by simpa using hlast
            exact absurd hc hname.1
          | cons next rest => simpa using hlast
        obtain ⟨hsame, hends⟩ := ih hrest hname.2
        simp only [List.cons_append, spelled?, hc, if_true]
        exact ⟨hsame, hends⟩
      · simp [spelled?, hc]

/-- What starts an argument list is decided by the first character that is not blank. -/
theorem startsArguments_append {cells : List Cell} {last : Cell} (hlast : cells.getLast? = some last)
    (hblank : Text.isBlank last.char = false) (tail : List Cell) :
    startsArguments (cells ++ tail) = startsArguments cells := by
  have hdrop : cells.dropWhile (fun cell => Text.isBlank cell.char) ≠ [] := by
    intro hnil
    have hall := List.dropWhile_eq_nil_iff.mp hnil last (List.mem_of_getLast? hlast)
    rw [hblank] at hall
    cases hall
  obtain ⟨first, rest, hfirst⟩ := List.exists_cons_of_ne_nil hdrop
  simp [startsArguments, List.dropWhile_append, hfirst]

/-- A call is recognised alike whatever follows cells that end in a character that ends it. -/
theorem callHere_append {name : Text} {before : Option Char} {cells : List Cell} {last : Cell}
    (hlast : cells.getLast? = some last) (hname : last.char ∉ name)
    (hblank : Text.isBlank last.char = false) (tail : List Cell) :
    callHere name before (cells ++ tail) = callHere name before cells := by
  cases cells with
  | nil => simp at hlast
  | cons cell rest =>
    obtain ⟨hsame, hends⟩ := spelled?_append hlast hname tail
    simp only [List.cons_append, callHere] at hsame ⊢
    rw [hsame]
    cases hafter : spelled? name (cell :: rest) with
    | none => rfl
    | some after =>
      have hafterLast := hends after hafter
      have hhead : (after ++ tail).head? = after.head? := by
        cases after with
        | nil => simp at hafterLast
        | cons first more => rfl
      simp only [Option.map_some, hhead, startsArguments_append hafterLast hblank]

/-- Whether a call is recognised depends only on whether a name character stands before it. -/
theorem callHere_congr {name : Text} {before before' : Option Char} {cells : List Cell}
    (h : before.any Text.isNameChar = before'.any Text.isNameChar) :
    callHere name before cells = callHere name before' cells := by
  cases cells with
  | nil => rfl
  | cons cell rest => simp only [callHere, h]

section Calls

variable {lead body tail name : Text}

/-- The cells from an offset of the body on are those of the body and of the tail. -/
theorem ReadsAlone.drop_cells (h : ReadsAlone lead body tail) {q : Nat} (hq : q ≤ body.length) :
    (labelFrom .code (lead ++ (body ++ tail))).drop (lead.length + q) =
      (labelFrom .code body).drop q ++ labelFrom .code tail := by
  rw [h, ← List.drop_drop, List.drop_left' (length_labelFrom _ _),
    List.drop_append_of_le_length (by simpa using hq)]

/-- A name character stands before an offset of the body just when one does in the body alone. -/
theorem ReadsAlone.any_charBefore (h : ReadsAlone lead body tail)
    (hlead : lead.getLast?.any Text.isNameChar = false) {q : Nat} (hq : q ≤ body.length) :
    (charBefore none (labelFrom .code (lead ++ (body ++ tail))) (lead.length + q)).any Text.isNameChar =
      (charBefore none (labelFrom .code body) q).any Text.isNameChar := by
  cases q with
  | succ q =>
    rw [← Nat.add_assoc, charBefore, charBefore, h,
      List.getElem?_append_right (by simp), length_labelFrom, Nat.add_sub_cancel_left,
      List.getElem?_append_left (by rw [length_labelFrom]; omega)]
  | zero =>
    cases hlength : lead.length with
    | zero => rfl
    | succ n =>
      have hlast : (labelFrom .code (lead ++ (body ++ tail)))[n]?.map Cell.char = lead.getLast? := by
        rw [← List.getElem?_map, map_char_labelFrom, List.getElem?_append_left (by omega),
          List.getLast?_eq_getElem?, hlength, Nat.add_sub_cancel]
      change ((labelFrom .code (lead ++ (body ++ tail)))[n]?.map Cell.char).any Text.isNameChar = false
      rw [hlast, hlead]

/-- A name that is not called in a text is not called where the text is put between two others. -/
theorem callOffsets_embedded (hreads : ReadsAlone lead body tail) (hlead : StartsNowhere name lead)
    (htail : StaysOut name tail) (hbefore : lead.getLast?.any Text.isNameChar = false)
    {last : Cell} (hlast : (labelFrom .code body).getLast? = some last) (hname : last.char ∉ name)
    (hblank : Text.isBlank last.char = false) (h : (Scan.ofText body).callOffsets name = []) :
    (Scan.ofText (lead ++ (body ++ tail))).callOffsets name = [] := by
  refine List.eq_nil_iff_forall_not_mem.mpr fun p hp => ?_
  obtain ⟨hcode, hprefix⟩ := Scan.of_mem_callOffsets hp
  rw [Scan.text, Scan.ofText, map_char_labelFrom] at hprefix
  rcases Nat.lt_or_ge p lead.length with hp₁ | hp₁
  · rw [List.drop_append_of_le_length (Nat.le_of_lt hp₁)] at hprefix
    rw [hreads.isCode_lead hp₁] at hcode
    exact hlead p hp₁ hcode _ hprefix
  obtain ⟨q, rfl⟩ : ∃ q, p = lead.length + q := ⟨p - lead.length, by omega⟩
  rcases Nat.lt_or_ge q body.length with hq | hq
  · obtain ⟨k, hk, hcall⟩ := mem_callOffsetsFrom.mp hp
    obtain rfl : k = lead.length + q := by omega
    have hends : ((labelFrom .code body).drop q).getLast? = some last := by
      rw [List.getLast?_drop, if_neg (by rw [length_labelFrom]; omega), hlast]
    simp only [Scan.ofText] at hcall
    rw [callHere_congr (hreads.any_charBefore hbefore (Nat.le_of_lt hq)),
      hreads.drop_cells (Nat.le_of_lt hq), callHere_append hends hname hblank] at hcall
    have hmem : q ∈ (Scan.ofText body).callOffsets name :=
      mem_callOffsetsFrom.mpr ⟨q, by omega, hcall⟩
    rw [h] at hmem
    cases hmem
  · obtain ⟨r, rfl⟩ : ∃ r, q = body.length + r := ⟨q - body.length, by omega⟩
    have hr : r < tail.length := by
      by_contra hr
      rw [Scan.isCode, Scan.ofText, List.getElem?_eq_none (by simp; omega)] at hcode
      cases hcode
    rw [← List.drop_drop, List.drop_left, ← List.drop_drop, List.drop_left] at hprefix
    exact (htail r hr).1 hprefix

end Calls

/-! ## Searches -/

namespace Text

variable {α : Type} {admits : Option Char → Bool} {reader : Reader α} {lead body tail : Text}

/-- A search finds nothing in a text on which the reader fails everywhere. -/
theorem findAllFrom_eq_nil (hfail : ∀ k < tail.length, reader (tail.drop k) = none)
    (before : Option Char) (pos skip : Nat) : findAllFrom admits reader before pos skip tail = [] := by
  refine List.eq_nil_iff_forall_not_mem.mpr fun found hfound => ?_
  obtain ⟨k, left, -, -, hk, hread, -⟩ := mem_findAllFrom hfound
  rw [hfail k hk] at hread
  cases hread

/-- A search passes over a lead on which the reader fails. -/
theorem findAllFrom_lead {rest : Text}
    (hfail : ∀ k < lead.length, reader (lead.drop k ++ rest) = none) (before : Option Char) (pos : Nat) :
    findAllFrom admits reader before pos 0 (lead ++ rest) =
      findAllFrom admits reader (lead.getLast?.or before) (pos + lead.length) 0 rest := by
  induction lead generalizing before pos with
  | nil => rfl
  | cons c more ih =>
    have hfirst : reader (c :: (more ++ rest)) = none := hfail 0 (by simp)
    rw [List.cons_append, findAllFrom_refused fun _ => hfirst,
      ih fun k hk => hfail (k + 1) (by simpa using hk), getLast?_cons_or, List.length_cons, Nat.add_assoc,
      Nat.add_comm 1]

/-- A search finds in a text what it finds when a tail follows, provided that the reader takes no
part of the tail. -/
theorem findAllFrom_tail (hlocal : ∀ k < body.length, reader (body.drop k ++ tail) =
      (reader (body.drop k)).map fun read => (read.1, read.2 ++ tail))
    (hfail : ∀ k < tail.length, reader (tail.drop k) = none) (before : Option Char) (pos skip : Nat) :
    findAllFrom admits reader before pos skip (body ++ tail) =
      findAllFrom admits reader before pos skip body := by
  induction body generalizing before pos skip with
  | nil => exact findAllFrom_eq_nil hfail before pos skip
  | cons c rest ih =>
    have hrest := ih fun k hk => hlocal (k + 1) (by simpa using hk)
    have hfirst : reader (c :: (rest ++ tail)) =
        (reader (c :: rest)).map fun read => (read.1, read.2 ++ tail) := hlocal 0 (by simp)
    rw [List.cons_append]
    cases skip with
    | succ skip => simp only [findAllFrom, hrest]
    | zero =>
      simp only [findAllFrom, hfirst, hrest]
      cases admits before with
      | false => rfl
      | true =>
        cases reader (c :: rest) with
        | none => rfl
        | some read =>
          have hwidth : (c :: (rest ++ tail)).length - (read.2 ++ tail).length =
              (c :: rest).length - read.2.length := by
            simp only [List.length_cons, List.length_append]
            omega
          simp only [if_true, Option.map_some, hwidth]

/-- Matches move with the offset at which the text starts. -/
theorem findAllFrom_shift (before : Option Char) (pos skip d : Nat) (t : Text) :
    findAllFrom admits reader before (pos + d) skip t =
      (findAllFrom admits reader before pos skip t).map fun found =>
        ⟨found.start + d, found.stop + d, found.value⟩ := by
  induction t generalizing before pos skip with
  | nil => rfl
  | cons c rest ih =>
    have hmove : pos + d + 1 = pos + 1 + d := by omega
    cases skip with
    | succ skip => simp only [findAllFrom, hmove, ih]
    | zero =>
      simp only [findAllFrom, hmove, ih]
      split
      · next read hread =>
        rw [List.map_cons, Nat.add_right_comm pos d]
      · rfl

/-- Of what stands before a text a search looks only at whether a match may start after it. -/
theorem findAllFrom_congr {before before' : Option Char} (h : admits before = admits before')
    (pos skip : Nat) (t : Text) :
    findAllFrom admits reader before pos skip t = findAllFrom admits reader before' pos skip t := by
  cases t with
  | nil => rfl
  | cons c rest =>
    cases skip with
    | succ skip => rfl
    | zero => simp only [findAllFrom, h]

/-- A search finds in a text between two others what it finds in the text alone. -/
theorem findAll_embedded (hlead : ∀ k < lead.length, reader (lead.drop k ++ (body ++ tail)) = none)
    (hadmits : admits lead.getLast? = admits none)
    (hlocal : ∀ k < body.length, reader (body.drop k ++ tail) =
      (reader (body.drop k)).map fun read => (read.1, read.2 ++ tail))
    (hfail : ∀ k < tail.length, reader (tail.drop k) = none) :
    findAll admits reader (lead ++ (body ++ tail)) = (findAll admits reader body).map fun found =>
      ⟨found.start + lead.length, found.stop + lead.length, found.value⟩ := by
  have hbefore : admits (lead.getLast?.or none) = admits none := by rw [Option.or_none, hadmits]
  rw [findAll, findAllFrom_lead hlead, findAllFrom_congr hbefore, findAllFrom_tail hlocal hfail,
    findAllFrom_shift]
  rfl

end Text

/-! ## Import statements -/

/-- The reader takes texts that begin with `import` and end with a quote, whatever follows them. -/
def TakesImport {α : Type} (reader : Reader α) : Prop :=
  ∃ form : α → Text → Prop,
    (∀ t value left, reader t = some (value, left) ↔ ∃ taken, t = taken ++ left ∧ form value taken) ∧
    ∀ value taken, form value taken →
      ("import" : Text) <+: taken ∧ ∃ q, taken.getLast? = some q ∧ isPathQuote q

/-- Named imports are such texts. -/
theorem takesImport_namedImport : TakesImport Reader.namedImport := by
  refine ⟨fun value taken => Reader.NamedForm value.1 value.2 taken,
    fun t value left => Reader.namedImport_eq_some, fun value taken hform => ?_⟩
  obtain ⟨g₁, g₂, g₃, q, q', rfl, -, -, -, -, -, hq', -⟩ := hform
  refine ⟨List.prefix_append _ _, q', ?_, hq'⟩
  simp [List.getLast?_append, List.getLast?_cons]

/-- A default import is such a text. -/
theorem takesImport_of_defaultForm {name path taken : Text} (h : Reader.DefaultForm name path taken) :
    ("import" : Text) <+: taken ∧ ∃ q, taken.getLast? = some q ∧ isPathQuote q := by
  obtain ⟨g₁, g₂, g₃, q, q', rfl, -, -, -, -, -, hq', -⟩ := h
  refine ⟨List.prefix_append _ _, q', ?_, hq'⟩
  simp [List.getLast?_append, List.getLast?_cons]

/-- Default imports are such texts. -/
theorem takesImport_defaultImport : TakesImport Reader.defaultImport :=
  ⟨fun value taken => Reader.DefaultForm value.1 value.2 taken,
    fun _ _ _ => Reader.defaultImport_eq_some, fun _ _ hform => takesImport_of_defaultForm hform⟩

/-- Imports of component files are such texts. -/
theorem takesImport_componentImport {ending : Text} (hending : ending.all (!isPathQuote ·)) :
    TakesImport (Reader.componentImport ending) := by
  refine ⟨fun value taken => Reader.DefaultForm value.1 value.2 taken ∧
    ∃ stem, stem ≠ [] ∧ value.2 = stem ++ ending, fun t value left => ?_,
    fun _ _ hform => takesImport_of_defaultForm hform.1⟩
  rw [Reader.componentImport_eq_some hending]
  constructor
  · rintro ⟨⟨taken, htext, hform⟩, hstem⟩
    exact ⟨taken, htext, hform, hstem⟩
  · rintro ⟨taken, htext, hform, hstem⟩
    exact ⟨⟨taken, htext, hform⟩, hstem⟩

namespace TakesImport

variable {α : Type} {reader : Reader α} {lead body tail : Text}

/-- Such a reader fails where no `import` stands. -/
theorem eq_none (h : TakesImport reader) {t : Text} (ht : ¬ ("import" : Text) <+: t) :
    reader t = none := by
  obtain ⟨form, htakes, hform⟩ := h
  refine Option.eq_none_iff_forall_ne_some.mpr fun read hread => ?_
  obtain ⟨taken, rfl, htaken⟩ := (htakes t read.1 read.2).mp hread
  exact ht ((hform _ _ htaken).1.trans (List.prefix_append _ _))

/-- Such a reader takes nothing of a tail without quotes. -/
theorem append_tail (h : TakesImport reader) (htail : tail.all (!isPathQuote ·)) (t : Text) :
    reader (t ++ tail) = (reader t).map fun read => (read.1, read.2 ++ tail) := by
  obtain ⟨form, htakes, hform⟩ := h
  ext ⟨value, left⟩
  simp only [Option.map_eq_some_iff, Prod.exists, Prod.mk.injEq, htakes]
  constructor
  · rintro ⟨taken, htext, htaken⟩
    rcases List.append_eq_append_iff.mp htext with ⟨more, rfl, hmore⟩ | ⟨left', rfl, rfl⟩
    · -- the last quote would have to stand in the tail
      obtain ⟨-, q, hlast, hq⟩ := hform _ _ htaken
      rcases List.eq_nil_or_concat more with rfl | ⟨front, last, rfl⟩
      · rw [List.nil_append] at hmore
        exact ⟨value, [], ⟨t, by simp, by simpa using htaken⟩, rfl, by simpa using hmore⟩
      · obtain rfl : last = q := by simpa using hlast
        have hplain := List.all_eq_true.mp htail last (by simp [hmore])
        simp [hq] at hplain
    · exact ⟨value, left', ⟨taken, rfl, htaken⟩, rfl, rfl⟩
  · rintro ⟨_, left', ⟨taken, rfl, htaken⟩, rfl, rfl⟩
    exact ⟨taken, by simp, htaken⟩

/-- The imports of a text between two others are those of the text alone. -/
theorem findAll_embedded (h : TakesImport reader) (hlead : StaysOut "import" lead)
    (hadmits : Text.outsideMember lead.getLast?) (htail : StaysOut "import" tail)
    (hquotes : tail.all (!isPathQuote ·)) :
    Text.findAll Text.outsideMember reader (lead ++ (body ++ tail)) =
      (Text.findAll Text.outsideMember reader body).map fun found =>
        ⟨found.start + lead.length, found.stop + lead.length, found.value⟩ :=
  Text.findAll_embedded (fun _ hk => h.eq_none (hlead.not_starts hk _)) hadmits
    (fun _ _ => h.append_tail hquotes _) fun k hk => h.eq_none (htail k hk).1

end TakesImport

/-- An import statement in a text between two others stands in the text alone. -/
theorem mem_importMatches_embedded {ending lead body tail : Text} (hending : ending.all (!isPathQuote ·))
    (hlead : StaysOut "import" lead) (hadmits : Text.outsideMember lead.getLast?)
    (htail : StaysOut "import" tail) (hquotes : tail.all (!isPathQuote ·)) {found : Text.Match Hoisted}
    (h : found ∈ importMatches ending (lead ++ (body ++ tail))) :
    ∃ found' ∈ importMatches ending body, found.start = found'.start + lead.length := by
  have hsearch {reader : Reader (Text × Text)} (hreader : TakesImport reader)
      {hoist : Text × Text → Hoisted}
      (hmem : found ∈ (Text.findAll Text.outsideMember reader (lead ++ (body ++ tail))).map
        (hoistedAs hoist)) :
      ∃ found' ∈ (Text.findAll Text.outsideMember reader body).map (hoistedAs hoist),
        found.start = found'.start + lead.length := by
    rw [hreader.findAll_embedded hlead hadmits htail hquotes, List.map_map] at hmem
    obtain ⟨raw, hraw, rfl⟩ := List.mem_map.mp hmem
    exact ⟨_, List.mem_map_of_mem hraw, rfl⟩
  simp only [importMatches_eq, List.mem_append] at h ⊢
  rcases h with (hfile | hnamed) | hdefault
  · obtain ⟨found', hfound, hstart⟩ := hsearch (takesImport_componentImport hending) hfile
    exact ⟨found', .inl (.inl hfound), hstart⟩
  · obtain ⟨found', hfound, hstart⟩ := hsearch takesImport_namedImport hnamed
    exact ⟨found', .inl (.inr hfound), hstart⟩
  · obtain ⟨found', hfound, hstart⟩ := hsearch takesImport_defaultImport hdefault
    exact ⟨found', .inr hfound, hstart⟩

end SetupScript
