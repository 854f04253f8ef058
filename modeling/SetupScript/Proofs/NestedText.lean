import SetupScript.Pattern
import SetupScript.Proofs.TextLines

/-!
# Nested text

Text is nested when its quoted strings are closed and its brackets outside strings come in pairs, one
pair within the other. Walking over nested text ends where it began: outside strings and at the depth
of the start. So texts that are nested each can be read one after the other. A piece is nested text
without a comma outside brackets and strings, and a list of pieces with commas between them is read as
just these pieces.
-/

namespace SetupScript.Pattern

/-- The bracket that closes what another opens. -/
def closerOf (opener : Char) : Char := if opener = '{' then '}' else if opener = '[' then ']' else ')'

/-- The text closes its strings and nests its brackets, where a string may be open already and
`pending` closing brackets are due, the next one first. -/
def isNestedFrom (quote : Option Char) (before : Char) (pending : List Char) : Text → Bool
  | [] => quote.isNone && pending.isEmpty
  | c :: rest =>
    match quote with
    | some q => isNestedFrom (if c = q ∧ before ≠ '\\' then none else some q) c pending rest
    | none =>
      if c = '\x27' ∨ c = '\x22' then isNestedFrom (some c) c pending rest
      else if isOpener c then isNestedFrom none c (closerOf c :: pending) rest
      else if isCloser c then pending.head? == some c && isNestedFrom none c pending.tail rest
      else isNestedFrom none c pending rest

/-- The text closes its strings and nests its brackets. -/
def isNested (t : Text) : Bool := isNestedFrom none ' ' [] t

/-- Nested text as it is read, one character after the other. -/
inductive Nested : Option Char → Char → List Char → Text → Prop where
  | nil {before : Char} : Nested none before [] []
  | quoted {q before c : Char} {pending : List Char} {t : Text}
    (h : Nested (if c = q ∧ before ≠ '\\' then none else some q) c pending t) :
    Nested (some q) before pending (c :: t)
  | quote {before c : Char} {pending : List Char} {t : Text} (hquote : c = '\x27' ∨ c = '\x22')
    (h : Nested (some c) c pending t) : Nested none before pending (c :: t)
  | opener {before c : Char} {pending : List Char} {t : Text} (hcode : ¬ (c = '\x27' ∨ c = '\x22'))
    (hopener : isOpener c) (h : Nested none c (closerOf c :: pending) t) :
    Nested none before pending (c :: t)
  | closer {before c : Char} {pending : List Char} {t : Text} (hcode : ¬ (c = '\x27' ∨ c = '\x22'))
    (hopener : isOpener c = false) (hcloser : isCloser c) (h : Nested none c pending t) :
    Nested none before (c :: pending) (c :: t)
  | plain {before c : Char} {pending : List Char} {t : Text} (hcode : ¬ (c = '\x27' ∨ c = '\x22'))
    (hopener : isOpener c = false) (hcloser : isCloser c = false) (h : Nested none c pending t) :
    Nested none before pending (c :: t)

variable {quote : Option Char} {before : Char} {pending : List Char} {s t : Text}

/-- Text that passes the check is nested. -/
theorem nested_of_isNestedFrom (h : isNestedFrom quote before pending t) :
    Nested quote before pending t := by
  fun_induction isNestedFrom quote before pending t with
  | case1 quote before pending =>
    simp only [Bool.and_eq_true, Option.isNone_iff_eq_none, List.isEmpty_iff] at h
    obtain ⟨rfl, rfl⟩ := h
    exact .nil
  | case2 before pending c t q ih => exact .quoted (ih h)
  | case3 before pending c t hquote ih => exact .quote hquote (ih h)
  | case4 before pending c t hcode hopener ih => exact .opener hcode hopener (ih h)
  | case5 before pending c t hcode hopener hcloser ih =>
    rw [Bool.and_eq_true, beq_iff_eq] at h
    obtain ⟨below, rfl⟩ : ∃ below, pending = c :: below := List.head?_eq_some_iff.mp h.1
    exact .closer hcode (Bool.eq_false_iff.mpr hopener) hcloser (ih h.2)
  | case6 before pending c t hcode hopener hcloser ih =>
    exact .plain hcode (Bool.eq_false_iff.mpr hopener) (Bool.eq_false_iff.mpr hcloser) (ih h)

/-! ## One text after the other -/

/-- Outside strings the character before does not matter. -/
theorem Nested.of_none {pending : List Char} (h : Nested none ' ' pending t) (before : Char) :
    Nested none before pending t := by
  cases h with
  | nil => exact .nil
  | quote hquote h => exact .quote hquote h
  | opener hcode hopener h => exact .opener hcode hopener h
  | closer hcode hopener hcloser h => exact .closer hcode hopener hcloser h
  | plain hcode hopener hcloser h => exact .plain hcode hopener hcloser h

/-- Nested text may be followed by text that nests what is due below it. -/
theorem Nested.append (h : Nested quote before pending s) {below : List Char}
    (ht : Nested none ' ' below t) : Nested quote before (pending ++ below) (s ++ t) := by
  induction h with
  | nil => exact ht.of_none _
  | quoted h ih => exact .quoted ih
  | quote hquote h ih => exact .quote hquote ih
  | opener hcode hopener h ih => exact .opener hcode hopener ih
  | closer hcode hopener hcloser h ih => exact .closer hcode hopener hcloser ih
  | plain hcode hopener hcloser h ih => exact .plain hcode hopener hcloser ih

/-- Outside strings the character before does not matter to the walk. -/
theorem walkFrom_none (before : Char) (depth : Int) (t : Text) :
    walkFrom none before depth t = walkFrom none ' ' depth t := by
  cases t <;> rfl

/-- A quote starts a string. -/
theorem walkFrom_quote {c : Char} (h : c = '\x27' ∨ c = '\x22') (before : Char) (depth : Int)
    (t : Text) : walkFrom none before depth (c :: t) = (c, none) :: walkFrom (some c) c depth t := by
  simp only [walkFrom, if_pos h]

/-- Any other character has the depth before it. -/
theorem walkFrom_code {c : Char} (h : ¬ (c = '\x27' ∨ c = '\x22')) (before : Char) (depth : Int)
    (t : Text) : walkFrom none before depth (c :: t) =
      (c, some depth) :: walkFrom none c (depth + depthStep c) t := by
  simp only [walkFrom, if_neg h]

/-- An opening bracket puts its closing one on top of what is due. -/
theorem due_of_opener {c : Char} (h : isOpener c) (depth : Int) (pending : List Char) :
    depth + (pending.length : Int) + depthStep c = depth + ((closerOf c :: pending).length : Int) := by
  rw [depthStep, if_pos h, List.length_cons]
  omega

/-- A closing bracket takes itself off. -/
theorem due_of_closer {c : Char} (hopener : isOpener c = false) (h : isCloser c) (depth : Int)
    (pending : List Char) :
    depth + ((c :: pending).length : Int) + depthStep c = depth + (pending.length : Int) := by
  rw [depthStep, if_neg (by simp [hopener]), if_pos h, List.length_cons]
  omega

/-- Other characters leave it as it is. -/
theorem due_of_plain {c : Char} (hopener : isOpener c = false) (h : isCloser c = false) (depth : Int)
    (pending : List Char) :
    depth + (pending.length : Int) + depthStep c = depth + (pending.length : Int) := by
  simp [depthStep, hopener, h]

/-- The walk over nested text ends outside strings and below the brackets that were due. -/
theorem Nested.walkFrom_append (h : Nested quote before pending s) (depth : Int) (t : Text) :
    walkFrom quote before (depth + pending.length) (s ++ t) =
      walkFrom quote before (depth + pending.length) s ++ walkFrom none ' ' depth t := by
  induction h with
  | nil => simp [walkFrom, walkFrom_none _ _ t]
  | quoted h ih => simp only [List.cons_append, walkFrom, ih]
  | quote hquote h ih => simp only [List.cons_append, walkFrom_quote hquote, ih]
  | opener hcode hopener h ih =>
    simp only [List.cons_append, walkFrom_code hcode, due_of_opener hopener, ih]
  | closer hcode hopener hcloser h ih =>
    simp only [List.cons_append, walkFrom_code hcode, due_of_closer hopener hcloser, ih]
  | plain hcode hopener hcloser h ih =>
    simp only [List.cons_append, walkFrom_code hcode, due_of_plain hopener hcloser, ih]

/-- Nested text never goes below the brackets that were due. -/
theorem Nested.le_depth (h : Nested quote before pending t) (depth : Int) {c : Char} {inner : Int}
    (hmem : (c, some inner) ∈ walkFrom quote before (depth + pending.length) t) : depth ≤ inner := by
  have hhere {pending : List Char} {d : Char}
      (h : (c, some inner) = (d, some (depth + (pending.length : Int)))) : depth ≤ inner := by
    have := Option.some.inj (Prod.mk.inj h).2
    omega
  induction h with
  | nil => cases hmem
  | quoted h ih =>
    rw [walkFrom] at hmem
    rcases List.mem_cons.mp hmem with hfirst | hrest
    · cases hfirst
    · exact ih hrest
  | quote hquote h ih =>
    rw [walkFrom_quote hquote] at hmem
    rcases List.mem_cons.mp hmem with hfirst | hrest
    · cases hfirst
    · exact ih hrest
  | opener hcode hopener h ih =>
    rw [walkFrom_code hcode, due_of_opener hopener] at hmem
    exact (List.mem_cons.mp hmem).elim hhere ih
  | closer hcode hopener hcloser h ih =>
    rw [walkFrom_code hcode, due_of_closer hopener hcloser] at hmem
    exact (List.mem_cons.mp hmem).elim hhere ih
  | plain hcode hopener hcloser h ih =>
    rw [walkFrom_code hcode, due_of_plain hopener hcloser] at hmem
    exact (List.mem_cons.mp hmem).elim hhere ih

/-- What closes a bracket tells the bracket. -/
theorem closerOf_inj {c d : Char} (hc : isOpener c) (hd : isOpener d) (h : closerOf c = closerOf d) :
    c = d := by
  simp only [isOpener, Bool.or_eq_true, beq_iff_eq] at hc hd
  rcases hc with (rfl | rfl) | rfl <;> rcases hd with (rfl | rfl) | rfl <;>
    first | rfl | exact absurd h (by decide)

/-- What closes a bracket is a closing bracket. -/
theorem isCloser_closerOf (c : Char) : isCloser (closerOf c) := by
  unfold closerOf
  split
  · rfl
  · split <;> rfl

/-- No bracket that opens is one that closes. -/
theorem ne_closerOf {c d : Char} (hc : isOpener c) (hd : isOpener d) : c ≠ closerOf d := by
  simp only [isOpener, Bool.or_eq_true, beq_iff_eq] at hc hd
  rcases hc with (rfl | rfl) | rfl <;> rcases hd with (rfl | rfl) | rfl <;> decide

section

variable {o c : Char} {depth : Int} {length : Nat} {more : List (Char × Option Int)}

/-- A string is passed over. -/
theorem closeLength_string : closeLength o (closerOf o) depth length ((c, none) :: more) =
    closeLength o (closerOf o) depth (length + 1) more := by
  rw [closeLength]
  rfl

/-- So is a character that is neither bracket. -/
theorem closeLength_other (hopener : c ≠ o) (hcloser : c ≠ closerOf o) (inner : Int) :
    closeLength o (closerOf o) depth length ((c, some inner) :: more) =
      closeLength o (closerOf o) depth (length + 1) more := by
  rw [closeLength, if_neg (by simp), if_neg hopener, if_neg hcloser]

/-- An opening bracket has to be closed as well. -/
theorem closeLength_opener (inner : Int) :
    closeLength o (closerOf o) depth length ((o, some inner) :: more) =
      closeLength o (closerOf o) (depth + 1) (length + 1) more := by
  rw [closeLength, if_neg (by simp), if_pos rfl]

/-- A closing bracket closes one of several. -/
theorem closeLength_closer (ho : isOpener o) (hdepth : depth ≠ 0) (inner : Int) :
    closeLength o (closerOf o) (depth + 1) length ((closerOf o, some inner) :: more) =
      closeLength o (closerOf o) depth (length + 1) more := by
  rw [closeLength, if_neg (by simp), if_neg (ne_closerOf ho ho).symm, if_pos rfl, Int.add_sub_cancel,
    if_neg hdepth]

end

/-- Nested text does not close a bracket that was opened before it. -/
theorem Nested.closeLength_append (h : Nested quote before pending t) {o : Char} (ho : isOpener o)
    {count : Nat} (hcount : 0 < count) (depth : Int) (length : Nat) (more : List (Char × Option Int)) :
    closeLength o (closerOf o) ((count + pending.count (closerOf o) : Nat) : Int) length
        (walkFrom quote before depth t ++ more) =
      closeLength o (closerOf o) count (length + t.length) more := by
  -- Only brackets of one kind are counted, so what is due is counted by that kind, too.
  induction h generalizing depth length with
  | nil => rfl
  | quoted h ih =>
    rw [walkFrom, List.cons_append, closeLength_string, ih, List.length_cons, Nat.add_right_comm,
      Nat.add_assoc]
  | quote hquote h ih =>
    rw [walkFrom_quote hquote, List.cons_append, closeLength_string, ih, List.length_cons,
      Nat.add_right_comm, Nat.add_assoc]
  | @opener _ c pending _ hcode hopener h ih =>
    rw [walkFrom_code hcode, List.cons_append, List.length_cons, ← Nat.add_assoc, Nat.add_right_comm,
      ← ih (depth + depthStep c)]
    by_cases hc : c = o
    · subst hc
      rw [closeLength_opener, List.count_cons_self, ← Nat.add_assoc]
      rfl
    · have hother : closerOf c ≠ closerOf o := fun h => hc (closerOf_inj hopener ho h)
      rw [closeLength_other hc (ne_closerOf hopener ho), List.count_cons_of_ne hother]
  | @closer _ c pending _ hcode hopener hcloser h ih =>
    rw [walkFrom_code hcode, List.cons_append, List.length_cons, ← Nat.add_assoc, Nat.add_right_comm,
      ← ih (depth + depthStep c)]
    by_cases hc : c = closerOf o
    · subst hc
      have hleft : ((count + pending.count (closerOf o) : Nat) : Int) ≠ 0 := by omega
      rw [List.count_cons_self, ← Nat.add_assoc]
      exact closeLength_closer ho hleft _
    · have hother : c ≠ o := by
        rintro rfl
        rw [ho] at hopener
        cases hopener
      rw [closeLength_other hother hc, List.count_cons_of_ne hc]
  | @plain _ c pending _ hcode hopener hcloser h ih =>
    have hother : c ≠ o := by
      rintro rfl
      rw [ho] at hopener
      cases hopener
    have hclosing : c ≠ closerOf o := by
      rintro rfl
      rw [isCloser_closerOf] at hcloser
      cases hcloser
    rw [walkFrom_code hcode, List.cons_append, closeLength_other hother hclosing, ih,
      List.length_cons, Nat.add_right_comm, Nat.add_assoc]

/-! ## Pieces -/

/-- The walk goes over the text. -/
theorem map_fst_walkFrom (quote : Option Char) (before : Char) (depth : Int) (t : Text) :
    (walkFrom quote before depth t).map Prod.fst = t := by
  induction t generalizing quote before depth with
  | nil => rfl
  | cons c t ih =>
    cases quote with
    | some q => rw [walkFrom, List.map_cons, ih]
    | none =>
      by_cases hquote : c = '\x27' ∨ c = '\x22'
      · rw [walkFrom_quote hquote, List.map_cons, ih]
      · rw [walkFrom_code hquote, List.map_cons, ih]

/-- Nested text is walked over before what follows it. -/
theorem Nested.walk_append (h : Nested none ' ' [] s) (t : Text) : walk (s ++ t) = walk s ++ walk t :=
  h.walkFrom_append 0 t

/-- Nested text without a comma outside brackets and strings. -/
structure IsPiece (t : Text) : Prop where
  nested : Nested none ' ' [] t
  no_comma : ∀ cell ∈ walk t, cell ≠ (',', some 0)

/-- The check for a piece. -/
def isPiece (t : Text) : Bool := isNested t && (walk t).all (· != (',', some 0))

/-- Text that passes the check is a piece. -/
theorem isPiece_of_check (h : isPiece t) : IsPiece t := by
  rw [isPiece, Bool.and_eq_true] at h
  refine ⟨nested_of_isNestedFrom h.1, fun cell hcell => ?_⟩
  exact bne_iff_ne.mp (List.all_eq_true.mp h.2 cell hcell)

/-- Pieces next to each other are a piece. -/
theorem IsPiece.append (hs : IsPiece s) (ht : IsPiece t) : IsPiece (s ++ t) := by
  refine ⟨hs.nested.append ht.nested, fun cell hcell => ?_⟩
  rw [hs.nested.walk_append] at hcell
  exact (List.mem_append.mp hcell).elim (hs.no_comma cell) (ht.no_comma cell)

/-- Brackets are no quotes. -/
theorem code_of_isOpener {o : Char} (ho : isOpener o) :
    ¬ (o = '\x27' ∨ o = '\x22') ∧ ¬ (closerOf o = '\x27' ∨ closerOf o = '\x22') ∧
      isOpener (closerOf o) = false := by
  simp only [isOpener, Bool.or_eq_true, beq_iff_eq] at ho
  rcases ho with (rfl | rfl) | rfl <;> decide

/-- Nested text in brackets is nested. -/
theorem Nested.enclosed (h : Nested none ' ' [] t) {o : Char} (ho : isOpener o) :
    Nested none ' ' [] (o :: t ++ [closerOf o]) := by
  obtain ⟨hcode, hcloser, hopener⟩ := code_of_isOpener ho
  have hend : Nested none ' ' [closerOf o] [closerOf o] :=
    .closer hcloser hopener (isCloser_closerOf o) .nil
  exact .opener hcode ho ((h.of_none o).append hend)

/-- Text in brackets is one deeper than the brackets' surroundings. -/
theorem Nested.walk_enclosed (h : Nested none ' ' [] t) {o : Char} (ho : isOpener o) :
    walk (o :: t ++ [closerOf o]) =
      (o, some 0) :: walkFrom none ' ' 1 t ++ [(closerOf o, some 1)] := by
  obtain ⟨hcode, hcloser, -⟩ := code_of_isOpener ho
  rw [walk, List.cons_append, walkFrom_code hcode, walkFrom_none o]
  have hstep : (0 : Int) + depthStep o = 1 := by
    rw [depthStep, if_pos ho]
    rfl
  have hwalk : walkFrom none ' ' 1 (t ++ [closerOf o]) =
      walkFrom none ' ' 1 t ++ walkFrom none ' ' 1 [closerOf o] := h.walkFrom_append 1 _
  rw [hstep, hwalk, walkFrom_code hcloser]
  rfl

/-- The bracket that opens nested text is closed at its end. -/
theorem Nested.closeLength_enclosed (h : Nested none ' ' [] t) {o : Char} (ho : isOpener o)
    (rest : Text) :
    closeLength o (closerOf o) 0 0 (walk (o :: t ++ [closerOf o] ++ rest)) =
      some (o :: t ++ [closerOf o]).length := by
  have hinner := h.closeLength_append ho Nat.one_pos 1 1 ((closerOf o, some 1) :: walk rest)
  rw [(h.enclosed ho).walk_append, h.walk_enclosed ho, List.append_assoc, List.cons_append,
    closeLength_opener]
  refine hinner.trans ?_
  rw [closeLength, if_neg (by simp), if_neg (ne_closerOf ho ho).symm, if_pos rfl]
  simp [Nat.add_comm]

/-- Nothing in brackets is at the depth of their surroundings. -/
theorem Nested.ne_zero_of_mem (h : Nested none ' ' [] t) {cell : Char × Option Int}
    (hcell : cell ∈ walkFrom none ' ' 1 t) : cell.2 ≠ some 0 := by
  intro hzero
  have hdepth : 1 ≤ (0 : Int) := h.le_depth (c := cell.1) 1 (hzero ▸ hcell)
  exact absurd hdepth (by decide)

/-- Nested text in brackets is a piece. -/
theorem Nested.isPiece (h : Nested none ' ' [] t) {o : Char} (ho : isOpener o) :
    IsPiece (o :: t ++ [closerOf o]) := by
  refine ⟨h.enclosed ho, ?_⟩
  rw [h.walk_enclosed ho]
  rintro cell hcell rfl
  rcases List.mem_append.mp hcell with hfront | hlast
  · rcases List.mem_cons.mp hfront with hfirst | hinner
    · obtain ⟨rfl, -⟩ := Prod.mk.inj hfirst
      exact absurd ho (by decide)
    · exact h.ne_zero_of_mem hinner rfl
  · have hdepth := (Prod.mk.inj (List.mem_singleton.mp hlast)).2
    exact absurd hdepth (by decide)

/-- The characters that patterns are punctuated with. -/
def marks : List Char := ['\x27', '\x22', '{', '[', '(', '}', ']', ')', ',', ':', '=']

/-- The text holds no punctuation. -/
def Unmarked (t : Text) : Prop := ∀ c ∈ t, c ∉ marks

/-- Text without punctuation is walked over at one depth. -/
theorem Unmarked.walkFrom (h : Unmarked t) (before : Char) (depth : Int) :
    walkFrom none before depth t = t.map fun c => (c, some depth) := by
  induction t generalizing before with
  | nil => rfl
  | cons c t ih =>
    obtain ⟨hc, ht⟩ := List.forall_mem_cons.mp h
    simp only [marks, List.mem_cons, List.not_mem_nil, or_false, not_or] at hc
    have hstep : depthStep c = 0 := by simp [depthStep, isOpener, isCloser, hc]
    rw [walkFrom_code (by simp [hc]), hstep, Int.add_zero, ih ht, List.map_cons]

/-- Text without punctuation is a piece. -/
theorem Unmarked.isPiece (h : Unmarked t) : IsPiece t := by
  refine ⟨?_, ?_⟩
  · have hnested (before : Char) : Nested none before [] t := by
      induction t generalizing before with
      | nil => exact .nil
      | cons c t ih =>
        obtain ⟨hc, ht⟩ := List.forall_mem_cons.mp h
        simp only [marks, List.mem_cons, List.not_mem_nil, or_false, not_or] at hc
        exact .plain (by simp [hc]) (by simp [isOpener, hc]) (by simp [isCloser, hc]) (ih ht c)
    exact hnested ' '
  · rw [walk, h.walkFrom]
    rintro cell hcell rfl
    obtain ⟨c, hc, hcomma⟩ := List.mem_map.mp hcell
    obtain ⟨rfl, -⟩ := Prod.mk.inj hcomma
    exact h ',' hc (by decide)

/-- A class of characters without punctuation makes text without punctuation. -/
theorem unmarked_of_class {p : Char → Bool} (hp : marks.all (!p ·)) (h : t.all p) : Unmarked t := by
  intro c hc hmark
  have hfree := List.all_eq_true.mp hp c hmark
  rw [List.all_eq_true.mp h c hc] at hfree
  cases hfree

/-- A list of nested texts is nested. -/
theorem nested_joinWith {pieces : List Text} (h : ∀ piece ∈ pieces, Nested none ' ' [] piece) :
    Nested none ' ' [] (Text.joinWith "," pieces) := by
  have hcomma : Nested none ' ' [] [','] := nested_of_isNestedFrom rfl
  induction pieces with
  | nil => exact .nil
  | cons piece rest ih =>
    obtain ⟨hpiece, hrest⟩ := List.forall_mem_cons.mp h
    cases rest with
    | nil => simpa [Text.joinWith] using hpiece
    | cons next rest =>
      rw [Text.joinWith, List.intercalate_cons_cons]
      exact (hpiece.append hcomma).append (ih hrest)

/-- A cell with a mark where a list is cut. -/
def cutCell (cell : Char × Option Int) : Char × Bool := (cell.1, cell.1 == ',' && cell.2 == some 0)

/-- A piece is not cut. -/
theorem IsPiece.cutMarked (h : IsPiece t) : Text.cutMarked ((walk t).map cutCell) = [t] := by
  have hfree : ((walk t).map cutCell).all (!·.2) := by
    refine List.all_eq_true.mpr fun cut hcut => ?_
    obtain ⟨⟨c, depth⟩, hcell, rfl⟩ := List.mem_map.mp hcut
    have hcomma := h.no_comma _ hcell
    simpa [cutCell, imp_iff_not_or] using hcomma
  rw [Text.cutMarked_of_unmarked hfree, List.map_map]
  exact congrArg (· :: []) (map_fst_walkFrom none ' ' 0 t)

/-- A list of pieces is cut into these pieces. -/
theorem cutMarked_joinWith {piece : Text} {rest : List Text} (h : ∀ p ∈ piece :: rest, IsPiece p) :
    Text.cutMarked ((walk (Text.joinWith "," (piece :: rest))).map cutCell) = piece :: rest := by
  induction rest generalizing piece with
  | nil =>
    rw [Text.joinWith, List.intercalate_singleton]
    exact (h piece List.mem_cons_self).cutMarked
  | cons next rest ih =>
    obtain ⟨hpiece, hrest⟩ := List.forall_mem_cons.mp h
    have hjoined : Text.joinWith "," (piece :: next :: rest) =
        piece ++ ',' :: Text.joinWith "," (next :: rest) := by
      rw [Text.joinWith, List.intercalate_cons_cons, List.append_assoc]
      rfl
    have hcomma (t : Text) : walk (',' :: t) = (',', some 0) :: walk t := by
      rw [walk, walkFrom_code (by decide), walkFrom_none]
      rfl
    rw [hjoined, hpiece.nested.walk_append, hcomma, List.map_append, List.map_cons]
    have hcut : cutCell (',', some 0) = (',', true) := rfl
    rw [hcut, Text.cutMarked_append_cut, hpiece.cutMarked, ih hrest, List.singleton_append]

/-- A list of pieces has these pieces as its elements. -/
theorem elements_joinWith {pieces : List Text} (h : ∀ piece ∈ pieces, IsPiece piece) :
    elements (Text.joinWith "," pieces) = Text.trimItems pieces := by
  cases pieces with
  | nil => rfl
  | cons piece rest => exact congrArg Text.trimItems (cutMarked_joinWith h)

/-- A hole binds nothing. -/
theorem elementNames_nil (inArray : Bool) : elementNames inArray [] = [] := by cases inArray <;> rfl

/-- An empty item adds nothing, whether it is dropped or not. -/
theorem flatMap_trimItems {f : Text → List Text} (h : f [] = []) (pieces : List Text) :
    (Text.trimItems pieces).flatMap f = pieces.flatMap fun piece => f (Text.trim piece) := by
  induction pieces with
  | nil => rfl
  | cons piece rest ih =>
    cases rest with
    | nil =>
      rw [Text.trimItems]
      split
      · next hblank => simp [List.isEmpty_iff.mp hblank, h]
      · simp
    | cons next rest =>
      have htrim : Text.trimItems (piece :: next :: rest) =
          Text.trim piece :: Text.trimItems (next :: rest) := rfl
      rw [htrim, List.flatMap_cons, ih]
      rfl

end SetupScript.Pattern
