import SetupScript.Proofs.CallForms
import SetupScript.Proofs.NestedText

/-!
# Two ways to split a comma list

The elements of a pattern and the arguments of a call are split by different readers. The reader of
patterns counts all brackets together and lets a quote close its string unless a backslash stands right
before it. The scanner counts each kind of bracket on its own and reads a backslash together with the
character after it.

On text of code and quoted strings whose brackets are never closed before they are opened, the two ways
to count come to the same. The two ways to end a string do not: after an escaped backslash the scanner
ends the string at the next quote, and the reader of patterns takes that quote for an escaped one. They
read strings alike just where no string ends on a backslash, and there both split alike.
-/

namespace SetupScript

/-- The quote of the string that the scanner is inside of. -/
def Context.quote? : Context → Option Char
  | quoted q => some q
  | _ => none

/-- The scanner leaves a string right after the backslash at the offset: with that backslash it is still
inside, and with one more character in code. -/
def EndsOnBackslash (t : Text) (k : Nat) : Prop :=
  t[k]? = some '\\' ∧ (Context.code.after (t.take (k + 1))).quote?.isSome ∧
    Context.code.after (t.take (k + 2)) = .code

instance (t : Text) (k : Nat) : Decidable (EndsOnBackslash t k) := inferInstanceAs (Decidable (_ ∧ _ ∧ _))

/-! ## Text of code and strings -/

/-- Text of code and quoted strings only, as the scanner reads it from a context on. -/
inductive CodeAndStrings : Context → Text → Prop where
  | nil (context : Context) : CodeAndStrings context []
  | code {c : Char} {rest : Text} (hc : ¬ (c = '\x27' ∨ c = '\x22'))
    (hstep : Context.step .code c rest.head? = (.code, 1)) (h : CodeAndStrings .code rest) :
    CodeAndStrings .code (c :: rest)
  | opening {q : Char} {rest : Text} (hq : q = '\x27' ∨ q = '\x22')
    (h : CodeAndStrings (.quoted q) rest) : CodeAndStrings .code (q :: rest)
  | escape {q d : Char} {rest : Text} (hq : q = '\x27' ∨ q = '\x22')
    (h : CodeAndStrings (.quoted q) rest) : CodeAndStrings (.quoted q) ('\\' :: d :: rest)
  | cut {q : Char} (hq : q = '\x27' ∨ q = '\x22') : CodeAndStrings (.quoted q) ['\\']
  | closing {q : Char} {rest : Text} (hq : q = '\x27' ∨ q = '\x22') (h : CodeAndStrings .code rest) :
    CodeAndStrings (.quoted q) (q :: rest)
  | inside {q c : Char} {rest : Text} (hq : q = '\x27' ∨ q = '\x22') (hescape : c ≠ '\\') (hc : c ≠ q)
    (h : CodeAndStrings (.quoted q) rest) : CodeAndStrings (.quoted q) (c :: rest)

namespace Context

variable {q c : Char}

/-- A quote in code opens a string. -/
theorem step_code_quote (hq : q = '\x27' ∨ q = '\x22') (d : Option Char) :
    Context.step .code q d = (.quoted q, 1) := by
  rcases hq with rfl | rfl <;> simp [step]

/-- A backslash in a string is read together with the character after it. -/
theorem step_quoted_escape (q : Char) (d : Option Char) :
    Context.step (.quoted q) '\\' d = (.quoted q, 2) := by simp [step]

/-- Its quote closes a string. -/
theorem step_quoted_quote (hq : q = '\x27' ∨ q = '\x22') (d : Option Char) :
    Context.step (.quoted q) q d = (.code, 1) := by
  rcases hq with rfl | rfl <;> simp [step]

/-- Any other character belongs to the string. -/
theorem step_quoted_inside (hescape : c ≠ '\\') (hc : c ≠ q) (d : Option Char) :
    Context.step (.quoted q) c d = (.quoted q, 1) := by simp [step, hescape, hc]

/-- A step from code that reads neither a template nor a comment opens a string or stays in code. -/
theorem step_code_cases {d : Option Char} {next : Context} {width : Nat}
    (h : Context.step .code c d = (next, width))
    (hmode : (readMode .code next) ≠ .template ∧ (readMode .code next).isComment = false) :
    width = 1 ∧ ((c = '\x27' ∨ c = '\x22') ∧ next = .quoted c ∨
      ¬ (c = '\x27' ∨ c = '\x22') ∧ next = .code) := by
  by_cases hc : c = '\x27' ∨ c = '\x22'
  · rw [step_code_quote hc, Prod.mk.injEq] at h
    exact ⟨h.2.symm, .inl ⟨hc, h.1.symm⟩⟩
  · simp only [step, if_neg hc] at h
    split at h
    · obtain ⟨rfl, -⟩ := Prod.mk.inj h
      exact absurd hmode.2 (by decide)
    split at h
    · obtain ⟨rfl, -⟩ := Prod.mk.inj h
      exact absurd hmode.2 (by decide)
    split at h
    · obtain ⟨rfl, -⟩ := Prod.mk.inj h
      exact absurd rfl hmode.1
    · obtain ⟨rfl, rfl⟩ := Prod.mk.inj h
      exact ⟨rfl, .inr ⟨hc, rfl⟩⟩

/-- A step inside a string reads an escape, closes the string or stays inside. -/
theorem step_quoted_cases {d : Option Char} {next : Context} {width : Nat}
    (h : Context.step (.quoted q) c d = (next, width)) :
    (c = '\\' ∧ next = .quoted q ∧ width = 2) ∨ (c = q ∧ next = .code ∧ width = 1) ∨
      c ≠ '\\' ∧ c ≠ q ∧ next = .quoted q ∧ width = 1 := by
  simp only [step] at h
  split at h
  · next hc => exact .inl ⟨hc, by simpa [eq_comm] using h⟩
  split at h
  · next hc => exact .inr (.inl ⟨hc, by simpa [eq_comm] using h⟩)
  · next hescape hc => exact .inr (.inr ⟨hescape, hc, by simpa [eq_comm] using h⟩)

end Context

/-- Text whose scan has code and strings only is read as such. -/
theorem codeAndStrings_of_modes {context : Context} {t : Text}
    (hcontext : context = .code ∨ ∃ q, (q = '\x27' ∨ q = '\x22') ∧ context = .quoted q)
    (h : ∀ cell ∈ labelFrom context t, cell.mode ≠ .template ∧ cell.mode.isComment = false) :
    CodeAndStrings context t := by
  induction context, t using Context.scan_induction with
  | nil context => exact .nil context
  | single context c rest next hstep ih =>
    rw [labelFrom_single hstep] at h
    obtain ⟨hcell, hrest⟩ := List.forall_mem_cons.mp h
    rcases hcontext with rfl | ⟨q, hq, rfl⟩
    · obtain ⟨-, ⟨hc, rfl⟩ | ⟨hc, rfl⟩⟩ := Context.step_code_cases hstep hcell
      · exact .opening hc (ih (.inr ⟨c, hc, rfl⟩) hrest)
      · exact .code hc hstep (ih (.inl rfl) hrest)
    · obtain ⟨-, -, hwidth⟩ | ⟨rfl, rfl, -⟩ | ⟨hescape, hc, rfl, -⟩ := Context.step_quoted_cases hstep
      · cases hwidth
      · exact .closing hq (ih (.inl rfl) hrest)
      · exact .inside hq hescape hc (ih (.inr ⟨q, hq, rfl⟩) hrest)
  | pair context c d tail next hstep ih =>
    rw [labelFrom_pair hstep] at h
    obtain ⟨hcell, hrest⟩ := List.forall_mem_cons.mp h
    rcases hcontext with rfl | ⟨q, hq, rfl⟩
    · cases (Context.step_code_cases hstep hcell).1
    · obtain ⟨rfl, rfl, -⟩ | ⟨-, -, hwidth⟩ | ⟨-, -, -, hwidth⟩ := Context.step_quoted_cases hstep
      · exact .escape hq (ih (.inr ⟨q, hq, rfl⟩) (List.forall_mem_cons.mp hrest).2)
      · cases hwidth
      · cases hwidth
  | cut context c next hstep =>
    rw [labelFrom_cut hstep] at h
    rcases hcontext with rfl | ⟨q, hq, rfl⟩
    · cases (Context.step_code_cases hstep (h _ (List.mem_singleton_self _))).1
    · obtain ⟨rfl, -, -⟩ | ⟨-, -, hwidth⟩ | ⟨-, -, -, hwidth⟩ := Context.step_quoted_cases hstep
      · exact .cut hq
      · cases hwidth
      · cases hwidth

/-! ## The string that is open after a text -/

namespace Pattern

/-- The quote of the string that is open after a text, where one may be open already and `before` is the
last character that was read. -/
def openQuoteFrom (quote : Option Char) (before : Char) : Text → Option Char
  | [] => quote
  | c :: rest =>
    match quote with
    | some q => openQuoteFrom (if c = q ∧ before ≠ '\\' then none else some q) c rest
    | none => openQuoteFrom (if c = '\x27' ∨ c = '\x22' then some c else none) c rest

/-- The quote of the string that is open for the reader of patterns after a text. -/
def openQuote? (t : Text) : Option Char := openQuoteFrom none ' ' t

variable {q c : Char}

/-- A quote outside strings opens one. -/
theorem openQuoteFrom_quote (hq : q = '\x27' ∨ q = '\x22') (before : Char) (t : Text) :
    openQuoteFrom none before (q :: t) = openQuoteFrom (some q) q t := by
  rw [openQuoteFrom, if_pos hq]

/-- Any other character outside strings opens none. -/
theorem openQuoteFrom_code (hc : ¬ (c = '\x27' ∨ c = '\x22')) (before : Char) (t : Text) :
    openQuoteFrom none before (c :: t) = openQuoteFrom none c t := by
  rw [openQuoteFrom, if_neg hc]

/-- A string is closed by its quote where no backslash stands before it. -/
theorem openQuoteFrom_closing {before : Char} (hbefore : before ≠ '\\') (t : Text) :
    openQuoteFrom (some q) before (q :: t) = openQuoteFrom none q t := by
  rw [openQuoteFrom, if_pos ⟨rfl, hbefore⟩]

/-- It is left open by anything else. -/
theorem openQuoteFrom_inside {before : Char} (hc : ¬ (c = q ∧ before ≠ '\\')) (t : Text) :
    openQuoteFrom (some q) before (c :: t) = openQuoteFrom (some q) c t := by
  rw [openQuoteFrom, if_neg hc]

/-- Inside a string a character has no depth. -/
theorem walkFrom_closing {before : Char} (hbefore : before ≠ '\\') (depth : Int) (t : Text) :
    walkFrom (some q) before depth (q :: t) = (q, none) :: walkFrom none q depth t := by
  rw [walkFrom, if_pos ⟨rfl, hbefore⟩]

/-- This goes for all characters that leave it open. -/
theorem walkFrom_inside {before : Char} (hc : ¬ (c = q ∧ before ≠ '\\')) (depth : Int) (t : Text) :
    walkFrom (some q) before depth (c :: t) = (c, none) :: walkFrom (some q) c depth t := by
  rw [walkFrom, if_neg hc]

/-- The reader of patterns goes on inside the string that is open. -/
theorem walkFrom_append (quote : Option Char) (before : Char) (depth : Int) (s : Text) :
    ∃ depth', ∀ t, walkFrom quote before depth (s ++ t) = walkFrom quote before depth s ++
      walkFrom (openQuoteFrom quote before s) (s.getLastD before) depth' t := by
  induction s generalizing quote before depth with
  | nil => exact ⟨depth, fun t => rfl⟩
  | cons c rest ih =>
    have hlast : (c :: rest).getLastD before = rest.getLastD c := by cases rest <;> rfl
    cases quote with
    | some q =>
      obtain ⟨depth', hrest⟩ := ih (if c = q ∧ before ≠ '\\' then none else some q) c depth
      exact ⟨depth', fun t => by rw [List.cons_append, walkFrom, walkFrom, hrest, hlast]; rfl⟩
    | none =>
      by_cases hc : c = '\x27' ∨ c = '\x22'
      · obtain ⟨depth', hrest⟩ := ih (some c) c depth
        refine ⟨depth', fun t => ?_⟩
        rw [List.cons_append, walkFrom_quote hc, walkFrom_quote hc, hrest, hlast, openQuoteFrom, if_pos hc]
        rfl
      · obtain ⟨depth', hrest⟩ := ih none c (depth + depthStep c)
        refine ⟨depth', fun t => ?_⟩
        rw [List.cons_append, walkFrom_code hc, walkFrom_code hc, hrest, hlast, openQuoteFrom, if_neg hc]
        rfl

/-- After one more character the string is open that the character leaves open. -/
theorem openQuoteFrom_concat (quote : Option Char) (before : Char) (s : Text) (c : Char) :
    openQuoteFrom quote before (s ++ [c]) =
      openQuoteFrom (openQuoteFrom quote before s) (s.getLastD before) [c] := by
  induction s generalizing quote before with
  | nil => rfl
  | cons d rest ih =>
    have hlast : (d :: rest).getLastD before = rest.getLastD d := by cases rest <;> rfl
    rw [hlast, List.cons_append]
    cases quote with
    | some q => exact ih _ d
    | none => exact ih _ d

end Pattern

/-- No string of the text ends on a backslash, where `before` stands before the text. -/
def EndsFreely (context : Context) (before : Char) (t : Text) : Prop :=
  ∀ k, (before :: t)[k]? = some '\\' → (context.after (t.take k)).quote?.isSome →
    context.after (t.take (k + 1)) ≠ .code

/-- A whole text is read from code on, and no backslash stands before it. -/
theorem endsFreely_iff {t : Text} : EndsFreely .code ' ' t ↔ ∀ k, ¬ EndsOnBackslash t k := by
  constructor
  · rintro h k ⟨hk, hopen, hcode⟩
    exact h (k + 1) (by simpa using hk) hopen hcode
  · intro h k hk hopen hcode
    cases k with
    | zero => simp at hk
    | succ k => exact h k ⟨by simpa using hk, hopen, hcode⟩

namespace EndsFreely

variable {context next : Context} {before c d : Char} {rest : Text}

/-- What holds of a text holds after its first character. -/
theorem tail (h : EndsFreely context before (c :: rest))
    (hafter : ∀ k, context.after (c :: rest.take k) = next.after (rest.take k)) :
    EndsFreely next c rest := by
  intro k hk hopen
  have hlater := h (k + 1) (by simpa using hk)
  rw [List.take_succ_cons, List.take_succ_cons, hafter, hafter] at hlater
  exact hlater hopen

/-- What holds of a text holds after two characters that are read together. -/
theorem tail_pair (h : EndsFreely context before (c :: d :: rest))
    (hafter : ∀ k, context.after (c :: d :: rest.take k) = next.after (rest.take k)) :
    EndsFreely next d rest := by
  intro k hk hopen
  have hlater := h (k + 2) (by simpa using hk)
  rw [List.take_succ_cons, List.take_succ_cons, List.take_succ_cons, List.take_succ_cons, hafter,
    hafter] at hlater
  exact hlater hopen

end EndsFreely

/-- Cells as the reader of patterns gives them: code with the depth before it, all kinds of bracket
counted together, and anything else without. -/
def depthCells (depth : Int) : List Cell → List (Char × Option Int)
  | [] => []
  | cell :: rest =>
    if cell.isCode then (cell.char, some depth) :: depthCells (depth + Pattern.depthStep cell.char) rest
    else (cell.char, none) :: depthCells depth rest

/-- After every part of the text both readers have the same string open, and the reader of patterns goes
over the cells of the scan. -/
structure ReadAlike (context : Context) (before : Char) (t : Text) : Prop where
  opens : ∀ k, Pattern.openQuoteFrom context.quote? before (t.take k) = (context.after (t.take k)).quote?
  walks : ∀ depth, Pattern.walkFrom context.quote? before depth t = depthCells depth (labelFrom context t)

/-- Both readers have the same string open after a first character and after what follows it. -/
theorem ReadAlike.opens_cons {context next : Context} {before c : Char} {rest : Text}
    (h : ReadAlike next c rest)
    (hafter : ∀ k, context.after (c :: rest.take k) = next.after (rest.take k))
    (hopen : ∀ t, Pattern.openQuoteFrom context.quote? before (c :: t) =
      Pattern.openQuoteFrom next.quote? c t) (k : Nat) :
    Pattern.openQuoteFrom context.quote? before ((c :: rest).take k) =
      (context.after ((c :: rest).take k)).quote? := by
  cases k with
  | zero => simp [Pattern.openQuoteFrom]
  | succ k => rw [List.take_succ_cons, hafter, hopen, h.opens]

/-- A character of code is read alike where the text is cut after it. -/
theorem Context.step_code_take {c : Char} {rest : Text}
    (hstep : Context.step .code c rest.head? = (.code, 1)) (k : Nat) :
    Context.step .code c (rest.take k).head? = (.code, 1) := by
  cases k with
  | zero => exact Context.step_none_of_single hstep
  | succ k => cases rest <;> exact hstep

/-- Where no string ends on a backslash, text of code and strings is read alike. -/
theorem CodeAndStrings.readAlike {context : Context} {before : Char} {t : Text}
    (h : CodeAndStrings context t) (hfree : EndsFreely context before t) : ReadAlike context before t := by
  induction h generalizing before with
  | nil context =>
    exact ⟨fun k => by simp [Pattern.openQuoteFrom], fun depth => by simp [Pattern.walkFrom, depthCells]⟩
  | @code c rest hc hstep h ih =>
    have hafter (k : Nat) : Context.code.after (c :: rest.take k) = Context.code.after (rest.take k) :=
      Context.after_single (Context.step_code_take hstep k)
    have hrest := ih (hfree.tail hafter)
    refine ⟨hrest.opens_cons hafter (Pattern.openQuoteFrom_code hc before), fun depth => ?_⟩
    rw [labelFrom_single hstep]
    exact (Pattern.walkFrom_code hc before depth rest).trans (congrArg _ (hrest.walks _))
  | @opening q rest hq h ih =>
    have hafter (k : Nat) : Context.code.after (q :: rest.take k) = (Context.quoted q).after (rest.take k) :=
      Context.after_single (Context.step_code_quote hq _)
    have hrest := ih (hfree.tail hafter)
    refine ⟨hrest.opens_cons hafter (Pattern.openQuoteFrom_quote hq before), fun depth => ?_⟩
    rw [labelFrom_single (Context.step_code_quote hq _)]
    exact (Pattern.walkFrom_quote hq before depth rest).trans (congrArg _ (hrest.walks _))
  | @escape q d rest hq h ih =>
    have hafter (k : Nat) :
        (Context.quoted q).after ('\\' :: d :: rest.take k) = (Context.quoted q).after (rest.take k) :=
      Context.after_pair (Context.step_quoted_escape q _)
    have hrest := ih (hfree.tail_pair hafter)
    -- the backslash is no quote, and the character after it is escaped for the other reader, too
    have hslash : ¬ ('\\' = q ∧ before ≠ '\\') := by rcases hq with rfl | rfl <;> simp
    have hescaped : ¬ (d = q ∧ '\\' ≠ '\\') := by simp
    refine ⟨fun k => ?_, fun depth => ?_⟩
    · cases k with
      | zero => rfl
      | succ k =>
        rw [List.take_succ_cons]
        cases k with
        | zero =>
          rw [List.take_zero, Context.after_cut (Context.step_quoted_escape q none)]
          exact Pattern.openQuoteFrom_inside hslash _
        | succ k =>
          rw [List.take_succ_cons, hafter, ← hrest.opens]
          exact (Pattern.openQuoteFrom_inside hslash _).trans (Pattern.openQuoteFrom_inside hescaped _)
    · rw [labelFrom_pair (Context.step_quoted_escape q _)]
      refine (Pattern.walkFrom_inside hslash depth _).trans (congrArg _ ?_)
      exact (Pattern.walkFrom_inside hescaped depth rest).trans (congrArg _ (hrest.walks _))
  | @cut q hq =>
    have hslash : ¬ ('\\' = q ∧ before ≠ '\\') := by rcases hq with rfl | rfl <;> simp
    refine ⟨fun k => ?_, fun depth => ?_⟩
    · cases k with
      | zero => rfl
      | succ k =>
        rw [List.take_succ_cons, List.take_nil, Context.after_cut (Context.step_quoted_escape q none)]
        exact Pattern.openQuoteFrom_inside hslash _
    · rw [labelFrom_cut (Context.step_quoted_escape q _)]
      rfl
  | @closing q rest hq h ih =>
    have hafter (k : Nat) : (Context.quoted q).after (q :: rest.take k) = Context.code.after (rest.take k) :=
      Context.after_single (Context.step_quoted_quote hq _)
    have hrest := ih (hfree.tail hafter)
    have hbefore : before ≠ '\\' := by
      rintro rfl
      exact hfree 0 rfl rfl (hafter 0)
    refine ⟨hrest.opens_cons hafter (Pattern.openQuoteFrom_closing hbefore), fun depth => ?_⟩
    rw [labelFrom_single (Context.step_quoted_quote hq _)]
    exact (Pattern.walkFrom_closing hbefore depth rest).trans (congrArg _ (hrest.walks _))
  | @inside q c rest hq hescape hc h ih =>
    have hafter (k : Nat) :
        (Context.quoted q).after (c :: rest.take k) = (Context.quoted q).after (rest.take k) :=
      Context.after_single (Context.step_quoted_inside hescape hc _)
    have hrest := ih (hfree.tail hafter)
    have hother : ¬ (c = q ∧ before ≠ '\\') := fun hclosing => hc hclosing.1
    refine ⟨hrest.opens_cons hafter (Pattern.openQuoteFrom_inside hother), fun depth => ?_⟩
    rw [labelFrom_single (Context.step_quoted_inside hescape hc _)]
    exact (Pattern.walkFrom_inside hother depth rest).trans (congrArg _ (hrest.walks _))

/-- Where a string ends on a backslash, the reader of patterns keeps it open. -/
theorem EndsOnBackslash.differs {t : Text} {k : Nat} (h : EndsOnBackslash t k)
    (hsame : ∀ n, Pattern.openQuote? (t.take n) = (Context.code.after (t.take n)).quote?) : False := by
  obtain ⟨hk, hopen, hcode⟩ := h
  obtain ⟨q, hq⟩ := Option.isSome_iff_exists.mp hopen
  have hbefore : (t.take (k + 1)).getLastD ' ' = '\\' := by
    rw [List.take_add_one, hk]
    simp [List.getLastD_eq_getLast?]
  have hkept : Pattern.openQuote? (t.take (k + 1)) = some q := (hsame (k + 1)).trans hq
  have hended : Pattern.openQuote? (t.take (k + 2)) = none := by rw [hsame, hcode]; rfl
  rw [List.take_add_one] at hended
  cases hlast : t[k + 1]? with
  | none =>
    rw [hlast, Option.toList_none, List.append_nil, hkept] at hended
    cases hended
  | some c =>
    have hescaped : ¬ (c = q ∧ '\\' ≠ '\\') := by simp
    rw [hlast, Option.toList_some, Pattern.openQuote?, Pattern.openQuoteFrom_concat, hbefore,
      ← Pattern.openQuote?, hkept, Pattern.openQuoteFrom_inside hescaped] at hended
    cases hended

/-! ## Counting brackets -/

/-- A character of code adds to the depth what it adds to the counts of the three kinds. -/
theorem depthStep_eq_sum (c : Char) :
    Pattern.depthStep c = Cell.delimiterStep ['('] [')'] ⟨c, .code⟩ +
      Cell.delimiterStep ['{'] ['}'] ⟨c, .code⟩ + Cell.delimiterStep ['['] [']'] ⟨c, .code⟩ := by
  simp only [Pattern.depthStep, Pattern.isOpener, Pattern.isCloser, Cell.delimiterStep, Cell.isDelimiter,
    Cell.isCode]
  grind

/-- A cell takes the depth before it, and adds its steps in the three counts to it. -/
theorem depthCells_eq_cons (depth : Int) (cell : Cell) (rest : List Cell) :
    depthCells depth (cell :: rest) = (cell.char, if cell.isCode then some depth else none) ::
      depthCells (depth + (cell.delimiterStep ['('] [')'] + cell.delimiterStep ['{'] ['}'] +
        cell.delimiterStep ['['] [']'])) rest := by
  obtain ⟨c, mode⟩ := cell
  cases hcode : Cell.isCode ⟨c, mode⟩ with
  | false => simp [depthCells, Cell.delimiterStep, Cell.isDelimiter, hcode]
  | true =>
    obtain rfl : mode = .code := by simpa [Cell.isCode] using hcode
    rw [depthCells, if_pos hcode, if_pos rfl, depthStep_eq_sum]

/-- Where no count falls below zero, the depth is zero just when all three counts are. -/
theorem map_cutCell_depthCells {paren brace bracket : Int} {cells : List Cell}
    (hparen : ∀ k, 0 ≤ paren + surplus ['('] [')'] (cells.take k))
    (hbrace : ∀ k, 0 ≤ brace + surplus ['{'] ['}'] (cells.take k))
    (hbracket : ∀ k, 0 ≤ bracket + surplus ['['] [']'] (cells.take k)) :
    (depthCells (paren + brace + bracket) cells).map Pattern.cutCell =
      Scan.markCommas paren brace bracket cells := by
  induction cells generalizing paren brace bracket with
  | nil => rfl
  | cons cell rest ih =>
    have hparen₀ : 0 ≤ paren := by simpa using hparen 0
    have hbrace₀ : 0 ≤ brace := by simpa using hbrace 0
    have hbracket₀ : 0 ≤ bracket := by simpa using hbracket 0
    have hzero : (paren + brace + bracket == 0) = (paren == 0 && brace == 0 && bracket == 0) := by
      rw [Bool.eq_iff_iff]
      simp only [beq_iff_eq, Bool.and_eq_true]
      omega
    rw [depthCells_eq_cons, Scan.markCommas_eq_cons, List.map_cons,
      ← ih (fun k => by simpa [Int.add_assoc] using hparen (k + 1))
        (fun k => by simpa [Int.add_assoc] using hbrace (k + 1))
        (fun k => by simpa [Int.add_assoc] using hbracket (k + 1))]
    congr 1
    · cases hcode : cell.isCode <;> simp [Pattern.cutCell, hzero, Bool.and_assoc]
    · congr 2
      omega

/-- After any part of a text the reader of patterns goes on inside the string that is open for it. On text
of code and quoted strings in which no kind of bracket is closed before it is opened, the scanner has the
same string open everywhere just when no string ends on a backslash, and then the elements of the text
are its arguments. -/
theorem elements_are_arguments {t : Text}
    (hmodes : ∀ mode ∈ (Scan.ofText t).modes, mode ≠ .template ∧ mode.isComment = false)
    (hcounts : ∀ kind ∈ bracketKinds, ∀ k ≤ t.length,
      0 ≤ surplus [kind.1] [kind.2] ((Scan.ofText t).cells.take k)) :
    (∀ k, ∃ depth, ∀ rest, Pattern.walk (t.take k ++ rest) = Pattern.walk (t.take k) ++
      Pattern.walkFrom (Pattern.openQuote? (t.take k)) ((t.take k).getLastD ' ') depth rest) ∧
    ((∀ k, Pattern.openQuote? (t.take k) = (Context.code.after (t.take k)).quote?) ↔
      ∀ k, ¬ EndsOnBackslash t k) ∧
    ((∀ k, ¬ EndsOnBackslash t k) → Pattern.elements t = (Scan.ofText t).arguments) := by
  have hread : (∀ k, ¬ EndsOnBackslash t k) → ReadAlike .code ' ' t := fun hfree =>
    (codeAndStrings_of_modes (.inl rfl) fun cell hcell =>
      hmodes _ (List.mem_map_of_mem hcell)).readAlike (endsFreely_iff.mpr hfree)
  have hcount (kind : Char × Char) (hkind : kind ∈ bracketKinds) (k : Nat) :
      0 ≤ 0 + surplus [kind.1] [kind.2] ((labelFrom .code t).take k) := by
    rw [Int.zero_add]
    rcases Nat.le_total k t.length with hk | hk
    · exact hcounts kind hkind k hk
    · have hlength := length_labelFrom .code t
      rw [List.take_of_length_le (by omega), ← List.take_of_length_le (Nat.le_of_eq hlength)]
      exact hcounts kind hkind t.length (Nat.le_refl _)
  refine ⟨fun k => Pattern.walkFrom_append none ' ' 0 (t.take k),
    ⟨fun hsame k hends => hends.differs hsame, fun hfree => (hread hfree).opens⟩, fun hfree => ?_⟩
  have hmarks : (Pattern.walk t).map Pattern.cutCell = Scan.markCommas 0 0 0 (labelFrom .code t) := by
    rw [← map_cutCell_depthCells (hcount ('(', ')') (by simp [bracketKinds]))
      (hcount ('{', '}') (by simp [bracketKinds])) (hcount ('[', ']') (by simp [bracketKinds]))]
    exact congrArg _ ((hread hfree).walks 0)
  exact congrArg (fun marked => Text.trimItems (Text.cutMarked marked)) hmarks

/-- Escapes inside strings, brackets of every kind around commas, and commas in strings. -/
def escapedItems : Text := "\x7ba: 'it\\'s, so'\x7d, [b, \"c\\\\d\"], f(1, 2)".toList

theorem escapedItems_elements :
    Pattern.elements escapedItems = (Scan.ofText escapedItems).arguments ∧
      (Scan.ofText escapedItems).arguments =
        ["\x7ba: 'it\\'s, so'\x7d".toList, "[b, \"c\\\\d\"]".toList, "f(1, 2)".toList] := by
  have hfree : ∀ k < escapedItems.length, ¬ EndsOnBackslash escapedItems k := by decide +kernel
  refine ⟨(elements_are_arguments (by decide +kernel) (by decide +kernel)).2.2 fun k hk => ?_,
    by decide +kernel⟩
  exact hfree k (List.getElem?_eq_some_iff.mp hk.1).1 hk

/-- A string that ends with an escaped backslash, and an item after it. -/
def escapedBackslash : Text := "\"a\\\\\", b".toList

/-- The scanner ends the string at its second quote, the reader of patterns reads on to the end of the
text, and so takes both items for one. -/
theorem elements_escapedBackslash :
    (∀ mode ∈ (Scan.ofText escapedBackslash).modes, mode ≠ .template ∧ mode.isComment = false) ∧
    (∀ kind ∈ bracketKinds, ∀ k ≤ escapedBackslash.length,
      0 ≤ surplus [kind.1] [kind.2] ((Scan.ofText escapedBackslash).cells.take k)) ∧
    (Scan.ofText escapedBackslash).arguments = ["\"a\\\\\"".toList, "b".toList] ∧
    Pattern.elements escapedBackslash = [escapedBackslash] ∧
    EndsOnBackslash escapedBackslash 3 := by
  decide +kernel

end SetupScript
