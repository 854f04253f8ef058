import Mathlib.Data.List.Induction
import SetupScript.Proofs.SettledText

/-!
# Division into lexemes

A text falls into consecutive lexemes: single characters of code, string and template literals, and
the two kinds of comment. The grammar says what they look like without a scanner state; only the last
lexeme of a text may be cut short by the end of the text.

Every text has exactly one division, and a scan gives every character the mode of its lexeme.
Existence reads a lexeme off the front by its first one or two characters. Uniqueness goes through
the scan: what is left when it is back in code depends on the text alone, so two divisions agree on
their first lexeme.
-/

namespace SetupScript

/-! ## The grammar -/

/-- What stands between the delimiters of a literal: escapes, each a backslash with whatever follows
it, and characters that are neither a backslash nor the delimiter. -/
inductive LiteralItems (delimiter : Char) : Text → Prop
  | nil : LiteralItems delimiter []
  | escape (c : Char) {rest : Text} (h : LiteralItems delimiter rest) :
      LiteralItems delimiter ('\\' :: c :: rest)
  | plain {c : Char} {rest : Text} (hescape : c ≠ '\\') (hdelimiter : c ≠ delimiter)
      (h : LiteralItems delimiter rest) : LiteralItems delimiter (c :: rest)

/-- The mode of the literals that a character delimits, if it delimits any. -/
def literalMode? (c : Char) : Option Mode :=
  if c = '\x60' then some .template else if c = '\x27' ∨ c = '\x22' then some .string else none

/-- A whole lexeme of a mode, with the text that follows it. -/
inductive IsLexeme : Mode → Text → Text → Prop
  /-- One character that opens no literal and, with what follows it, no comment. -/
  | code {c : Char} {rest : Text} (hliteral : literalMode? c = none)
      (hcomment : ¬ (c = '/' ∧ (rest.head? = some '/' ∨ rest.head? = some '*'))) :
      IsLexeme .code [c] rest
  /-- A delimiter, items, and the same delimiter. -/
  | literal {delimiter : Char} {mode : Mode} {items rest : Text}
      (hmode : literalMode? delimiter = some mode) (hitems : LiteralItems delimiter items) :
      IsLexeme mode (delimiter :: (items ++ [delimiter])) rest
  /-- Two slashes up to and with the next line break. -/
  | lineComment {inner rest : Text} (hinner : '\n' ∉ inner) :
      IsLexeme .lineComment ('/' :: '/' :: (inner ++ ['\n'])) rest
  /-- A slash and a star up to and with the first star and slash after them. -/
  | blockComment {inner rest : Text} (hinner : ¬ ['*', '/'] <:+: inner) :
      IsLexeme .blockComment ('/' :: '*' :: (inner ++ ['*', '/'])) rest

/-- A lexeme of a mode that the end of the text cuts short. -/
inductive IsCutLexeme : Mode → Text → Prop
  | literal {delimiter : Char} {mode : Mode} {items : Text}
      (hmode : literalMode? delimiter = some mode) (hitems : LiteralItems delimiter items) :
      IsCutLexeme mode (delimiter :: items)
  /-- The text ends after the backslash of an escape. -/
  | escape {delimiter : Char} {mode : Mode} {items : Text}
      (hmode : literalMode? delimiter = some mode) (hitems : LiteralItems delimiter items) :
      IsCutLexeme mode (delimiter :: (items ++ ['\\']))
  | lineComment {inner : Text} (hinner : '\n' ∉ inner) :
      IsCutLexeme .lineComment ('/' :: '/' :: inner)
  | blockComment {inner : Text} (hinner : ¬ ['*', '/'] <:+: inner) :
      IsCutLexeme .blockComment ('/' :: '*' :: inner)

/-- A stretch of a text with its mode. -/
structure Piece where
  mode : Mode
  text : Text

/-- The pieces are the lexemes of the text, in order; only the last one may be cut short. -/
inductive Division : Text → List Piece → Prop
  | nil : Division [] []
  | cut {mode : Mode} {taken : Text} (h : IsCutLexeme mode taken) : Division taken [⟨mode, taken⟩]
  | cons {mode : Mode} {taken rest : Text} {pieces : List Piece} (h : IsLexeme mode taken rest)
      (hrest : Division rest pieces) : Division (taken ++ rest) (⟨mode, taken⟩ :: pieces)

/-! ## Reading one lexeme -/

namespace Context

/-- The context inside the literals of a delimiter. -/
def ofDelimiter (delimiter : Char) : Context :=
  if delimiter = '\x60' then .template else .quoted delimiter

/-- A delimiter opens its literal, whose characters have its mode. -/
theorem step_code_delimiter {delimiter : Char} {mode : Mode} (h : literalMode? delimiter = some mode)
    (d : Option Char) :
    step .code delimiter d = (ofDelimiter delimiter, 1) ∧ (ofDelimiter delimiter).mode = mode ∧
      ofDelimiter delimiter ≠ .code ∧ delimiter ≠ '\\' := by
  simp only [literalMode?] at h
  simp only [step, ofDelimiter]
  grind [Context.mode]

/-- Inside a literal only a backslash and the delimiter are not read as they stand. -/
theorem step_ofDelimiter (delimiter c : Char) (d : Option Char) :
    (ofDelimiter delimiter).step c d =
      if c = '\\' then (ofDelimiter delimiter, 2)
      else if c = delimiter then (.code, 1) else (ofDelimiter delimiter, 1) := by
  unfold ofDelimiter
  split
  · next hbacktick =>
    subst hbacktick
    rfl
  · rfl

/-- What is left of a text when a scan from the context is back in code. -/
def leftover (context : Context) : Text → Text
  | [] => []
  | c :: rest =>
    if context = .code then c :: rest
    else
      let (next, width) := context.step c rest.head?
      match rest with
      | d :: tail => if width = 2 then next.leftover tail else next.leftover (d :: tail)
      | [] => []

/-- A scan in code need not get back there. -/
@[simp] theorem leftover_code (t : Text) : Context.code.leftover t = t := by
  cases t with
  | nil => rfl
  | cons c rest => simp [leftover]

variable {context next : Context} {c d : Char} {a rest : Text}

/-- A step of one character leaves what the next step leaves. -/
theorem leftover_single (hopen : context ≠ .code) (h : context.step c rest.head? = (next, 1)) :
    context.leftover (c :: rest) = next.leftover rest := by
  cases rest with
  | nil =>
    rw [leftover, leftover]
    simp [hopen]
  | cons d tail =>
    rw [leftover, if_neg hopen, h]
    rfl

/-- A step of two characters leaves what the next step leaves. -/
theorem leftover_pair (hopen : context ≠ .code) (h : context.step c (some d) = (next, 2)) :
    context.leftover (c :: d :: rest) = next.leftover rest := by
  rw [leftover, if_neg hopen, List.head?_cons, h]
  rfl

end Context

/-- A scan from the context reads the text in the mode of the context, and is then back in code or at
the end. -/
def ReadsThrough (context : Context) (a rest : Text) : Prop :=
  labelFrom context (a ++ rest) = a.map (⟨·, context.mode⟩) ++ labelFrom .code rest ∧
    context.leftover (a ++ rest) = rest

namespace ReadsThrough

variable {context : Context} {c d : Char} {a rest : Text}

/-- Outside code, characters are read in the mode of the context. -/
theorem readMode_of_open (hopen : context ≠ .code) (next : Context) :
    context.readMode next = context.mode := by
  rw [Context.readMode, if_neg hopen]

/-- One more character that leads on in the context. -/
theorem single (hopen : context ≠ .code) (hstep : context.step c (a ++ rest).head? = (context, 1))
    (h : ReadsThrough context a rest) : ReadsThrough context (c :: a) rest := by
  rw [ReadsThrough, List.cons_append, labelFrom_single hstep, Context.leftover_single hopen hstep, h.1,
    h.2, readMode_of_open hopen]
  exact ⟨rfl, rfl⟩

/-- Two more characters that are read together and lead on in the context. -/
theorem pair (hopen : context ≠ .code) (hstep : context.step c (some d) = (context, 2))
    (h : ReadsThrough context a rest) : ReadsThrough context (c :: d :: a) rest := by
  rw [ReadsThrough, List.cons_append, List.cons_append, labelFrom_pair hstep,
    Context.leftover_pair hopen hstep, h.1, h.2, readMode_of_open hopen]
  exact ⟨rfl, rfl⟩

/-- A character that leads back to code. -/
theorem close (hopen : context ≠ .code) (hstep : context.step c rest.head? = (.code, 1)) :
    ReadsThrough context [c] rest := by
  rw [ReadsThrough, List.singleton_append, labelFrom_single hstep,
    Context.leftover_single hopen hstep, readMode_of_open hopen]
  exact ⟨rfl, Context.leftover_code rest⟩

/-- Two characters that lead back to code. -/
theorem close_pair (hopen : context ≠ .code) (hstep : context.step c (some d) = (.code, 2)) :
    ReadsThrough context [c, d] rest := by
  rw [ReadsThrough, List.cons_append, List.singleton_append, labelFrom_pair hstep,
    Context.leftover_pair hopen hstep, readMode_of_open hopen]
  exact ⟨rfl, Context.leftover_code rest⟩

/-- The end of the text. -/
theorem nil (context : Context) : ReadsThrough context [] [] := by
  simp [ReadsThrough, Context.leftover]

/-- A last character that only begins an escape. -/
theorem cut {next : Context} (hopen : context ≠ .code) (hstep : context.step c none = (next, 2)) :
    ReadsThrough context [c] [] := by
  rw [ReadsThrough, List.append_nil, labelFrom_cut hstep, readMode_of_open hopen]
  refine ⟨rfl, ?_⟩
  rw [Context.leftover, if_neg hopen, List.head?_nil, hstep]

/-- Items of a literal are read in it, whatever way the literal goes on. -/
theorem of_items {delimiter : Char} {items : Text} (hopen : Context.ofDelimiter delimiter ≠ .code)
    (h : LiteralItems delimiter items) {tail : Text}
    (htail : ReadsThrough (Context.ofDelimiter delimiter) tail rest) :
    ReadsThrough (Context.ofDelimiter delimiter) (items ++ tail) rest := by
  induction h with
  | nil => exact htail
  | escape c h ih =>
    refine pair hopen ?_ ih
    rw [Context.step_ofDelimiter, if_pos rfl]
  | plain hescape hdelimiter h ih =>
    refine single hopen ?_ ih
    rw [Context.step_ofDelimiter, if_neg hescape, if_neg hdelimiter]

/-- A text without a line break is read in a line comment, whatever way the comment goes on. -/
theorem of_line {inner tail : Text} (hinner : '\n' ∉ inner)
    (htail : ReadsThrough .lineComment tail rest) :
    ReadsThrough .lineComment (inner ++ tail) rest := by
  induction inner with
  | nil => exact htail
  | cons c inner ih =>
    simp only [List.mem_cons, not_or] at hinner
    refine single (by simp) ?_ (ih hinner.2)
    simp [Context.step, Ne.symm hinner.1]

/-- A text without a star and slash is read in a block comment, provided that what follows does not
begin with the slash of such a pair. -/
theorem of_block {inner tail : Text} (hinner : ¬ ['*', '/'] <:+: inner)
    (hseam : (tail ++ rest).head? ≠ some '/') (htail : ReadsThrough .blockComment tail rest) :
    ReadsThrough .blockComment (inner ++ tail) rest := by
  induction inner with
  | nil => exact htail
  | cons c inner ih =>
    rw [List.infix_cons_iff, not_or] at hinner
    refine single (by simp) ?_ (ih hinner.2)
    have hpair : ¬ (c = '*' ∧ (inner ++ tail ++ rest).head? = some '/') := by
      rintro ⟨rfl, hnext⟩
      cases inner with
      | nil => exact hseam hnext
      | cons d inner =>
        obtain rfl : d = '/' := by simpa using hnext
        exact hinner.1 ⟨inner, rfl⟩
    exact if_neg hpair

end ReadsThrough

/-- What is left of a text after its first lexeme. -/
def afterLexeme : Text → Text
  | [] => []
  | c :: rest =>
    let (next, width) := Context.step .code c rest.head?
    next.leftover (rest.drop (width - 1))

/-- The text starts with a lexeme of the mode as far as a scan is concerned. -/
def StartsWith (mode : Mode) (taken rest : Text) : Prop :=
  labelFrom .code (taken ++ rest) = taken.map (⟨·, mode⟩) ++ labelFrom .code rest ∧
    afterLexeme (taken ++ rest) = rest

/-- A literal starts with its delimiter. -/
theorem StartsWith.of_literal {delimiter : Char} {mode : Mode}
    (hmode : literalMode? delimiter = some mode) {a rest : Text}
    (h : Context.ofDelimiter delimiter ≠ .code → ReadsThrough (Context.ofDelimiter delimiter) a rest) :
    StartsWith mode (delimiter :: a) rest := by
  obtain ⟨hstep, hread, hopen, -⟩ := Context.step_code_delimiter hmode (a ++ rest).head?
  obtain ⟨hcells, hleft⟩ := h hopen
  refine ⟨?_, ?_⟩
  · rw [List.cons_append, labelFrom_single hstep, hcells, hread]
    simp only [Context.readMode, if_true, hread]
    rfl
  · rw [List.cons_append, afterLexeme, hstep]
    exact hleft

/-- A comment starts with two characters that are read together. -/
theorem StartsWith.of_comment {context : Context} {d : Char}
    (hstep : Context.step .code '/' (some d) = (context, 2)) {a rest : Text}
    (h : ReadsThrough context a rest) : StartsWith context.mode ('/' :: d :: a) rest := by
  refine ⟨?_, ?_⟩
  · rw [List.cons_append, List.cons_append, labelFrom_pair hstep, h.1]
    simp only [Context.readMode, if_true]
    rfl
  · rw [List.cons_append, List.cons_append, afterLexeme, List.head?_cons, hstep]
    exact h.2

/-- A scan reads a whole lexeme in its mode. -/
theorem IsLexeme.startsWith {mode : Mode} {taken rest : Text} (h : IsLexeme mode taken rest) :
    StartsWith mode taken rest := by
  cases h with
  | code hliteral hcomment =>
    rename_i c
    have hstep : Context.step .code c rest.head? = (.code, 1) := by
      simp only [literalMode?] at hliteral
      simp only [Context.step]
      grind
    refine ⟨?_, ?_⟩
    · rw [List.singleton_append, labelFrom_single hstep]
      rfl
    · rw [List.singleton_append, afterLexeme, hstep]
      exact Context.leftover_code rest
  | literal hmode hitems =>
    rename_i delimiter items
    refine .of_literal hmode fun hopen => .of_items hopen hitems (.close hopen ?_)
    have hescape := (Context.step_code_delimiter hmode none).2.2.2
    rw [Context.step_ofDelimiter, if_neg hescape, if_pos rfl]
  | lineComment hinner =>
    exact .of_comment rfl (.of_line hinner (.close (by simp) rfl))
  | blockComment hinner =>
    exact .of_comment rfl (.of_block hinner (by simp) (.close_pair (by simp) rfl))

/-- A scan reads a lexeme that is cut short in its mode. -/
theorem IsCutLexeme.startsWith {mode : Mode} {taken : Text} (h : IsCutLexeme mode taken) :
    StartsWith mode taken [] := by
  cases h with
  | literal hmode hitems =>
    refine .of_literal hmode fun hopen => ?_
    have hread := ReadsThrough.of_items hopen hitems (.nil _)
    rwa [List.append_nil] at hread
  | escape hmode hitems =>
    refine .of_literal hmode fun hopen => .of_items hopen hitems ?_
    exact .cut hopen (by rw [Context.step_ofDelimiter, if_pos rfl])
  | lineComment hinner =>
    have hread := ReadsThrough.of_line hinner (.nil _)
    rw [List.append_nil] at hread
    exact .of_comment rfl hread
  | blockComment hinner =>
    have hread := ReadsThrough.of_block hinner (by simp) (.nil _)
    rw [List.append_nil] at hread
    exact .of_comment rfl hread

/-! ## Every text is divided -/

/-- A literal that has been opened is closed, or ends with the text between two items or inside an
escape. -/
theorem literal_cases (delimiter : Char) (t : Text) :
    (∃ items rest, t = items ++ delimiter :: rest ∧ LiteralItems delimiter items) ∨
      LiteralItems delimiter t ∨ ∃ items, t = items ++ ['\\'] ∧ LiteralItems delimiter items := by
  -- putting one item in front changes none of the three cases
  have extend (item : Text) {t : Text} (hitem : ∀ items, LiteralItems delimiter items →
        LiteralItems delimiter (item ++ items))
      (h : (∃ items rest, t = items ++ delimiter :: rest ∧ LiteralItems delimiter items) ∨
        LiteralItems delimiter t ∨ ∃ items, t = items ++ ['\\'] ∧ LiteralItems delimiter items) :
      (∃ items rest, item ++ t = items ++ delimiter :: rest ∧ LiteralItems delimiter items) ∨
        LiteralItems delimiter (item ++ t) ∨
          ∃ items, item ++ t = items ++ ['\\'] ∧ LiteralItems delimiter items := by
    rcases h with ⟨items, rest, rfl, hitems⟩ | hitems | ⟨items, rfl, hitems⟩
    · exact .inl ⟨item ++ items, rest, (List.append_assoc ..).symm, hitem items hitems⟩
    · exact .inr (.inl (hitem t hitems))
    · exact .inr (.inr ⟨item ++ items, (List.append_assoc ..).symm, hitem items hitems⟩)
  induction t using List.twoStepInduction with
  | nil => exact .inr (.inl .nil)
  | singleton c =>
    by_cases hc : c = '\\'
    · exact .inr (.inr ⟨[], by simp [hc], .nil⟩)
    by_cases hdelimiter : c = delimiter
    · exact .inl ⟨[], [], by simp [hdelimiter], .nil⟩
    · exact .inr (.inl (.plain hc hdelimiter .nil))
  | cons_cons c d rest ihrest ihtail =>
    by_cases hc : c = '\\'
    · subst hc
      exact extend ['\\', d] (fun items hitems => .escape d hitems) ihrest
    by_cases hdelimiter : c = delimiter
    · exact .inl ⟨[], d :: rest, by simp [hdelimiter], .nil⟩
    · exact extend [c] (fun items hitems => .plain hc hdelimiter hitems) (ihtail d)

/-- A block comment that has been opened is closed by the first pair that closes one, or never. -/
theorem block_cases (t : Text) :
    (∃ inner rest, t = inner ++ '*' :: '/' :: rest ∧ ¬ ['*', '/'] <:+: inner) ∨
      ¬ ['*', '/'] <:+: t := by
  induction t with
  | nil => exact .inr (by simp)
  | cons c rest ih =>
    by_cases hpair : ['*', '/'] <+: c :: rest
    · obtain ⟨tail, htail⟩ := hpair
      exact .inl ⟨[], tail, htail.symm, by simp⟩
    rcases ih with ⟨inner, tail, rfl, hinner⟩ | hnone
    · refine .inl ⟨c :: inner, tail, rfl, ?_⟩
      rw [List.infix_cons_iff, not_or]
      exact ⟨fun hfirst => hpair (hfirst.trans (List.prefix_append (c :: inner) _)), hinner⟩
    · refine .inr ?_
      rw [List.infix_cons_iff, not_or]
      exact ⟨hpair, hnone⟩

/-- A text that is not empty starts with a whole lexeme or is one that is cut short. -/
theorem exists_lexeme {t : Text} (h : t ≠ []) :
    (∃ mode taken rest, t = taken ++ rest ∧ IsLexeme mode taken rest) ∨ ∃ mode, IsCutLexeme mode t := by
  obtain ⟨c, rest, rfl⟩ := List.exists_cons_of_ne_nil h
  cases hmode : literalMode? c with
  | some mode =>
    rcases literal_cases c rest with ⟨items, tail, rfl, hitems⟩ | hitems | ⟨items, rfl, hitems⟩
    · exact .inl ⟨mode, c :: (items ++ [c]), tail, by simp, .literal hmode hitems⟩
    · exact .inr ⟨mode, .literal hmode hitems⟩
    · exact .inr ⟨mode, .escape hmode hitems⟩
  | none =>
    by_cases hcomment : c = '/' ∧ (rest.head? = some '/' ∨ rest.head? = some '*')
    · obtain ⟨rfl, hnext | hnext⟩ := hcomment
      · obtain ⟨inner, rfl⟩ := List.head?_eq_some_iff.mp hnext
        by_cases hbreak : '\n' ∈ inner
        · obtain ⟨line, tail, rfl, hline⟩ := List.eq_append_cons_of_mem hbreak
          exact .inl ⟨_, '/' :: '/' :: (line ++ ['\n']), tail, by simp, .lineComment hline⟩
        · exact .inr ⟨_, .lineComment hbreak⟩
      · obtain ⟨inner, rfl⟩ := List.head?_eq_some_iff.mp hnext
        rcases block_cases inner with ⟨block, tail, rfl, hblock⟩ | hblock
        · exact .inl ⟨_, '/' :: '*' :: (block ++ ['*', '/']), tail, by simp, .blockComment hblock⟩
        · exact .inr ⟨_, .blockComment hblock⟩
    · exact .inl ⟨.code, [c], rest, rfl, .code hmode hcomment⟩

/-- A lexeme is not empty. -/
theorem IsLexeme.ne_nil {mode : Mode} {taken rest : Text} (h : IsLexeme mode taken rest) :
    taken ≠ [] := by
  cases h <;> simp

/-- A lexeme that is cut short is not empty. -/
theorem IsCutLexeme.ne_nil {mode : Mode} {taken : Text} (h : IsCutLexeme mode taken) :
    taken ≠ [] := by
  cases h <;> simp

/-- Every text has a division. -/
theorem exists_division (t : Text) : ∃ pieces, Division t pieces := by
  induction hlength : t.length using Nat.strongRecOn generalizing t with
  | ind n ih =>
    by_cases ht : t = []
    · exact ⟨[], ht ▸ .nil⟩
    rcases exists_lexeme ht with ⟨mode, taken, rest, rfl, hlexeme⟩ | ⟨mode, hcut⟩
    · have hpos := List.length_pos_iff.mpr hlexeme.ne_nil
      rw [List.length_append] at hlength
      obtain ⟨pieces, hpieces⟩ := ih rest.length (by omega) rest rfl
      exact ⟨_, .cons hlexeme hpieces⟩
    · exact ⟨_, .cut hcut⟩

/-! ## A scan finds the division -/

/-- The cells of a piece. -/
def Piece.cells (piece : Piece) : List Cell := piece.text.map (⟨·, piece.mode⟩)

/-- The cells of a text are those of its lexemes. -/
theorem Division.cells {t : Text} {pieces : List Piece} (h : Division t pieces) :
    labelFrom .code t = pieces.flatMap Piece.cells := by
  induction h with
  | nil => simp
  | cut h =>
    have hcells := h.startsWith.1
    rw [List.append_nil, labelFrom_nil, List.append_nil] at hcells
    rw [hcells, List.flatMap_cons, List.flatMap_nil, List.append_nil]
    rfl
  | cons h hrest ih =>
    rw [h.startsWith.1, ih, List.flatMap_cons]
    rfl

/-- The first piece of a division is what a scan reads up to `afterLexeme`, and the others divide
the rest. -/
theorem Division.first {t : Text} {pieces : List Piece} (h : Division t pieces) (ht : t ≠ []) :
    ∃ piece later, pieces = piece :: later ∧ t = piece.text ++ afterLexeme t ∧
      (labelFrom .code t)[0]?.map Cell.mode = some piece.mode ∧ Division (afterLexeme t) later := by
  -- the mode of a first lexeme is that of its first character
  have hmode {mode : Mode} {taken rest : Text} (hstarts : StartsWith mode taken rest)
      (hne : taken ≠ []) : (labelFrom .code (taken ++ rest))[0]?.map Cell.mode = some mode := by
    obtain ⟨c, inner, rfl⟩ := List.exists_cons_of_ne_nil hne
    rw [hstarts.1]
    rfl
  cases h with
  | nil => exact absurd rfl ht
  | cut h =>
    have hrest := h.startsWith.2
    have hfirst := hmode h.startsWith h.ne_nil
    rw [List.append_nil] at hrest hfirst
    exact ⟨_, [], rfl, by rw [hrest, List.append_nil], hfirst, by rw [hrest]; exact .nil⟩
  | cons h hrest =>
    refine ⟨_, _, rfl, ?_, hmode h.startsWith h.ne_nil, ?_⟩
    · rw [h.startsWith.2]
    · rw [h.startsWith.2]
      exact hrest

/-- The empty text has no lexemes. -/
theorem Division.eq_nil {pieces : List Piece} (h : Division [] pieces) : pieces = [] := by
  generalize ht : ([] : Text) = t at h
  cases h with
  | nil => rfl
  | cut h => exact absurd ht.symm h.ne_nil
  | cons h hrest => exact absurd (List.append_eq_nil_iff.mp ht.symm).1 h.ne_nil

/-- A text has no two divisions. -/
theorem Division.unique {t : Text} {pieces pieces' : List Piece} (h : Division t pieces)
    (h' : Division t pieces') : pieces = pieces' := by
  induction pieces generalizing t pieces' with
  | nil =>
    cases h with
    | nil => exact h'.eq_nil.symm
  | cons piece later ih =>
    have ht : t ≠ [] := by
      rintro rfl
      exact absurd h.eq_nil (List.cons_ne_nil _ _)
    obtain ⟨first, rest, hpieces, htext, hmode, hrest⟩ := h.first ht
    obtain ⟨first', rest', rfl, htext', hmode', hrest'⟩ := h'.first ht
    obtain ⟨rfl, rfl⟩ := List.cons_eq_cons.mp hpieces
    -- both first pieces are what stands before the same rest, in the mode of the same character
    have hsame : piece = first' := by
      obtain ⟨mode, taken⟩ := piece
      obtain ⟨mode', taken'⟩ := first'
      obtain rfl : taken = taken' := List.append_cancel_right (htext.symm.trans htext')
      obtain rfl : mode = mode' := Option.some.inj (hmode.symm.trans hmode')
      rfl
    rw [hsame, ih hrest hrest']

/-! ## Brace depths as counts -/

/-- There is a depth before every cell and one at the end. -/
theorem length_depthsFrom (depth : Int) (cells : List Cell) :
    (depthsFrom depth cells).length = cells.length + 1 := by
  induction cells generalizing depth with
  | nil => rfl
  | cons cell rest ih => rw [depthsFrom, List.length_cons, ih, List.length_cons]

/-- Every text has exactly one division into lexemes. Its scan gives every offset the mode of the
lexeme that it belongs to; there is a brace depth for every offset and for the end, and it is the
number of opening braces in code before the offset less that of closing ones. -/
theorem scan_labels_lexemes (t : Text) :
    (∃! pieces, Division t pieces) ∧
    (∀ pieces, Division t pieces → (Scan.ofText t).modes =
      pieces.flatMap fun piece => List.replicate piece.text.length piece.mode) ∧
    (Scan.ofText t).depths.length = t.length + 1 ∧
    ∀ k ≤ t.length, (Scan.ofText t).depths[k]? =
      some ((Scan.ofText t).codeCount '{' k - (Scan.ofText t).codeCount '}' k : Int) := by
  refine ⟨?_, fun pieces hpieces => ?_, ?_, fun k hk => ?_⟩
  · obtain ⟨pieces, hpieces⟩ := exists_division t
    exact ⟨pieces, hpieces, fun other hother => hother.unique hpieces⟩
  · have hpiece (piece : Piece) :
        piece.cells.map Cell.mode = List.replicate piece.text.length piece.mode := by
      rw [Piece.cells, List.map_map, ← List.map_const']
      rfl
    rw [Scan.modes, Scan.ofText, hpieces.cells, List.map_flatMap]
    simp only [hpiece]
  · rw [Scan.ofText, length_depthsFrom, length_labelFrom]
  · have hlength : k ≤ (labelFrom .code t).length := by rwa [length_labelFrom]
    simp only [Scan.ofText, Scan.codeCount]
    rw [depthsFrom_getElem? 0 hlength, Int.zero_add, braceTotal_eq_surplus,
      surplus_eq_counts (by decide)]

/-- A brace, a string with an escaped quote, a comment, and a template that ends in a backslash. -/
theorem scan_labels_lexemes_mixed :
    let t : Text := "\x7b'\\''/**/\x60\\"
    Division t [⟨.code, "\x7b"⟩, ⟨.string, "'\\''"⟩, ⟨.blockComment, "/**/"⟩, ⟨.template, "\x60\\"⟩] ∧
      (Scan.ofText t).modes = .code :: (List.replicate 4 .string ++
        (List.replicate 4 .blockComment ++ List.replicate 2 .template)) ∧
      (Scan.ofText t).depths[11]? = some 1 := by
  intro t
  have hdivision : Division t
      [⟨.code, "\x7b"⟩, ⟨.string, "'\\''"⟩, ⟨.blockComment, "/**/"⟩, ⟨.template, "\x60\\"⟩] := by
    have hcode : IsLexeme .code ['{'] ("'\\''/**/\x60\\" : Text) := .code (by decide) (by decide)
    have hstring : IsLexeme .string ('\x27' :: (['\\', '\x27'] ++ ['\x27'])) ("/**/\x60\\" : Text) :=
      .literal (by decide) (.escape _ .nil)
    have hcomment : IsLexeme .blockComment ('/' :: '*' :: ([] ++ ['*', '/'])) ("\x60\\" : Text) :=
      .blockComment (by simp)
    have htemplate : IsCutLexeme .template ('\x60' :: ([] ++ ['\\'])) := .escape (by decide) .nil
    exact .cons hcode (.cons hstring (.cons hcomment (.cut htemplate)))
  have hlabels := scan_labels_lexemes t
  exact ⟨hdivision, hlabels.2.1 _ hdivision, hlabels.2.2.2 11 (by decide)⟩

end SetupScript
