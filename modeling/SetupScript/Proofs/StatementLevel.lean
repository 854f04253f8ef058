import SetupScript.Proofs.WrittenNames

/-!
# Where collected names are declared

Names are collected from plain declarations and from functions that start a statement, as long as
these stand in code and outside all braces. Parentheses and square brackets are not asked for. So a
name is declared at statement level unless one of them is open before its declaration, as in the
header of a loop or among the arguments of a call.
-/

namespace SetupScript

namespace Scan

variable {scan : Scan} {opener closer : Char} {p : Nat}

/-- Up to the offset no closing delimiter in code comes without an opening one before it. -/
def NoneStray (scan : Scan) (opener closer : Char) (p : Nat) : Prop :=
  ∀ k ≤ p, scan.codeCount closer k ≤ scan.codeCount opener k

instance (scan : Scan) (opener closer : Char) (p : Nat) :
    Decidable (scan.NoneStray opener closer p) :=
  inferInstanceAs (Decidable (∀ k ≤ p, _))

/-- Some delimiter in code before the offset opens a region that has not been closed there. -/
def OpenAt (scan : Scan) (opener closer : Char) (p : Nat) : Prop :=
  ∃ start < p, scan.cells[start]?.any (·.isDelimiter [opener]) ∧
    ∀ stop < p, ¬ scan.IsRegion [opener] [closer] start stop

/-- Delimiters without a partner: closing ones that close nothing, and opening ones that nothing
closes. -/
structure Unmatched where
  stray : Nat := 0
  unclosed : Nat := 0
  deriving DecidableEq

/-- What one more cell makes of the delimiters without a partner. -/
def Unmatched.next (opener closer : Char) (known : Unmatched) (cell : Cell) : Unmatched :=
  if cell.isDelimiter [opener] then { known with unclosed := known.unclosed + 1 }
  else if cell.isDelimiter [closer] then
    if known.unclosed = 0 then { known with stray := known.stray + 1 }
    else { known with unclosed := known.unclosed - 1 }
  else known

/-- The delimiters in code before the offset that have no partner there. -/
def unmatched (scan : Scan) (opener closer : Char) (p : Nat) : Unmatched :=
  (scan.cells.take p).foldl (Unmatched.next opener closer) {}

/-- What a cell adds to the surplus is what it adds to the unclosed delimiters, or takes from the stray
ones. -/
theorem Unmatched.next_cases (opener closer : Char) (known : Unmatched) (cell : Cell) :
    (cell.delimiterStep [opener] [closer] = 1 ∧
      known.next opener closer cell = ⟨known.stray, known.unclosed + 1⟩) ∨
    (cell.delimiterStep [opener] [closer] = -1 ∧ known.unclosed = 0 ∧
      known.next opener closer cell = ⟨known.stray + 1, 0⟩) ∨
    (cell.delimiterStep [opener] [closer] = -1 ∧ 0 < known.unclosed ∧
      known.next opener closer cell = ⟨known.stray, known.unclosed - 1⟩) ∨
    (cell.delimiterStep [opener] [closer] = 0 ∧ known.next opener closer cell = known) := by
  obtain ⟨stray, unclosed⟩ := known
  simp only [Cell.delimiterStep, Unmatched.next]
  grind

/-- The surplus of opening delimiters is what is unclosed less what is stray, and what is stray is how
far the surplus has fallen at its lowest. -/
theorem unmatched_spec (scan : Scan) (opener closer : Char) (hp : p ≤ scan.cells.length) :
    surplus [opener] [closer] (scan.cells.take p) =
        ((scan.unmatched opener closer p).unclosed : Int) - (scan.unmatched opener closer p).stray ∧
      (∀ k ≤ p, -((scan.unmatched opener closer p).stray : Int) ≤
        surplus [opener] [closer] (scan.cells.take k)) ∧
      ∃ k ≤ p, surplus [opener] [closer] (scan.cells.take k) =
        -((scan.unmatched opener closer p).stray : Int) := by
  induction p with
  | zero => exact ⟨by simp [unmatched], by simp [unmatched], 0, by simp [unmatched]⟩
  | succ p ih =>
    obtain ⟨hsurplus, hlowest, low, hlow, hreached⟩ := ih (by omega)
    have hcell : scan.cells[p]? = some scan.cells[p] := List.getElem?_eq_getElem (by omega)
    have hnext : scan.unmatched opener closer (p + 1) =
        (scan.unmatched opener closer p).next opener closer scan.cells[p] := by
      rw [unmatched, List.take_add_one, hcell, List.foldl_append]
      rfl
    have hstep := surplus_take_succ [opener] [closer] hcell
    have hsplit {bound : Int} (hearlier : ∀ k ≤ p, bound ≤ surplus [opener] [closer] (scan.cells.take k))
        (hlast : bound ≤ surplus [opener] [closer] (scan.cells.take (p + 1))) :
        ∀ k ≤ p + 1, bound ≤ surplus [opener] [closer] (scan.cells.take k) := by
      intro k hk
      rcases Nat.eq_or_lt_of_le hk with rfl | hlt
      · exact hlast
      · exact hearlier k (Nat.le_of_lt_succ hlt)
    rw [hnext]
    rcases Unmatched.next_cases opener closer (scan.unmatched opener closer p) scan.cells[p] with
      ⟨hdelta, heq⟩ | ⟨hdelta, hnone, heq⟩ | ⟨hdelta, hsome, heq⟩ | ⟨hdelta, heq⟩ <;> simp only [heq]
    · exact ⟨by omega, hsplit hlowest (by omega), low, Nat.le_succ_of_le hlow, hreached⟩
    · -- a stray delimiter takes the surplus to a new low
      refine ⟨by omega, hsplit (fun k hk => ?_) (by omega), p + 1, Nat.le_refl _, by omega⟩
      have hearlier := hlowest k hk
      omega
    · exact ⟨by omega, hsplit hlowest (by omega), low, Nat.le_succ_of_le hlow, hreached⟩
    · exact ⟨by omega, hsplit hlowest (by omega), low, Nat.le_succ_of_le hlow, hreached⟩

/-- Where the surplus of opening delimiters has risen above a bound, the last of them that was opened
at or below the bound is open. -/
theorem exists_opener {cells : List Cell} {bound : Int} (hp : p ≤ cells.length)
    (hlow : ∃ k ≤ p, surplus [opener] [closer] (cells.take k) ≤ bound)
    (h : bound < surplus [opener] [closer] (cells.take p)) :
    ∃ start < p, cells[start]?.any (·.isDelimiter [opener]) ∧
      surplus [opener] [closer] (cells.take start) ≤ bound ∧
      ∀ k, start < k → k ≤ p → bound < surplus [opener] [closer] (cells.take k) := by
  obtain ⟨low, hle, hlow⟩ := hlow
  induction p with
  | zero =>
    obtain rfl : low = 0 := by omega
    omega
  | succ p ih =>
    rcases Int.lt_or_le bound (surplus [opener] [closer] (cells.take p)) with hbefore | hnone
    · have hearlier : low ≤ p := by
        by_contra hlast
        obtain rfl : low = p + 1 := by omega
        omega
      obtain ⟨start, hstart, hopens, hzero, hopen⟩ := ih (by omega) hbefore hearlier
      refine ⟨start, by omega, hopens, hzero, fun k hk hle => ?_⟩
      rcases Nat.eq_or_lt_of_le hle with rfl | hearlier
      · exact h
      · exact hopen k hk (by omega)
    · -- the surplus has risen by the last cell
      have hcell : cells[p]? = some cells[p] := List.getElem?_eq_getElem (by omega)
      have hopens : cells[p].isDelimiter [opener] := by
        have hstep := surplus_take_succ [opener] [closer] hcell
        simp only [Cell.delimiterStep] at hstep
        grind
      refine ⟨p, Nat.lt_succ_self p, by simp [hcell, hopens], hnone, fun k hk hle => ?_⟩
      obtain rfl : k = p + 1 := by omega
      exact h

/-- A delimiter is open just when some opening one is unclosed. -/
theorem openAt_iff (hp : p ≤ scan.cells.length) :
    scan.OpenAt opener closer p ↔ 0 < (scan.unmatched opener closer p).unclosed := by
  obtain ⟨hsurplus, hlowest, low, hlow, hreached⟩ := scan.unmatched_spec opener closer hp
  constructor
  · rintro ⟨start, hlt, hopens, hnever⟩
    rcases region_or_open [closer] hopens hlt hp with ⟨stop, hstop, hregion⟩ | hopen
    · exact absurd hregion (hnever stop hstop)
    · have hlarger := hopen p hlt (Nat.le_refl p)
      have hbefore := hlowest start (Nat.le_of_lt hlt)
      omega
  · intro hunclosed
    obtain ⟨start, hlt, hopens, hzero, hopen⟩ := exists_opener hp ⟨low, hlow, Int.le_of_eq hreached⟩
      (by omega)
    refine ⟨start, hlt, hopens, fun stop hstop hregion => ?_⟩
    have hbalanced := hregion.balanced
    have hordered := hregion.ordered
    rw [surplus_stretch, show start + (stop - start + 1) = stop + 1 by omega] at hbalanced
    have := hopen (stop + 1) (by omega) (by omega)
    omega

/-- Nothing stray was closed just when no closing delimiter is without a partner. -/
theorem noneStray_iff (hne : opener ≠ closer) (hp : p ≤ scan.cells.length) :
    scan.NoneStray opener closer p ↔ (scan.unmatched opener closer p).stray = 0 := by
  obtain ⟨-, hlowest, low, hlow, hreached⟩ := scan.unmatched_spec opener closer hp
  have hcounts (k : Nat) : surplus [opener] [closer] (scan.cells.take k) =
      (scan.codeCount opener k : Int) - scan.codeCount closer k := surplus_eq_counts hne _
  constructor
  · intro hstray
    have hle := hstray low hlow
    rw [hcounts] at hreached
    omega
  · intro hnone k hk
    have hle := hlowest k hk
    rw [hcounts] at hle
    omega

/-- As many delimiters were opened as closed just when as many are unclosed as are stray. -/
theorem codeCount_eq_iff_unmatched (hne : opener ≠ closer) (hp : p ≤ scan.cells.length) :
    scan.codeCount opener p = scan.codeCount closer p ↔
      (scan.unmatched opener closer p).unclosed = (scan.unmatched opener closer p).stray := by
  have hsurplus := (scan.unmatched_spec opener closer hp).1
  have hcounts : surplus [opener] [closer] (scan.cells.take p) =
      (scan.codeCount opener p : Int) - scan.codeCount closer p := surplus_eq_counts hne _
  omega

/-- Where nothing stray was closed, as many delimiters were opened as closed just when none is open. -/
theorem codeCount_eq_iff_not_openAt (hne : opener ≠ closer) (hp : p ≤ scan.cells.length)
    (hstray : scan.NoneStray opener closer p) :
    scan.codeCount opener p = scan.codeCount closer p ↔ ¬ scan.OpenAt opener closer p := by
  rw [codeCount_eq_iff_unmatched hne hp, (noneStray_iff hne hp).mp hstray, openAt_iff hp, Nat.not_lt,
    Nat.le_zero]

/-- An offset is at statement level just when it is code and equally many braces were opened and
closed before it. -/
theorem isTopLevel_ofText {t : Text} :
    (ofText t).isTopLevel p ↔ (ofText t).isCode p ∧
      (ofText t).codeCount '{' p = (ofText t).codeCount '}' p := by
  rw [isTopLevel, Bool.and_eq_true]
  refine and_congr_right fun hcode => ?_
  obtain ⟨c, hcell⟩ := cell_of_isCode hcode
  obtain ⟨hlt, -⟩ := List.getElem?_eq_some_iff.mp hcell
  have hp : p ≤ t.length := by
    rw [length_labelFrom] at hlt
    exact Nat.le_of_lt hlt
  rw [beq_iff_eq, depthAt_ofText hp, braceTotal_eq_surplus, surplus_eq_counts (by decide), codeCount, codeCount]
  omega

end Scan

namespace Bindings

/-- A plain declaration of the name starts at the offset, or a function of that name that starts a
statement. -/
def DeclaredAt (scan : Scan) (p : Nat) (name : Text) : Prop :=
  (∃ found ∈ Text.findAll Text.outsideMember Reader.nameDeclaration scan.text,
    found.start = p ∧ found.value = name) ∨
  (∃ found ∈ Text.findAll Text.outsideMember Reader.functionDeclaration scan.text,
    found.start = p ∧ found.value = name) ∧ startsStatement scan.text p

instance (scan : Scan) (p : Nat) (name : Text) : Decidable (DeclaredAt scan p name) :=
  inferInstanceAs (Decidable (_ ∨ _ ∧ _))

/-- The name is none of the parameters of the setup function. -/
def IsOwn (settings : Settings) (name : Text) : Prop :=
  name ≠ settings.propsParam ∧ name ≠ settings.emitParam

/-- The plain declarations and functions that names are collected from stand at statement level, as
far as braces go. -/
theorem mem_declared {scan : Scan} {name : Text} :
    name ∈ plainNames scan ∨ name ∈ functionNames scan ↔
      ∃ p, scan.isTopLevel p ∧ DeclaredAt scan p name := by
  simp only [plainNames, functionNames, List.mem_map, List.mem_filter, Bool.and_eq_true, DeclaredAt]
  constructor
  · rintro (⟨found, ⟨hfound, htop⟩, rfl⟩ | ⟨found, ⟨hfound, htop, hstarts⟩, rfl⟩)
    · exact ⟨found.start, htop, .inl ⟨found, hfound, rfl, rfl⟩⟩
    · exact ⟨found.start, htop, .inr ⟨⟨found, hfound, rfl, rfl⟩, hstarts⟩⟩
  · rintro ⟨_, htop, ⟨found, hfound, rfl, rfl⟩ | ⟨⟨found, hfound, rfl, rfl⟩, hstarts⟩⟩
    · exact .inl ⟨found, ⟨hfound, htop⟩, rfl⟩
    · exact .inr ⟨found, ⟨hfound, htop, hstarts⟩, rfl⟩

/-- The names that are collected: those of declarations at statement level and those of patterns. -/
theorem mem_collect {settings : Settings} {edited name : Text} :
    name ∈ (collect settings edited).1 ↔ IsOwn settings name ∧
      ((∃ p, (Scan.ofText (Scan.ofText edited).withoutComments).isTopLevel p ∧
        DeclaredAt (Scan.ofText (Scan.ofText edited).withoutComments) p name) ∨
      ∃ opener ∈ ['{', '['], name ∈
        (patternNames settings (Scan.ofText (Scan.ofText edited).withoutComments) opener).1) := by
  simp only [collect, mem_addNames, List.mem_filter, List.mem_append, ← mem_declared, IsOwn,
    List.mem_cons, List.not_mem_nil, or_false, false_or, exists_eq_or_imp, exists_eq_left,
    Bool.and_eq_true, bne_iff_ne]
  tauto

end Bindings

/-- Apart from those of patterns, the names that are collected from a script are those of plain
declarations and functions in code with equally many braces opened and closed before them. One of
them has equally many parentheses opened and closed before it too just when as many of them are
unclosed there as are stray, and in the same way for square brackets. Where nothing stray was closed,
it is at statement level by these counts just when neither a parenthesis nor a bracket is open. -/
theorem collected_at_statement_level_iff (settings : Settings) (text : Text) :
    let scan := Scan.ofText (Scan.ofText text).withoutComments
    (∀ name, name ∈ (Bindings.collect settings text).1 ↔ Bindings.IsOwn settings name ∧
      ((∃ p, scan.isTopLevel p ∧ Bindings.DeclaredAt scan p name) ∨
        ∃ opener ∈ ['{', '['], name ∈ (Bindings.patternNames settings scan opener).1)) ∧
    ∀ p name, scan.isTopLevel p → Bindings.DeclaredAt scan p name →
      scan.isCode p ∧ scan.codeCount '{' p = scan.codeCount '}' p ∧
      (∀ pair ∈ [('(', ')'), ('[', ']')],
        (scan.OpenAt pair.1 pair.2 p ↔ 0 < (scan.unmatched pair.1 pair.2 p).unclosed) ∧
        (scan.NoneStray pair.1 pair.2 p ↔ (scan.unmatched pair.1 pair.2 p).stray = 0) ∧
        (scan.codeCount pair.1 p = scan.codeCount pair.2 p ↔
          (scan.unmatched pair.1 pair.2 p).unclosed = (scan.unmatched pair.1 pair.2 p).stray)) ∧
      (scan.NoneStray '(' ')' p → scan.NoneStray '[' ']' p →
        (scan.codeCount '(' p = scan.codeCount ')' p ∧ scan.codeCount '[' p = scan.codeCount ']' p ↔
          ¬ scan.OpenAt '(' ')' p ∧ ¬ scan.OpenAt '[' ']' p)) := by
  intro scan
  refine ⟨fun name => Bindings.mem_collect, fun p name htop _ => ?_⟩
  obtain ⟨hcode, hbraces⟩ := Scan.isTopLevel_ofText.mp htop
  obtain ⟨c, hcell⟩ := Scan.cell_of_isCode hcode
  have hp : p ≤ scan.cells.length := Nat.le_of_lt (List.getElem?_eq_some_iff.mp hcell).1
  refine ⟨hcode, hbraces, fun pair hpair => ?_, fun hparens hbrackets => ?_⟩
  · have hne : pair.1 ≠ pair.2 := by
      simp only [List.mem_cons, List.not_mem_nil, or_false] at hpair
      rcases hpair with rfl | rfl <;> decide
    exact ⟨Scan.openAt_iff hp, Scan.noneStray_iff hne hp, Scan.codeCount_eq_iff_unmatched hne hp⟩
  · exact and_congr (Scan.codeCount_eq_iff_not_openAt (by decide) hp hparens)
      (Scan.codeCount_eq_iff_not_openAt (by decide) hp hbrackets)

/-- A function after a closed call is collected, and nothing is open before it. After a stray
parenthesis the counts are even at a loop's variable, though the loop's own parenthesis is open. -/
theorem collected_at_statement_level_after_call :
    (let scan := Scan.ofText (Scan.ofText "const a = f([1])\nfunction g() \x7b\x7d").withoutComments
    scan.isTopLevel 17 ∧ Bindings.DeclaredAt scan 17 "g" ∧
      scan.NoneStray '(' ')' 17 ∧ scan.NoneStray '[' ']' 17 ∧
      ¬ scan.OpenAt '(' ')' 17 ∧ ¬ scan.OpenAt '[' ']' 17) ∧
    let scan := Scan.ofText (Scan.ofText ") for (let i = 0;;) \x7b\x7d").withoutComments
    scan.isTopLevel 7 ∧ Bindings.DeclaredAt scan 7 "i" ∧ scan.unmatched '(' ')' 7 = ⟨1, 1⟩ ∧
      scan.OpenAt '(' ')' 7 ∧ scan.codeCount '(' 7 = scan.codeCount ')' 7 := by
  refine ⟨?_, ?_⟩
  · intro scan
    have htop : scan.isTopLevel 17 := by decide
    have hdeclared : Bindings.DeclaredAt scan 17 "g" := by decide
    have hparens : scan.NoneStray '(' ')' 17 := by decide
    have hbrackets : scan.NoneStray '[' ']' 17 := by decide
    have hlevel := ((collected_at_statement_level_iff {}
      "const a = f([1])\nfunction g() \x7b\x7d").2 17 "g" htop hdeclared).2.2.2 hparens hbrackets
    exact ⟨htop, hdeclared, hparens, hbrackets, hlevel.mp (by decide)⟩
  · intro scan
    have htop : scan.isTopLevel 7 := by decide
    have hdeclared : Bindings.DeclaredAt scan 7 "i" := by decide
    have hunmatched : scan.unmatched '(' ')' 7 = ⟨1, 1⟩ := by decide
    obtain ⟨hopen, -, heven⟩ := ((collected_at_statement_level_iff {}
      ") for (let i = 0;;) \x7b\x7d").2 7 "i" htop hdeclared).2.2.1 ('(', ')') (by simp)
    exact ⟨htop, hdeclared, hunmatched, hopen.mpr (by decide), heven.mpr (by decide)⟩

/-- The variable of a loop and a function passed to a call are collected from inside parentheses. -/
theorem collected_inside_parentheses :
    let text : Text := "for (let i = 0; i < 2; i++) run(\nfunction inner() \x7b\x7d\n)"
    let scan := Scan.ofText (Scan.ofText text).withoutComments
    (Bindings.collect {} text).1 = ["i", "inner"] ∧
      (Bindings.DeclaredAt scan 5 "i" ∧ scan.codeCount '(' 5 ≠ scan.codeCount ')' 5) ∧
      Bindings.DeclaredAt scan 33 "inner" ∧ scan.codeCount '(' 33 ≠ scan.codeCount ')' 33 := by
  decide +kernel

end SetupScript
