import SetupScript.Import
import SetupScript.Proofs.SearchMatches

/-!
# The forms of import statements

What the three readers of import statements take, written out. Each takes a text that begins with
`import` and ends with the closing quote of a path, so what follows the statement does not matter.

A default import holds exactly two quotes. This is what keeps it from reaching over another import.
-/

namespace SetupScript

/-- How many quotes a text holds. -/
def quoteCount (t : Text) : Nat := t.countP isPathQuote

/-- Quotes are counted part by part. -/
@[simp] theorem quoteCount_append (a b : Text) : quoteCount (a ++ b) = quoteCount a + quoteCount b :=
  List.countP_append

/-- Quotes are counted character by character. -/
theorem quoteCount_cons (c : Char) (t : Text) :
    quoteCount (c :: t) = quoteCount t + if isPathQuote c then 1 else 0 :=
  List.countP_cons

/-- A text of a class without quotes holds none. -/
theorem quoteCount_eq_zero {p : Char → Bool} (hp : ∀ c, p c → isPathQuote c = false) {t : Text}
    (h : t.all p) : quoteCount t = 0 := by
  refine List.countP_eq_zero.mpr fun c hc => ?_
  rw [hp c (List.all_eq_true.mp h c hc)]
  exact Bool.false_ne_true

/-- A quote is one of two characters. -/
theorem isPathQuote_cases {c : Char} (h : isPathQuote c) : c = '\x27' ∨ c = '\x22' := by
  simpa [isPathQuote] using h

/-- A blank is no quote. -/
theorem isPathQuote_of_isBlank (c : Char) (h : Text.isBlank c) : isPathQuote c = false := by
  by_contra hquote
  rcases isPathQuote_cases (by simpa using hquote) with rfl | rfl
  · exact absurd h (by decide)
  · exact absurd h (by decide)

/-- A name character is no quote. -/
theorem isPathQuote_of_isNameChar (c : Char) (h : Text.isNameChar c) : isPathQuote c = false := by
  by_contra hquote
  rcases isPathQuote_cases (by simpa using hquote) with rfl | rfl
  · exact absurd h (by decide)
  · exact absurd h (by decide)

namespace Reader

variable {t left : Text}

/-- A non-empty run of blanks with something else after it. -/
def IsGap (gap next : Text) : Prop := gap.all Text.isBlank ∧ gap ≠ [] ∧ !next.head?.any Text.isBlank

/-- The word `import` and the gap after it. -/
theorem importWord_eq_some {u : Unit} :
    importWord t = some (u, left) ↔ ∃ gap, t = ("import" : Text) ++ (gap ++ left) ∧ IsGap gap left := by
  simp only [importWord, bind_eq_some, literal_eq_some, blanks1_eq_some, many1_eq_some, IsGap]
  constructor
  · rintro ⟨_, middle, rfl, gap, rfl, hall, hne, hhead⟩
    exact ⟨gap, rfl, hall, hne, hhead⟩
  · rintro ⟨gap, rfl, hall, hne, hhead⟩
    exact ⟨(), gap ++ left, rfl, gap, rfl, hall, hne, hhead⟩

/-- The word `from` with a gap on both sides. -/
theorem fromWord_eq_some {u : Unit} :
    fromWord t = some (u, left) ↔
      ∃ gap gap', t = gap ++ (("from" : Text) ++ (gap' ++ left)) ∧
        IsGap gap ("from" : Text) ∧ IsGap gap' left := by
  simp only [fromWord, bind_eq_some, literal_eq_some, blanks1_eq_some, many1_eq_some, IsGap]
  constructor
  · rintro ⟨_, middle, ⟨gap, rfl, hall, hne, hhead⟩, _, middle', rfl, gap', rfl, hall', hne', hhead'⟩
    exact ⟨gap, gap', rfl, ⟨hall, hne, rfl⟩, hall', hne', hhead'⟩
  · rintro ⟨gap, gap', rfl, ⟨hall, hne, hhead⟩, hall', hne', hhead'⟩
    exact ⟨(), _, ⟨gap, rfl, hall, hne, hhead⟩, (), gap' ++ left, rfl, gap', rfl, hall', hne', hhead'⟩

/-- A path between two quotes, which need not be alike. -/
theorem quotedPath_eq_some {path : Text} :
    quotedPath t = some (path, left) ↔
      ∃ q q', t = q :: (path ++ q' :: left) ∧ isPathQuote q ∧ isPathQuote q' ∧
        path.all (!isPathQuote ·) ∧ path ≠ [] := by
  simp only [quotedPath, bind_eq_some, char_eq_some, many1_eq_some, pure_eq_some]
  constructor
  · rintro ⟨q, middle, ⟨rfl, hq⟩, path', middle', ⟨rfl, hall, hne, -⟩, q', left', ⟨rfl, hq'⟩, rfl, rfl⟩
    exact ⟨q, q', rfl, hq, hq', hall, hne⟩
  · rintro ⟨q, q', rfl, hq, hq', hall, hne⟩
    refine ⟨q, _, ⟨rfl, hq⟩, path, q' :: left, ⟨rfl, hall, hne, ?_⟩, q', left, ⟨rfl, hq'⟩, rfl, rfl⟩
    simp [hq']

/-- The text of `import { names } from 'path'`. -/
def NamedForm (names path taken : Text) : Prop :=
  ∃ g₁ g₂ g₃ q q', taken = ("import" : Text) ++ (g₁ ++ ('{' :: (names ++ ('}' :: (g₂ ++
      (("from" : Text) ++ (g₃ ++ (q :: (path ++ [q']))))))))) ∧
    (g₁.all Text.isBlank ∧ g₁ ≠ []) ∧ (names.all (· != '}') ∧ names ≠ []) ∧
    (g₂.all Text.isBlank ∧ g₂ ≠ []) ∧ IsGap g₃ [q] ∧
    isPathQuote q ∧ isPathQuote q' ∧ path.all (!isPathQuote ·) ∧ path ≠ []

/-- A named import takes a text of its form, whatever follows. -/
theorem namedImport_eq_some {names path : Text} :
    namedImport t = some ((names, path), left) ↔
      ∃ taken, t = taken ++ left ∧ NamedForm names path taken := by
  simp only [namedImport, bind_eq_some, importWord_eq_some, literal_eq_some, many1_eq_some,
    fromWord_eq_some, quotedPath_eq_some, pure_eq_some, Prod.mk.injEq, NamedForm]
  constructor
  · rintro ⟨_, _, ⟨g₁, rfl, h1, h1', -⟩, _, _, rfl, names', _, ⟨rfl, hn, hn', -⟩, _, _, rfl, _, _,
      ⟨g₂, g₃, rfl, ⟨h2, h2', -⟩, h3⟩, path', _, ⟨q, q', rfl, hq, hq', hp, hp'⟩, ⟨rfl, rfl⟩, rfl⟩
    exact ⟨_, by simp, g₁, g₂, g₃, q, q', rfl, ⟨h1, h1'⟩, ⟨hn, hn'⟩, ⟨h2, h2'⟩, h3, hq, hq', hp, hp'⟩
  · rintro ⟨_, rfl, g₁, g₂, g₃, q, q', rfl, ⟨h1, h1'⟩, ⟨hn, hn'⟩, ⟨h2, h2'⟩, h3, hq, hq', hp, hp'⟩
    simp only [List.append_assoc, List.cons_append, List.nil_append]
    exact ⟨(), _, ⟨g₁, rfl, h1, h1', rfl⟩, (), _, rfl, names, _, ⟨rfl, hn, hn', rfl⟩, (), _, rfl,
      (), _, ⟨g₂, g₃, rfl, ⟨h2, h2', rfl⟩, h3⟩, path, left, ⟨q, q', rfl, hq, hq', hp, hp'⟩,
      ⟨rfl, rfl⟩, rfl⟩

/-- A named import holds the two quotes of its path, and maybe more between its braces. -/
theorem NamedForm.quotes {names path taken : Text} (h : NamedForm names path taken) :
    2 ≤ quoteCount taken := by
  obtain ⟨g₁, g₂, g₃, q, q', rfl, -, -, -, -, hq, hq', -⟩ := h
  simp only [quoteCount_append, quoteCount_cons, hq, hq', if_true]
  omega

/-- A named import takes a text with two quotes or more. -/
theorem namedImport_quotes {value : Text × Text} (h : namedImport t = some (value, left)) :
    ∃ taken, t = taken ++ left ∧ 2 ≤ quoteCount taken := by
  obtain ⟨taken, htext, hform⟩ := namedImport_eq_some.mp h
  exact ⟨taken, htext, hform.quotes⟩

/-- The text of `import name from 'path'`. -/
def DefaultForm (name path taken : Text) : Prop :=
  ∃ g₁ g₂ g₃ q q', taken = ("import" : Text) ++ (g₁ ++ (name ++ (g₂ ++
      (("from" : Text) ++ (g₃ ++ (q :: (path ++ [q']))))))) ∧
    IsGap g₁ name ∧ (name.all Text.isNameChar ∧ name ≠ [] ∧ !g₂.head?.any Text.isNameChar) ∧
    (g₂.all Text.isBlank ∧ g₂ ≠ []) ∧ IsGap g₃ [q] ∧
    isPathQuote q ∧ isPathQuote q' ∧ path.all (!isPathQuote ·) ∧ path ≠ []

/-- The first character of a text that is not empty does not depend on what is put behind it. -/
theorem head?_append_of_ne_nil {a : Text} (h : a ≠ []) (b : Text) : (a ++ b).head? = a.head? := by
  cases a with
  | nil => exact absurd rfl h
  | cons c rest => rfl

/-- A default import takes a text of its form, whatever follows. -/
theorem defaultImport_eq_some {name path : Text} :
    defaultImport t = some ((name, path), left) ↔
      ∃ taken, t = taken ++ left ∧ DefaultForm name path taken := by
  simp only [defaultImport, bind_eq_some, importWord_eq_some, many1_eq_some,
    fromWord_eq_some, quotedPath_eq_some, pure_eq_some, Prod.mk.injEq, DefaultForm]
  constructor
  · rintro ⟨_, _, ⟨g₁, rfl, h1, h1', h1''⟩, name', _, ⟨rfl, hn, hn', hn''⟩, _, _,
      ⟨g₂, g₃, rfl, ⟨h2, h2', -⟩, h3⟩, path', _, ⟨q, q', rfl, hq, hq', hp, hp'⟩, ⟨rfl, rfl⟩, rfl⟩
    rw [head?_append_of_ne_nil hn'] at h1''
    rw [head?_append_of_ne_nil h2'] at hn''
    exact ⟨_, by simp, g₁, g₂, g₃, q, q', rfl, ⟨h1, h1', h1''⟩, ⟨hn, hn', hn''⟩, ⟨h2, h2'⟩, h3, hq, hq',
      hp, hp'⟩
  · rintro ⟨_, rfl, g₁, g₂, g₃, q, q', rfl, ⟨h1, h1', h1''⟩, ⟨hn, hn', hn''⟩, ⟨h2, h2'⟩, h3, hq, hq',
      hp, hp'⟩
    rw [← head?_append_of_ne_nil hn'] at h1''
    rw [← head?_append_of_ne_nil h2'] at hn''
    simp only [List.append_assoc, List.cons_append, List.nil_append]
    exact ⟨(), _, ⟨g₁, rfl, h1, h1', h1''⟩, name, _, ⟨rfl, hn, hn', hn''⟩,
      (), _, ⟨g₂, g₃, rfl, ⟨h2, h2', rfl⟩, h3⟩, path, left, ⟨q, q', rfl, hq, hq', hp, hp'⟩,
      ⟨rfl, rfl⟩, rfl⟩

/-- A default import holds the two quotes of its path and no more, and ends with one of them. -/
theorem DefaultForm.quotes {name path taken : Text} (h : DefaultForm name path taken) :
    quoteCount taken = 2 ∧ quoteCount taken.dropLast = 1 := by
  obtain ⟨g₁, g₂, g₃, q, q', rfl, h1, hname, h2, h3, hq, hq', hpath, -⟩ := h
  have hlast : ("import" : Text) ++ (g₁ ++ (name ++ (g₂ ++
      (("from" : Text) ++ (g₃ ++ (q :: (path ++ [q']))))))) =
      ("import" : Text) ++ (g₁ ++ (name ++ (g₂ ++ (("from" : Text) ++ (g₃ ++ (q :: path)))))) ++
        [q'] := by
    simp only [List.append_assoc, List.cons_append]
  rw [hlast, List.dropLast_concat]
  simp only [quoteCount_append, quoteCount_cons, hq, hq', if_true,
    quoteCount_eq_zero isPathQuote_of_isBlank h1.1, quoteCount_eq_zero isPathQuote_of_isBlank h2.1,
    quoteCount_eq_zero isPathQuote_of_isBlank h3.1,
    quoteCount_eq_zero isPathQuote_of_isNameChar hname.1,
    quoteCount_eq_zero (p := (!isPathQuote ·)) (by simp) hpath]
  exact ⟨rfl, rfl⟩

/-- A default import takes a text with two quotes or more. -/
theorem defaultImport_quotes {value : Text × Text} (h : defaultImport t = some (value, left)) :
    ∃ taken, t = taken ++ left ∧ 2 ≤ quoteCount taken := by
  obtain ⟨taken, htext, hform⟩ := defaultImport_eq_some.mp h
  exact ⟨taken, htext, Nat.le_of_eq hform.quotes.1.symm⟩

/-! ## Paths with an ending -/

/-- A path found by its ending has characters before the ending and a quote after it. -/
theorem pathEndingWithin_eq_some {ending path rest : Text} {n : Nat}
    (h : pathEndingWithin ending t n = some (path, rest)) :
    ∃ l q, 0 < l ∧ l ≤ n ∧ t.drop l = ending ++ q :: rest ∧ isPathQuote q ∧
      path = t.take l ++ ending := by
  induction n with
  | zero => simp [pathEndingWithin] at h
  | succ n ih =>
    have shorter (h : pathEndingWithin ending t n = some (path, rest)) :
        ∃ l q, 0 < l ∧ l ≤ n + 1 ∧ t.drop l = ending ++ q :: rest ∧ isPathQuote q ∧
          path = t.take l ++ ending := by
      obtain ⟨l, q, hpos, hle, hfound⟩ := ih h
      exact ⟨l, q, hpos, by omega, hfound⟩
    simp only [pathEndingWithin] at h
    split at h
    · next q rest' hending =>
      split at h
      · next hq =>
        simp only [Option.some.injEq, Prod.mk.injEq] at h
        obtain ⟨rfl, rfl⟩ := h
        rw [List.isPrefixOf?_eq_some_iff_append_eq] at hending
        exact ⟨n + 1, q, by omega, by omega, hending.symm, hq, rfl⟩
      · exact shorter h
    · exact shorter h

/-- A path read by its ending stands between two quotes. -/
theorem quotedPathEnding_sound {ending path : Text}
    (h : quotedPathEnding ending t = some (path, left)) :
    ∃ q q', t = q :: (path ++ q' :: left) ∧ isPathQuote q ∧ isPathQuote q' := by
  obtain ⟨q, middle, hfirst, hpath⟩ := bind_eq_some.mp h
  obtain ⟨rfl, hq⟩ := char_eq_some.mp hfirst
  obtain ⟨l, q', -, -, hdrop, hq', rfl⟩ := pathEndingWithin_eq_some hpath
  refine ⟨q, q', ?_, hq, hq'⟩
  rw [List.append_assoc, ← hdrop, List.take_append_drop]

/-- An ending without quotes is found right before the first quote. -/
theorem pathEndingWithin_of_ending {before ending rest : Text} {q : Char}
    (hending : ending.all (!isPathQuote ·)) (hq : isPathQuote q) (hne : before ≠ []) (k : Nat)
    (hk : k ≤ ending.length) :
    pathEndingWithin ending (before ++ (ending ++ q :: rest)) (before.length + k) =
      some (before ++ ending, rest) := by
  induction k with
  | zero =>
    obtain ⟨m, hm⟩ : ∃ m, before.length = m + 1 :=
      Nat.exists_eq_succ_of_ne_zero (by simpa using hne)
    have hprefix : ending.isPrefixOf? (ending ++ q :: rest) = some (q :: rest) :=
      List.isPrefixOf?_eq_some_iff_append_eq.mpr rfl
    rw [Nat.add_zero, hm, pathEndingWithin, ← hm, List.drop_left, hprefix]
    simp only [hq, if_true, List.take_left]
  | succ k ih =>
    have hdrop : (before ++ (ending ++ q :: rest)).drop (before.length + (k + 1)) =
        ending.drop (k + 1) ++ q :: rest := by
      rw [← List.drop_drop, List.drop_left, List.drop_append_of_le_length hk]
    rw [← Nat.add_assoc, pathEndingWithin, Nat.add_assoc, hdrop]
    split
    · next c rest' hprefix =>
      -- the ending would have to reach past the quote
      exfalso
      rw [List.isPrefixOf?_eq_some_iff_append_eq] at hprefix
      have hat := congrArg (·[ending.length - (k + 1)]?) hprefix
      rw [List.getElem?_append_left (by omega), List.getElem?_append_right (by simp),
        List.length_drop, Nat.sub_self, List.getElem?_cons_zero] at hat
      have hmem := List.mem_of_getElem? hat
      have hplain := List.all_eq_true.mp hending q hmem
      simp [hq] at hplain
    · exact ih (by omega)

/-- A path is read by an ending without quotes just when it is a path with that ending. -/
theorem quotedPathEnding_eq_some {ending path : Text} (hending : ending.all (!isPathQuote ·)) :
    quotedPathEnding ending t = some (path, left) ↔
      quotedPath t = some (path, left) ∧ ∃ stem, stem ≠ [] ∧ path = stem ++ ending := by
  rw [quotedPath_eq_some, quotedPathEnding, bind_eq_some]
  constructor
  · rintro ⟨q, rest, hfirst, hpath⟩
    obtain ⟨rfl, hq⟩ := char_eq_some.mp hfirst
    obtain ⟨l, q', hpos, hle, hdrop, hq', rfl⟩ := pathEndingWithin_eq_some hpath
    have hrun : rest.take l = (rest.takeWhile (!isPathQuote ·)).take l := by
      conv_lhs => rw [← List.takeWhile_append_dropWhile (p := (!isPathQuote ·)) (l := rest)]
      exact List.take_append_of_le_length hle
    have hplain : (rest.take l).all (!isPathQuote ·) := by
      rw [hrun]
      exact List.all_eq_true.mpr fun c hc =>
        List.all_eq_true.mp List.all_takeWhile c (List.mem_of_mem_take hc)
    have hlt : l < rest.length := by
      have hlength := congrArg List.length hdrop
      simp only [List.length_drop, List.length_append, List.length_cons] at hlength
      omega
    have hstem : rest.take l ≠ [] := by
      rw [Ne, List.take_eq_nil_iff]
      rintro (rfl | rfl)
      · omega
      · simp at hlt
    refine ⟨⟨q, q', ?_, hq, hq', ?_, by simp [hstem]⟩, rest.take l, hstem, rfl⟩
    · rw [List.append_assoc, ← hdrop, List.take_append_drop]
    · rw [List.all_append, hplain, hending]
      rfl
  · rintro ⟨⟨q, q', rfl, hq, hq', hall, -⟩, stem, hstem, rfl⟩
    refine ⟨q, _, char_eq_some.mpr ⟨rfl, hq⟩, ?_⟩
    have hrun : ((stem ++ ending) ++ q' :: left).takeWhile (!isPathQuote ·) = stem ++ ending := by
      rw [List.takeWhile_append_of_pos (List.all_eq_true.mp hall)]
      simp [hq']
    rw [hrun, List.length_append, List.append_assoc]
    exact pathEndingWithin_of_ending hending hq' hstem ending.length (Nat.le_refl _)

/-- An import of a component file is a default import whose path has the ending. -/
theorem componentImport_eq_some {ending name path : Text} (hending : ending.all (!isPathQuote ·)) :
    componentImport ending t = some ((name, path), left) ↔
      (∃ taken, t = taken ++ left ∧ DefaultForm name path taken) ∧
        ∃ stem, stem ≠ [] ∧ path = stem ++ ending := by
  rw [← defaultImport_eq_some]
  simp only [componentImport, defaultImport, bind_eq_some, pure_eq_some, Prod.mk.injEq]
  constructor
  · rintro ⟨_, _, hword, _, _, hname, _, _, hfrom, _, _, hpath, ⟨rfl, rfl⟩, rfl⟩
    obtain ⟨hpath, hstem⟩ := (quotedPathEnding_eq_some hending).mp hpath
    exact ⟨⟨_, _, hword, _, _, hname, _, _, hfrom, _, _, hpath, ⟨rfl, rfl⟩, rfl⟩, hstem⟩
  · rintro ⟨⟨_, _, hword, _, _, hname, _, _, hfrom, _, _, hpath, ⟨rfl, rfl⟩, rfl⟩, hstem⟩
    have hpath := (quotedPathEnding_eq_some hending).mpr ⟨hpath, hstem⟩
    exact ⟨_, _, hword, _, _, hname, _, _, hfrom, _, _, hpath, ⟨rfl, rfl⟩, rfl⟩

/-- An import of a component file takes a text with two quotes or more, whatever the ending. -/
theorem componentImport_quotes {ending : Text} {value : Text × Text}
    (h : componentImport ending t = some (value, left)) :
    ∃ taken, t = taken ++ left ∧ 2 ≤ quoteCount taken := by
  simp only [componentImport, bind_eq_some, importWord_eq_some, many1_eq_some, fromWord_eq_some,
    pure_eq_some] at h
  obtain ⟨_, _, ⟨g₁, rfl, -⟩, name, _, ⟨rfl, -⟩, _, _, ⟨g₂, g₃, rfl, -⟩, path, _, hpath, -, rfl⟩ := h
  obtain ⟨q, q', rfl, hq, hq'⟩ := quotedPathEnding_sound hpath
  refine ⟨("import" : Text) ++ (g₁ ++ (name ++ (g₂ ++ (("from" : Text) ++ (g₃ ++ (q :: (path ++ [q']))))))),
    by simp, ?_⟩
  simp only [quoteCount_append, quoteCount_cons, hq, hq', if_true]
  omega

end Reader

/-! ## The three searches -/

/-- The imports of component files in a text. -/
def componentMatches (ending t : Text) : List (Text.Match (Text × Text)) :=
  Text.findAll Text.outsideMember (Reader.componentImport ending) t

/-- The named imports in a text. -/
def namedMatches (t : Text) : List (Text.Match (Text × Text)) :=
  Text.findAll Text.outsideMember Reader.namedImport t

/-- The default imports in a text. -/
def defaultMatches (t : Text) : List (Text.Match (Text × Text)) :=
  Text.findAll Text.outsideMember Reader.defaultImport t

/-- A match of one of the searches, with what it hoists. -/
def hoistedAs (hoist : Text × Text → Hoisted) (found : Text.Match (Text × Text)) :
    Text.Match Hoisted :=
  ⟨found.start, found.stop, hoist found.value⟩

/-- The imports of component files, as statements to hoist. -/
def componentStatements (ending t : Text) : List (Text.Match Hoisted) :=
  (componentMatches ending t).map (hoistedAs fun value => .component ⟨value.1, value.2⟩)

/-- The named imports, as statements to hoist. -/
def namedStatements (t : Text) : List (Text.Match Hoisted) :=
  (namedMatches t).map
    (hoistedAs fun value => .module ⟨.named (destructuredNames value.1), value.2⟩)

/-- The default imports, as statements to hoist. -/
def defaultStatements (t : Text) : List (Text.Match Hoisted) :=
  (defaultMatches t).map (hoistedAs fun value => .module ⟨.whole value.1, value.2⟩)

/-- The import statements of a text are those of the three searches, one after the other. -/
theorem importMatches_eq (ending t : Text) :
    importMatches ending t = componentStatements ending t ++ namedStatements t ++ defaultStatements t :=
  rfl

/-- A match whose text holds quotes has an extent inside the text. -/
theorem findAll_bounds {α : Type} {admits : Option Char → Bool} {reader : Reader α} {t : Text}
    (htakes : ∀ t value left, reader t = some (value, left) →
      ∃ taken, t = taken ++ left ∧ 2 ≤ quoteCount taken)
    {found : Text.Match α} (h : found ∈ Text.findAll admits reader t) :
    found.start < found.stop ∧ found.stop ≤ t.length := by
  obtain ⟨taken, left, htext, hstop, hquotes⟩ :=
    Text.exists_form_of_mem_findAll (fun _ taken => 2 ≤ quoteCount taken) htakes h
  have hlength := congrArg List.length htext
  have hpos : quoteCount taken ≤ taken.length := List.countP_le_length
  simp only [List.length_drop, List.length_append] at hlength
  omega

/-- Every import statement that is found has an extent inside the text. -/
theorem importMatches_bounds {ending t : Text} {found : Text.Match Hoisted}
    (h : found ∈ importMatches ending t) : found.start < found.stop ∧ found.stop ≤ t.length := by
  simp only [importMatches_eq, componentStatements, namedStatements, defaultStatements,
    List.mem_append, List.mem_map] at h
  rcases h with (⟨raw, hraw, rfl⟩ | ⟨raw, hraw, rfl⟩) | ⟨raw, hraw, rfl⟩
  · exact findAll_bounds (fun _ _ _ => Reader.componentImport_quotes) hraw
  · exact findAll_bounds (fun _ _ _ => Reader.namedImport_quotes) hraw
  · exact findAll_bounds (fun _ _ _ => Reader.defaultImport_quotes) hraw

end SetupScript
