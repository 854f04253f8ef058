import SetupScript.Bindings
import SetupScript.Definition
import SetupScript.Proofs.ErrorContract
import SetupScript.Proofs.SettledText

/-!
# Names and paths that a module is written with

What a generated module takes from the script as a name or a path cannot upset the text around it.
Bound names are identifiers, paths hold no quotes, and lower-casing brings no quote or backslash
into a name.
-/

namespace SetupScript

/-! ## Name characters -/

/-- A character that means something to a scan is one of seven. -/
theorem special_of_not_inert {c : Char} (h : isInert c = false) :
    c ∈ ['/', '\x60', '\x27', '\x22', '{', '}', '*'] := by
  simp only [isInert, isPlain, Bool.and_eq_false_iff, bne_eq_false_iff_eq] at h
  simp only [List.mem_cons, List.not_mem_nil, or_false]
  grind

/-- A class that holds none of the seven characters means nothing to a scan. -/
theorem isInert_of_class {p : Char → Bool}
    (hp : ['/', '\x60', '\x27', '\x22', '{', '}', '*'].all (!p ·)) {c : Char} (h : p c) :
    isInert c := by
  by_contra hinert
  have hnone := List.all_eq_true.mp hp c (special_of_not_inert (by simpa using hinert))
  rw [h] at hnone
  cases hnone

/-- Name characters mean nothing to a scan. -/
theorem isInert_of_isNameChar {c : Char} (h : Text.isNameChar c) : isInert c :=
  isInert_of_class (by decide) h

/-- Characters that start a name mean nothing to a scan. -/
theorem isInert_of_isNameStart {c : Char} (h : Text.isNameStart c) : isInert c :=
  isInert_of_class (by decide) h

/-- A word means nothing to a scan. -/
theorem all_isInert_of_word {t : Text} (h : t.all Text.isNameChar) : t.all isInert :=
  List.all_eq_true.mpr fun c hc => isInert_of_isNameChar (List.all_eq_true.mp h c hc)

/-- An identifier means nothing to a scan. -/
theorem all_isInert_of_isIdentifier {t : Text} (h : Text.isIdentifier t) : t.all isInert := by
  cases t with
  | nil => rfl
  | cons c rest =>
    simp only [Text.isIdentifier, Bool.and_eq_true] at h
    simp only [List.all_cons, Bool.and_eq_true]
    exact ⟨isInert_of_isNameStart h.1, all_isInert_of_word h.2⟩

/-! ## Lower-casing -/

/-- Every run of code points moves to one past the backslash. -/
theorem lowerRuns_past_backslash :
    ∀ run ∈ Text.lowerRuns, (0x5C : Int) < run.first + run.shift := by
  decide +kernel

/-- The code point of a character made from a number is that number, or zero. -/
theorem toNat_ofNat_cases (n : Nat) : (Char.ofNat n).toNat = n ∨ (Char.ofNat n).toNat = 0 := by
  by_cases h : n.isValidChar
  · exact .inl (by rw [Char.ofNat, dif_pos h]; rfl)
  · exact .inr (by rw [Char.ofNat, dif_neg h]; rfl)

/-- The quotes and escapes that end or upset a double-quoted string. -/
def isDelicate (c : Char) : Bool := c == '\x22' || c == '\\'

/-- A delicate character is one of two. -/
theorem isDelicate_cases {c : Char} (h : isDelicate c) : c.toNat = 0x22 ∨ c.toNat = 0x5C := by
  simp only [isDelicate, Bool.or_eq_true, beq_iff_eq] at h
  rcases h with rfl | rfl
  · exact .inl rfl
  · exact .inr rfl

/-- Lower-casing an ASCII character makes no delicate one out of another. -/
theorem isDelicate_toLower {c : Char} (hc : c.toNat < 0x80) (h : isDelicate c.toLower) :
    isDelicate c := by
  have hall : ∀ n < 0x80, isDelicate (Char.ofNat n).toLower → isDelicate (Char.ofNat n) := by
    decide
  have hchar := hall c.toNat hc
  rw [Char.ofNat_toNat] at hchar
  exact hchar h

/-- The lower-case form of a character holds a delicate one only if it is one itself. -/
theorem isDelicate_of_mem_lowerChar {c d : Char} (hmem : d ∈ Text.lowerChar c) (h : isDelicate d) :
    isDelicate c := by
  unfold Text.lowerChar at hmem
  split at hmem
  · next hascii =>
    obtain rfl := List.mem_singleton.mp hmem
    exact isDelicate_toLower hascii h
  split at hmem
  · simp only [List.mem_cons, List.not_mem_nil, or_false] at hmem
    rcases hmem with rfl | rfl
    · exact absurd h (by decide)
    · exact absurd h (by decide)
  split at hmem
  · next run hrun =>
    obtain rfl := List.mem_singleton.mp hmem
    have hpast := lowerRuns_past_backslash run (List.mem_of_find?_eq_some hrun)
    have hcovers := List.find?_some hrun
    simp only [Text.LowerRun.covers, Bool.and_eq_true, decide_eq_true_eq] at hcovers
    have hcases := isDelicate_cases h
    have hcode := toNat_ofNat_cases (c.toNat + run.shift).toNat
    omega
  · obtain rfl := List.mem_singleton.mp hmem
    exact h

/-- Lower-casing brings no delicate character into a text. -/
theorem isDelicate_of_mem_lower {t : Text} {d : Char} (hmem : d ∈ Text.lower t) (h : isDelicate d) :
    ∃ c ∈ t, isDelicate c := by
  unfold Text.lower at hmem
  generalize ([] : Text) = before at hmem
  induction t generalizing before with
  | nil => simp [Text.lowerAfter] at hmem
  | cons c rest ih =>
    simp only [Text.lowerAfter, List.mem_append] at hmem
    rcases hmem with hmem | hmem
    · refine ⟨c, List.mem_cons_self .., ?_⟩
      split at hmem
      · exfalso
        split at hmem
        · obtain rfl := List.mem_singleton.mp hmem
          exact absurd h (by decide)
        · obtain rfl := List.mem_singleton.mp hmem
          exact absurd h (by decide)
      · exact isDelicate_of_mem_lowerChar hmem h
    · obtain ⟨c', hc', hdelicate⟩ := ih _ hmem
      exact ⟨c', List.mem_cons_of_mem _ hc', hdelicate⟩

/-- The text can stand in a double-quoted string as it is. -/
def isQuotable (t : Text) : Bool := t.all (!isDelicate ·)

/-- A text that can be quoted is a steady string once it is. -/
theorem steady_of_isQuotable {depth : Int} (hdepth : 0 ≤ depth) {t : Text} (h : isQuotable t) :
    Steady depth ('\x22' :: (t ++ ['\x22'])) depth := by
  have hfree (c : Char) (hc : c ∈ t) : isDelicate c = false := by
    simpa using List.all_eq_true.mp h c hc
  exact steady_quoted hdepth (fun hc => absurd (hfree _ hc) (by decide))
    fun hc => absurd (hfree _ hc) (by decide)

/-- The lower-case form of a text that can be quoted can be quoted. -/
theorem isQuotable_lower {t : Text} (h : isQuotable t) : isQuotable (Text.lower t) := by
  refine List.all_eq_true.mpr fun d hd => ?_
  by_contra hdelicate
  obtain ⟨c, hc, hdelicate⟩ := isDelicate_of_mem_lower hd (by simpa using hdelicate)
  have hfree := List.all_eq_true.mp h c hc
  rw [hdelicate] at hfree
  cases hfree

/-! ## Hoisted paths -/

/-- The path of what is hoisted. -/
def Hoisted.path : Hoisted → Text
  | module record => record.path
  | component file => file.path

/-- The path of an import statement that is found holds no quotes. -/
theorem importMatches_path {ending t : Text} (hending : ending.all (!isPathQuote ·))
    {found : Text.Match Hoisted} (h : found ∈ importMatches ending t) :
    found.value.path.all (!isPathQuote ·) := by
  simp only [importMatches_eq, componentStatements, namedStatements, defaultStatements,
    List.mem_append, List.mem_map] at h
  rcases h with (⟨raw, hraw, rfl⟩ | ⟨raw, hraw, rfl⟩) | ⟨raw, hraw, rfl⟩
  · obtain ⟨left, -, hread, -⟩ := Text.mem_findAll hraw
    obtain ⟨taken, -, g₁, g₂, g₃, q, q', -, -, -, -, -, -, -, hpath, -⟩ :=
      ((Reader.componentImport_eq_some hending).mp hread).1
    exact hpath
  · obtain ⟨left, -, hread, -⟩ := Text.mem_findAll hraw
    obtain ⟨taken, -, g₁, g₂, g₃, q, q', -, -, -, -, -, -, -, hpath, -⟩ :=
      Reader.namedImport_eq_some.mp hread
    exact hpath
  · obtain ⟨left, -, hread, -⟩ := Text.mem_findAll hraw
    obtain ⟨taken, -, g₁, g₂, g₃, q, q', -, -, -, -, -, -, -, hpath, -⟩ :=
      Reader.defaultImport_eq_some.mp hread
    exact hpath

namespace Draft

/-- Everything that the draft has hoisted satisfies the predicate. -/
def HoistsOnly (P : Hoisted → Prop) (draft : Draft) : Prop :=
  (∀ record ∈ draft.imports, P (.module record)) ∧
    ∀ component ∈ draft.components, P (.component component)

/-- What is claimed is a statement that was found. -/
theorem mem_claimAll_hoisted {draft : Draft} {founds : List (Text.Match Hoisted)}
    {item : Nat × Hoisted} (h : item ∈ (draft.claimAll founds).2) :
    ∃ found ∈ founds, item.2 = found.value := by
  induction founds generalizing draft with
  | nil => simp [claimAll] at h
  | cons found rest ih =>
    have later {next : Draft} (h : item ∈ (next.claimAll rest).2) :
        ∃ found' ∈ found :: rest, item.2 = found'.value := by
      obtain ⟨found', hfound', hitem⟩ := ih h
      exact ⟨found', List.mem_cons_of_mem _ hfound', hitem⟩
    simp only [claimAll] at h
    split at h
    · cases h
    · split at h
      · rcases List.mem_cons.mp h with rfl | h
        · exact ⟨found, List.mem_cons_self .., rfl⟩
        · exact later h
      · exact later h

/-- Recording something that satisfies a predicate. -/
theorem HoistsOnly.hoist {P : Hoisted → Prop} {draft : Draft} {hoisted : Hoisted}
    (h : draft.HoistsOnly P) (hhoisted : P hoisted) : (draft.hoist hoisted).HoistsOnly P := by
  cases hoisted with
  | module record =>
    refine ⟨fun other hother => ?_, h.2⟩
    rcases List.mem_append.mp hother with hother | hother
    · exact h.1 other hother
    · rw [List.mem_singleton.mp hother]
      exact hhoisted
  | component file =>
    refine ⟨h.1, fun other hother => ?_⟩
    rcases List.mem_append.mp hother with hother | hother
    · exact h.2 other hother
    · rw [List.mem_singleton.mp hother]
      exact hhoisted

/-- Recording what satisfies a predicate, one thing after the other. -/
theorem HoistsOnly.hoistAll {P : Hoisted → Prop} {draft : Draft} {items : List (Nat × Hoisted)}
    (h : draft.HoistsOnly P) (hitems : ∀ item ∈ items, P item.2) :
    (draft.hoistAll items).HoistsOnly P := by
  induction items generalizing draft with
  | nil => exact h
  | cons item rest ih =>
    obtain ⟨hitem, hrest⟩ := List.forall_mem_cons.mp hitems
    exact ih (h.hoist hitem) hrest

/-- Hoisting records only what the import statements of the source hoist. -/
theorem HoistsOnly.hoistImports {P : Hoisted → Prop} {draft : Draft} (hsound : draft.Sound)
    (h : draft.HoistsOnly P) (herror : draft.hoistImports.error = none)
    (hfound : ∀ found ∈ importMatches draft.settings.componentExtension draft.source,
      P found.value) : draft.hoistImports.draft.HoistsOnly P := by
  rcases hoistImports_run hsound with ⟨range, hrefused⟩ | ⟨news, hoisted, message, -, -, -, hclaimed, hrun⟩
  · rw [herror] at hrefused
    cases hrefused
  · rw [hrun]
    have hedited : HoistsOnly P { draft with edits := draft.edits ++ news } := h
    refine hedited.hoistAll fun item hitem => ?_
    obtain ⟨found, hmem, hvalue⟩ := mem_claimAll_hoisted (hclaimed item hitem)
    rw [hvalue]
    exact hfound found hmem

end Draft

/-- A compilation hoists only what the import statements of the script hoist. -/
theorem expandScript_hoistsOnly {settings : Settings} {source : Text} {name : Option Text}
    {strict : Option Bool} (h : (expandScript settings source name strict).error = none)
    {P : Hoisted → Prop}
    (hfound : ∀ found ∈ importMatches settings.componentExtension source, P found.value) :
    (expandScript settings source name strict).draft.HoistsOnly P := by
  obtain ⟨herror, hrun⟩ := expandScript_of_ok _ _ _ _ h
  have hsound : (Draft.announced settings source name strict).Sound :=
    (Draft.sound_start settings source name strict).of_quiet (Draft.quiet_note _ _ _)
  have hempty : (Draft.announced settings source name strict).HoistsOnly P :=
    ⟨fun _ hmem => absurd hmem (List.not_mem_nil), fun _ hmem => absurd hmem (List.not_mem_nil)⟩
  have hhoisted := hempty.hoistImports hsound herror hfound
  rcases Draft.hoistImports_cases hsound with ⟨range, hrefused⟩ | ⟨-, -, hsound'⟩
  · rw [herror] at hrefused
    cases hrefused
  · have hkept := Draft.kept_builtin hsound'
    rw [hrun, Draft.HoistsOnly, hkept.imports, hkept.components]
    exact hhoisted

/-! ## Bound names -/

/-- A declared name is an identifier, as long as its characters go. -/
theorem Reader.identifier_eq_some {t name left : Text} :
    identifier t = some (name, left) ↔
      t = name ++ left ∧ Text.isIdentifier name ∧ !left.head?.any Text.isNameChar := by
  simp only [identifier, bind_eq_some, char_eq_some, many_eq_some, pure_eq_some]
  constructor
  · rintro ⟨first, _, ⟨rfl, hfirst⟩, rest, _, ⟨rfl, hrest, hhead⟩, rfl, rfl⟩
    exact ⟨rfl, by simp only [Text.isIdentifier, hfirst, hrest, Bool.and_self], hhead⟩
  · rintro ⟨rfl, hname, hhead⟩
    cases name with
    | nil => cases hname
    | cons first rest =>
      rw [Text.isIdentifier, Bool.and_eq_true] at hname
      exact ⟨first, rest ++ left, ⟨rfl, hname.1⟩, rest, left, ⟨rfl, hname.2, hhead⟩, rfl, rfl⟩

/-- A plain declaration declares an identifier. -/
theorem Reader.isIdentifier_of_nameDeclaration {t name left : Text}
    (h : nameDeclaration t = some (name, left)) : Text.isIdentifier name := by
  simp only [nameDeclaration, bind_eq_some, pure_eq_some] at h
  obtain ⟨_, _, -, declared, _, hname, _, _, -, _, _, -, rfl, -⟩ := h
  exact (identifier_eq_some.mp hname).2.1

/-- A function declaration declares an identifier. -/
theorem Reader.isIdentifier_of_functionDeclaration {t name left : Text}
    (h : functionDeclaration t = some (name, left)) : Text.isIdentifier name := by
  simp only [functionDeclaration, bind_eq_some, pure_eq_some] at h
  obtain ⟨_, _, -, _, _, -, _, _, -, _, _, -, declared, _, hname, _, _, -, _, _, -, rfl, -⟩ := h
  exact (identifier_eq_some.mp hname).2.1

/-- The name of a plain target is an identifier. -/
theorem Pattern.isIdentifier_of_mem_plainName {target name : Text} (h : name ∈ plainName target) :
    Text.isIdentifier name := by
  unfold plainName at h
  split at h
  · next hname =>
    rw [List.mem_singleton.mp h]
    exact hname
  · cases h

/-- A pattern binds identifiers only. -/
theorem Pattern.isIdentifier_of_mem_names {pattern name : Text} (h : name ∈ names pattern) :
    Text.isIdentifier name := by
  induction hlength : pattern.length using Nat.strongRecOn generalizing pattern with
  | ind n ih =>
    rw [names_eq] at h
    split at h
    · next hbody =>
      obtain ⟨element, helement, hname⟩ := List.mem_flatMap.mp h
      unfold elementNames at hname
      split at hname
      · exact isIdentifier_of_mem_plainName hname
      · next target hread =>
        unfold targetNames at hname
        split at hname
        · next inner hnested =>
          -- a nested pattern is shorter than the one around it
          have hshorter := length_lt_of_nested hbody helement hread hnested
          have htrim := length_trim_le pattern
          exact ih inner.length (by omega) hname rfl
        · exact isIdentifier_of_mem_plainName hname
    · cases h

namespace Bindings

/-- The names of patterns are identifiers. -/
theorem isIdentifier_of_mem_patternNames {settings : Settings} {scan : Scan} {opener : Char}
    {name : Text} (h : name ∈ (patternNames settings scan opener).1) : Text.isIdentifier name := by
  simp only [patternNames, List.mem_flatMap, List.mem_map] at h
  obtain ⟨_, ⟨found, -, rfl⟩, hname⟩ := h
  split at hname
  · cases hname
  · split at hname
    · exact Pattern.isIdentifier_of_mem_names hname
    · cases hname

/-- Adding names adds just those. -/
theorem mem_addNames {known new : List Text} {name : Text} :
    name ∈ Draft.addNames known new ↔ name ∈ known ∨ name ∈ new := by
  induction new generalizing known with
  | nil => simp [Draft.addNames]
  | cons first rest ih =>
    rw [Draft.addNames, ih, List.mem_cons]
    split
    · next hknown =>
      constructor
      · exact Or.imp_right .inr
      · rintro (h | rfl | h)
        · exact .inl h
        · exact .inl hknown
        · exact .inr h
    · rw [List.mem_append, List.mem_singleton, or_assoc]

/-- The bindings of a script are identifiers. -/
theorem isIdentifier_of_mem_collect {settings : Settings} {edited name : Text}
    (h : name ∈ (collect settings edited).1) : Text.isIdentifier name := by
  simp only [collect] at h
  rcases mem_addNames.mp h with hnone | hown
  · cases hnone
  obtain ⟨hfound, -⟩ := List.mem_filter.mp hown
  simp only [List.mem_append] at hfound
  rcases hfound with ((hplain | hobject) | harray) | hfunction
  · simp only [plainNames, List.mem_map, List.mem_filter] at hplain
    obtain ⟨found, ⟨hmem, -⟩, rfl⟩ := hplain
    obtain ⟨left, -, hread, -⟩ := Text.mem_findAll hmem
    exact Reader.isIdentifier_of_nameDeclaration hread
  · exact isIdentifier_of_mem_patternNames hobject
  · exact isIdentifier_of_mem_patternNames harray
  · simp only [functionNames, List.mem_map, List.mem_filter] at hfunction
    obtain ⟨found, ⟨hmem, -⟩, rfl⟩ := hfunction
    obtain ⟨left, -, hread, -⟩ := Text.mem_findAll hmem
    exact Reader.isIdentifier_of_functionDeclaration hread

end Bindings

end SetupScript
