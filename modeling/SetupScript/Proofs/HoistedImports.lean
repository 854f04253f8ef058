import SetupScript.Proofs.ScanEnds
import SetupScript.Proofs.TextLines
import SetupScript.Proofs.WrittenNames

/-!
# Which imports are hoisted

Each of the three searches for import statements goes over the whole text and finds statements that
share no character. Only then is a statement dropped for not starting in code, so one that starts in a
comment or in a string can take an import in code along with it.

An import in code is hoisted just when some statement that holds it starts in code and is not crossed
by an import of a component file, which was claimed before it.
-/

namespace SetupScript

/-! ## What stands before the path -/

/-- A character of a name, or white space. -/
def isLeadChar (c : Char) : Bool := Text.isNameChar c || Text.isBlank c

/-- What a default import has before its path: three words, the first of them right at the start. -/
structure IsLead (lead : Text) : Prop where
  /-- There are no characters but those of names, and white space. -/
  chars : lead.all isLeadChar
  /-- There is no white space before the first word. -/
  first : lead.head?.any (!Text.isBlank ·)
  /-- There are three words. -/
  words : (Text.words lead).length = 3

/-- A quote does not belong to what stands before a path. -/
theorem isLeadChar_of_isPathQuote {c : Char} (h : isPathQuote c) : isLeadChar c = false := by
  rcases isPathQuote_cases h with rfl | rfl
  · decide
  · decide

/-- The words `import` and `from` with a name between them. -/
theorem isLead_of_parts {g₁ name g₂ g₃ : Text} (h1 : g₁.all Text.isBlank ∧ g₁ ≠ [])
    (hname : name.all Text.isNameChar ∧ name ≠ []) (h2 : g₂.all Text.isBlank ∧ g₂ ≠ [])
    (h3 : g₃.all Text.isBlank ∧ g₃ ≠ []) :
    IsLead (("import" : Text) ++ (g₁ ++ (name ++ (g₂ ++ (("from" : Text) ++ g₃))))) := by
  have hgap {gap : Text} (h : gap.all Text.isBlank) : gap.all isLeadChar :=
    List.all_eq_true.mpr fun c hc => by simp [isLeadChar, List.all_eq_true.mp h c hc]
  have hword {word : Text} (h : word.all Text.isNameChar) : word.all isLeadChar :=
    List.all_eq_true.mpr fun c hc => by simp [isLeadChar, List.all_eq_true.mp h c hc]
  refine ⟨?_, rfl, ?_⟩
  · simp only [List.all_append, hgap h1.1, hword hname.1, hgap h2.1, hgap h3.1, Bool.and_true]
    decide
  · have himport : Text.words ("import" : Text) = ["import"] := by decide
    have hfrom : Text.words (("from" : Text) ++ g₃) = ["from"] := by
      rw [← List.append_nil g₃, Text.words_append_gap h3.1 h3.2]
      decide
    rw [Text.words_append_gap h1.1 h1.2, Text.words_append_gap h2.1 h2.2, himport, hfrom,
      Text.words_of_solid (Text.all_solid_of_word hname.1) hname.2]
    rfl

namespace Reader

variable {t left : Text}

/-- A default import is a lead and a path in quotes. -/
theorem DefaultForm.lead {name path taken : Text} (h : DefaultForm name path taken) :
    ∃ lead q q', taken = lead ++ q :: (path ++ [q']) ∧ IsLead lead ∧ isPathQuote q ∧
      path.all (!isPathQuote ·) := by
  obtain ⟨g₁, g₂, g₃, q, q', rfl, h1, hname, h2, h3, hq, -, hpath, -⟩ := h
  exact ⟨_, q, q', by simp only [List.append_assoc],
    isLead_of_parts ⟨h1.1, h1.2.1⟩ ⟨hname.1, hname.2.1⟩ h2 ⟨h3.1, h3.2.1⟩, hq, hpath⟩

/-- An import of a component file has a lead and a quote after it, whatever the ending. -/
theorem componentImport_lead {ending : Text} {value : Text × Text}
    (h : componentImport ending t = some (value, left)) :
    ∃ lead q rest, t = lead ++ q :: rest ∧ IsLead lead ∧ isPathQuote q := by
  simp only [componentImport, bind_eq_some, importWord_eq_some, many1_eq_some, fromWord_eq_some,
    pure_eq_some] at h
  obtain ⟨_, _, ⟨g₁, rfl, h1⟩, name, _, ⟨rfl, hname⟩, _, _, ⟨g₂, g₃, rfl, h2, h3⟩, path, left, hpath,
    -⟩ := h
  obtain ⟨q, q', rfl, hq, -⟩ := quotedPathEnding_sound hpath
  exact ⟨_, q, path ++ q' :: left, by simp only [List.append_assoc],
    isLead_of_parts ⟨h1.1, h1.2.1⟩ ⟨hname.1, hname.2.1⟩ ⟨h2.1, h2.2.1⟩ ⟨h3.1, h3.2.1⟩, hq⟩

/-- A named import opens its brace before any quote. -/
theorem namedImport_brace {value : Text × Text} (h : namedImport t = some (value, left)) :
    ∃ lead rest, t = lead ++ '{' :: rest ∧ lead.all isLeadChar := by
  obtain ⟨names, path⟩ := value
  obtain ⟨taken, rfl, g₁, g₂, g₃, q, q', rfl, h1, -⟩ := namedImport_eq_some.mp h
  refine ⟨("import" : Text) ++ g₁,
    names ++ ('}' :: (g₂ ++ (("from" : Text) ++ (g₃ ++ (q :: (path ++ q' :: left)))))),
    by simp only [List.append_assoc, List.cons_append, List.nil_append], ?_⟩
  rw [List.all_append, Bool.and_eq_true]
  exact ⟨by decide, List.all_eq_true.mpr fun c hc => by
    simp [isLeadChar, List.all_eq_true.mp h1.1 c hc]⟩

end Reader

/-! ## Imports at an offset -/

/-- One of the three readers reads an import statement off the text. -/
def ReadsImport (ending t : Text) : Prop :=
  (Reader.componentImport ending t).isSome ∨ (Reader.namedImport t).isSome ∨
    (Reader.defaultImport t).isSome

instance (ending t : Text) : Decidable (ReadsImport ending t) :=
  inferInstanceAs (Decidable (_ ∨ _ ∨ _))

/-- An import statement may start at the offset, and one can be read from there on. -/
def ImportAt (ending source : Text) (p : Nat) : Prop :=
  Text.outsideMember (Text.charBefore none source p) ∧ ReadsImport ending (source.drop p)

instance (ending source : Text) (p : Nat) : Decidable (ImportAt ending source p) :=
  inferInstanceAs (Decidable (_ ∧ _))

/-- An import statement begins with a lead and a quote, or with its brace before any quote. -/
theorem ReadsImport.cases {ending t : Text} (h : ReadsImport ending t) :
    (∃ lead q rest, t = lead ++ q :: rest ∧ IsLead lead ∧ isPathQuote q) ∨
      ∃ lead rest, t = lead ++ '{' :: rest ∧ lead.all isLeadChar := by
  rcases h with h | h | h
  · obtain ⟨⟨value, left⟩, hread⟩ := Option.isSome_iff_exists.mp h
    exact .inl (Reader.componentImport_lead hread)
  · obtain ⟨⟨value, left⟩, hread⟩ := Option.isSome_iff_exists.mp h
    exact .inr (Reader.namedImport_brace hread)
  · obtain ⟨⟨⟨name, path⟩, left⟩, hread⟩ := Option.isSome_iff_exists.mp h
    obtain ⟨taken, rfl, hform⟩ := Reader.defaultImport_eq_some.mp hread
    obtain ⟨lead, q, q', rfl, hlead, hq, -⟩ := hform.lead
    exact .inl ⟨lead, q, path ++ q' :: left,
      by simp only [List.append_assoc, List.cons_append, List.nil_append], hlead, hq⟩

/-- No named import starts where a lead does. -/
theorem not_lead_of_brace {lead lead' rest rest' : Text} {q : Char} (hlead : lead.all isLeadChar)
    (hlead' : lead'.all isLeadChar) (hq : isPathQuote q) :
    lead ++ q :: rest ≠ lead' ++ '{' :: rest' := by
  intro h
  obtain ⟨-, rfl⟩ := Text.cut_unique hlead hlead' (isLeadChar_of_isPathQuote hq) (by decide) h
  exact absurd hq (by decide)

/-- Inside a lead an import statement starts only at its own start: from its second word on there
are too few words before the quote. -/
theorem IsLead.start_of_readsImport {ending lead rest : Text} {q : Char} (hlead : IsLead lead)
    (hq : isPathQuote q) {before : Option Char} {k : Nat} (hk : k < lead.length)
    (hadmits : Text.outsideMember (Text.charBefore before (lead ++ q :: rest) k))
    (hread : ReadsImport ending ((lead ++ q :: rest).drop k)) : k = 0 := by
  rw [List.drop_append_of_le_length (Nat.le_of_lt hk)] at hread
  have hchars : (lead.drop k).all isLeadChar :=
    List.all_eq_true.mpr fun c hc => List.all_eq_true.mp hlead.chars c (List.mem_of_mem_drop hc)
  rcases hread.cases with ⟨lead', q', rest', htext, hlead', hq'⟩ | ⟨lead', rest', htext, hlead'⟩
  · obtain ⟨hsame, -⟩ := Text.cut_unique hchars hlead'.chars (isLeadChar_of_isPathQuote hq)
      (isLeadChar_of_isPathQuote hq') htext
    cases k with
    | zero => rfl
    | succ k =>
      exfalso
      -- the character before the statement is white space, for it belongs to no name
      have hget : lead[k]? = some lead[k] := List.getElem?_eq_getElem (by omega)
      have hblank : Text.isBlank lead[k] := by
        have hchar := List.all_eq_true.mp hlead.chars lead[k] (List.getElem_mem _)
        rw [Text.charBefore, List.getElem?_append_left (by omega), hget] at hadmits
        simp only [Text.outsideMember, Option.any_some, Bool.not_eq_true', Bool.or_eq_false_iff] at hadmits
        simpa [isLeadChar, hadmits.2] using hchar
      have hsplit : lead = lead.take k ++ ([lead[k]] ++ lead.drop (k + 1)) := by
        rw [List.singleton_append, List.getElem_cons_drop, List.take_append_drop]
      have hwords : (Text.words lead).length =
          (Text.words (lead.take k ++ ([lead[k]] ++ lead.drop (k + 1)))).length := by rw [← hsplit]
      rw [Text.words_append_gap (by simp [hblank]) (by simp), List.length_append, hsame, hlead.words,
        hlead'.words] at hwords
      have hnone : Text.words (lead.take k) = [] := List.eq_nil_of_length_eq_zero (by omega)
      have hfirst := hlead.first
      cases lead with
      | nil => simp at hk
      | cons c tail =>
        have hc : Text.isBlank c = false := by simpa using hfirst
        cases k with
        | zero =>
          rw [List.getElem_cons_zero, hc] at hblank
          cases hblank
        | succ k => exact Text.words_ne_nil hc _ hnone
  · exact absurd htext (not_lead_of_brace hchars hlead' hq)

/-! ## Default imports in code -/

/-- What follows in a quoted string up to the next quote of it is not code. -/
theorem not_code_of_quoted (context : Context) (t : Text) {q : Char} (hcontext : context = .quoted q)
    {i : Nat} (hopen : q ∉ t.take i) : (labelFrom context t)[i]?.any Cell.isCode = false := by
  induction context, t using Context.scan_induction generalizing i with
  | nil context => simp
  | single context c rest next hstep ih =>
    subst hcontext
    rw [labelFrom_single hstep]
    cases i with
    | zero => rfl
    | succ i =>
      rw [List.take_succ_cons, List.mem_cons, not_or] at hopen
      have hnext : next = .quoted q := by
        simp only [Context.step] at hstep
        grind
      exact ih hnext hopen.2
  | pair context c d tail next hstep ih =>
    subst hcontext
    rw [labelFrom_pair hstep]
    cases i with
    | zero => rfl
    | succ i =>
      cases i with
      | zero => rfl
      | succ i =>
        rw [List.take_succ_cons, List.take_succ_cons, List.mem_cons, List.mem_cons, not_or, not_or] at hopen
        have hnext : next = .quoted q := by
          simp only [Context.step] at hstep
          grind
        exact ih hnext hopen.2.2
  | cut context c next hstep =>
    subst hcontext
    rw [labelFrom_cut hstep]
    cases i with
    | zero => rfl
    | succ i => rfl

/-- What stands before a path is plain. -/
theorem IsLead.plain {lead : Text} (h : IsLead lead) : lead.all isPlain := by
  refine List.all_eq_true.mpr fun c hc => ?_
  have hchar := List.all_eq_true.mp h.chars c hc
  simp only [isLeadChar, Bool.or_eq_true] at hchar
  rcases hchar with hname | hblank
  · have hinert := isInert_of_isNameChar hname
    simp only [isInert, Bool.and_eq_true] at hinert
    exact hinert.1.1.1
  · have hspecial := special_of_isBlank hblank
    simp only [List.mem_cons, List.not_mem_nil, or_false, not_or] at hspecial
    simp [isPlain, hspecial]

/-- The code of a default import that starts in code is its lead. -/
theorem IsLead.lt_of_isCode {lead path left : Text} {q q' : Char} (hlead : IsLead lead)
    (hq : isPathQuote q) (hpath : path.all (!isPathQuote ·)) {k : Nat}
    (hk : k < (lead ++ q :: (path ++ [q'])).length)
    (hcode : (Scan.ofText (lead ++ q :: (path ++ [q']) ++ left)).isCode k) : k < lead.length := by
  by_contra hge
  have htext : lead ++ q :: (path ++ [q']) ++ left = lead ++ q :: (path ++ q' :: left) := by simp
  have hopen : Context.step .code q (path ++ q' :: left).head? = (.quoted q, 1) := by
    rcases isPathQuote_cases hq with rfl | rfl
    · simp [Context.step]
    · simp [Context.step]
  obtain ⟨i, rfl⟩ : ∃ i, k = lead.length + i := ⟨k - lead.length, by omega⟩
  simp only [Scan.isCode, Scan.ofText] at hcode
  rw [htext, (labelFrom_plain hlead.plain _).1, List.getElem?_append_right (by simp),
    List.length_map, Nat.add_sub_cancel_left, labelFrom_single hopen] at hcode
  cases i with
  | zero => exact absurd hcode (by simp [Context.readMode, Context.mode, Cell.isCode])
  | succ i =>
    simp only [List.length_append, List.length_cons, List.length_nil] at hk
    have hfree : q ∉ (path ++ q' :: left).take i := by
      rw [List.take_append_of_le_length (by omega)]
      intro hmem
      have hplain := List.all_eq_true.mp hpath q (List.mem_of_mem_take hmem)
      simp [hq] at hplain
    rw [List.getElem?_cons_succ, not_code_of_quoted _ _ rfl hfree] at hcode
    cases hcode

/-- Of the code in a default import that starts in code, only the start reads as an import
statement. -/
theorem start_of_importAt {ending source : Text} {found : Text.Match (Text × Text)}
    (hfound : found ∈ defaultMatches source) (hcode : (Scan.ofText source).isCode found.start) {p : Nat}
    (hle : found.start ≤ p) (hlt : p < found.stop) (hp : (Scan.ofText source).isCode p)
    (himport : ImportAt ending source p) : p = found.start := by
  obtain ⟨taken, left, hshape, hstop, hform⟩ := Text.exists_form_of_mem_findAll
    (fun value taken => Reader.DefaultForm value.1 value.2 taken)
    (fun _ _ _ h => Reader.defaultImport_eq_some.mp h) hfound
  obtain ⟨lead, q, q', rfl, hlead, hq, hpath⟩ := hform.lead
  obtain ⟨k, rfl⟩ : ∃ k, p = found.start + k := ⟨p - found.start, by omega⟩
  rw [Scan.isCode_drop hcode, hshape] at hp
  have hinside := hlead.lt_of_isCode hq hpath (by omega) hp
  obtain ⟨hadmits, hread⟩ := himport
  have hrest : source.drop found.start = lead ++ q :: (found.value.2 ++ q' :: left) := by
    rw [hshape]
    simp
  rw [← List.drop_drop, hrest] at hread
  have hbefore : Text.charBefore none source (found.start + k) = Text.charBefore
      (Text.charBefore none source found.start) (lead ++ q :: (found.value.2 ++ q' :: left)) k := by
    cases k with
    | zero => rfl
    | succ k => rw [← hrest, Text.charBefore, List.getElem?_drop]; rfl
  rw [hbefore] at hadmits
  rw [hlead.start_of_readsImport hq hinside hadmits hread, Nat.add_zero]

/-! ## Statements that hold an import -/

section Searches

variable {ending source : Text} {reader : Reader (Text × Text)} {p : Nat}

/-- The reader of a search reads at the start of what is found. -/
theorem isSome_of_mem_findAll {raw : Text.Match (Text × Text)}
    (h : raw ∈ Text.findAll Text.outsideMember reader source) :
    Text.outsideMember (Text.charBefore none source raw.start) ∧
      (reader (source.drop raw.start)).isSome := by
  obtain ⟨left, -, hread, -⟩ := Text.mem_findAll h
  exact ⟨Text.admits_of_mem_findAll h, by rw [hread]; rfl⟩

/-- A search for texts with quotes finds a statement around every offset at which its reader reads. -/
theorem exists_mem_findAll_of_isSome
    (hquotes : ∀ t value left, reader t = some (value, left) →
      ∃ taken, t = taken ++ left ∧ 2 ≤ quoteCount taken)
    (hadmits : Text.outsideMember (Text.charBefore none source p))
    (hread : (reader (source.drop p)).isSome) :
    ∃ raw ∈ Text.findAll Text.outsideMember reader source, raw.start ≤ p ∧ p < raw.stop := by
  obtain ⟨⟨value, left⟩, hread⟩ := Option.isSome_iff_exists.mp hread
  refine Text.exists_mem_findAll (fun t value left hread => ?_) hadmits hread
  obtain ⟨taken, rfl, hcount⟩ := hquotes t value left hread
  have hlength : quoteCount taken ≤ taken.length := List.countP_le_length
  rw [List.length_append]
  omega

/-- A statement that is found reads as an import statement at its start. -/
theorem importAt_of_mem_importMatches {found : Text.Match Hoisted}
    (h : found ∈ importMatches ending source) : ImportAt ending source found.start := by
  simp only [importMatches_eq, componentStatements, namedStatements, defaultStatements,
    List.mem_append, List.mem_map] at h
  rcases h with (⟨raw, hraw, rfl⟩ | ⟨raw, hraw, rfl⟩) | ⟨raw, hraw, rfl⟩
  · exact (isSome_of_mem_findAll hraw).imp_right .inl
  · exact (isSome_of_mem_findAll hraw).imp_right fun hread => .inr (.inl hread)
  · exact (isSome_of_mem_findAll hraw).imp_right fun hread => .inr (.inr hread)

/-- Every import statement that can be read at an offset lies in a statement that is found. -/
theorem exists_mem_importMatches (h : ImportAt ending source p) :
    ∃ found ∈ importMatches ending source, found.start ≤ p ∧ p < found.stop := by
  simp only [importMatches_eq, componentStatements, namedStatements, defaultStatements,
    List.mem_append, List.mem_map]
  obtain ⟨hadmits, hread | hread | hread⟩ := h
  · obtain ⟨raw, hraw, hholds⟩ :=
      exists_mem_findAll_of_isSome (fun _ _ _ => Reader.componentImport_quotes) hadmits hread
    exact ⟨_, .inl (.inl ⟨raw, hraw, rfl⟩), hholds⟩
  · obtain ⟨raw, hraw, hholds⟩ :=
      exists_mem_findAll_of_isSome (fun _ _ _ => Reader.namedImport_quotes) hadmits hread
    exact ⟨_, .inl (.inr ⟨raw, hraw, rfl⟩), hholds⟩
  · obtain ⟨raw, hraw, hholds⟩ :=
      exists_mem_findAll_of_isSome (fun _ _ _ => Reader.defaultImport_quotes) hadmits hread
    exact ⟨_, .inr ⟨raw, hraw, rfl⟩, hholds⟩

end Searches

/-- One end of the statement lies in an import of a component file that starts elsewhere in code. -/
def Crossed (ending source : Text) (found : Text.Match Hoisted) : Prop :=
  ∃ other ∈ componentMatches ending source, (Scan.ofText source).isCode other.start ∧
    other.start ≠ found.start ∧ (other.start ≤ found.start ∧ found.start < other.stop ∨
      other.start < found.stop ∧ found.stop ≤ other.stop)

instance (ending source : Text) (found : Text.Match Hoisted) : Decidable (Crossed ending source found) :=
  inferInstanceAs (Decidable (∃ other ∈ componentMatches ending source, _ ∧ _ ∧ _))

/-- Every statement that holds the offset starts outside code or is crossed. -/
def Swallowed (ending source : Text) (p : Nat) : Prop :=
  ∀ found ∈ importMatches ending source, found.start ≤ p → p < found.stop →
    (Scan.ofText source).isCode found.start = false ∨ Crossed ending source found

instance (ending source : Text) (p : Nat) : Decidable (Swallowed ending source p) :=
  inferInstanceAs (Decidable (∀ found ∈ importMatches ending source, _))

namespace Draft

variable {draft : Draft}

/-- Claimed statements cover what they hold. -/
theorem covers_claimEdits {founds : List (Text.Match Hoisted)} {p : Nat} :
    (draft.claimEdits founds).covers p ↔ ∃ found ∈ founds,
      draft.MayClaim found.start found.stop ∧ found.start ≤ p ∧ p < found.stop := by
  rw [EditList.covers_eq_true]
  constructor
  · rintro ⟨edit, hedit, hstart, hstop⟩
    obtain ⟨found, hfound, hmay, rfl⟩ := mem_claimEdits.mp hedit
    simp only [markerEdit] at hstart hstop
    exact ⟨found, hfound, hmay, by omega, by omega⟩
  · rintro ⟨found, hfound, hmay, hstart, hstop⟩
    refine ⟨_, mem_claimEdits.mpr ⟨found, hfound, hmay, rfl⟩, ?_⟩
    simp only [markerEdit]
    omega

/-- What the component imports and the named imports cover is what was claimed in two rounds. -/
theorem covers_afterNamed (hedits : draft.edits = []) {p : Nat} :
    draft.afterNamed.edits.covers p ↔
      (draft.claimEdits (componentStatements draft.settings.componentExtension draft.source)).covers p ∨
      (draft.afterComponents.claimEdits (namedStatements draft.source)).covers p := by
  have hfirst : draft.afterComponents.edits =
      draft.claimEdits (componentStatements draft.settings.componentExtension draft.source) := by
    rw [afterComponents, hedits, List.nil_append]
  rw [afterNamed, hfirst, EditList.covers, List.any_append, Bool.or_eq_true]
  rfl

/-- What all imports cover is what was claimed in three rounds. -/
theorem covers_afterImports {p : Nat} :
    draft.afterImports.edits.covers p ↔ draft.afterNamed.edits.covers p ∨
      (draft.afterNamed.claimEdits (defaultStatements draft.source)).covers p := by
  rw [afterImports, EditList.covers, List.any_append, Bool.or_eq_true]
  rfl

/-- An edit of a component import or of a named import comes from a statement that starts in code. -/
theorem exists_mem_of_mem_afterNamed (hedits : draft.edits = []) {edit : Edit}
    (hedit : edit ∈ draft.afterNamed.edits) :
    ∃ found ∈ importMatches draft.settings.componentExtension draft.source,
      draft.scan.isCode found.start ∧ edit = draft.markerEdit found.start found.stop := by
  rw [importMatches_eq]
  rcases List.mem_append.mp hedit with hedit | hedit
  · rw [afterComponents, hedits] at hedit
    obtain ⟨found, hfound, hmay, rfl⟩ := mem_claimEdits.mp hedit
    exact ⟨found, by simp [hfound], hmay.1, rfl⟩
  · obtain ⟨found, hfound, hmay, rfl⟩ := mem_claimEdits.mp hedit
    exact ⟨found, by simp [hfound], hmay.1, rfl⟩

/-- An edit of an import comes from a statement that starts in code. -/
theorem exists_mem_of_mem_afterImports (hedits : draft.edits = []) {edit : Edit}
    (hedit : edit ∈ draft.afterImports.edits) :
    ∃ found ∈ importMatches draft.settings.componentExtension draft.source,
      draft.scan.isCode found.start ∧ edit = draft.markerEdit found.start found.stop := by
  rcases List.mem_append.mp hedit with hedit | hedit
  · exact exists_mem_of_mem_afterNamed hedits hedit
  · obtain ⟨found, hfound, hmay, rfl⟩ := mem_claimEdits.mp hedit
    rw [importMatches_eq]
    exact ⟨found, List.mem_append_right _ hfound, hmay.1, rfl⟩

/-- A statement that may be claimed after the component imports is not crossed by one of them. -/
theorem not_crossed_of_mayClaim (hedits : draft.edits = [])
    (hscan : draft.scan = Scan.ofText draft.source) {later : Draft}
    (hlater : ∀ edit ∈ draft.afterComponents.edits, edit ∈ later.edits) {found : Text.Match Hoisted}
    (hmay : later.MayClaim found.start found.stop) :
    ¬ Crossed draft.settings.componentExtension draft.source found := by
  rintro ⟨other, hother, hcode, -, hcrosses⟩
  have hedit := hlater _ ((mem_edits_afterComponents hedits).mpr ⟨other, hother, hscan ▸ hcode, rfl⟩)
  have hstart := EditList.covers_eq_false.mp hmay.2.1 _ hedit
  have hstop := EditList.covers_eq_false.mp hmay.2.2 _ hedit
  simp only [markerEdit] at hstart hstop
  omega

/-- A named import in code that is not crossed may be claimed after the component imports. -/
theorem mayClaim_of_not_crossed (hedits : draft.edits = [])
    (hscan : draft.scan = Scan.ofText draft.source) {found : Text.Match Hoisted}
    (hfound : found ∈ namedStatements draft.source) (hcode : draft.scan.isCode found.start)
    (hfree : ¬ Crossed draft.settings.componentExtension draft.source found) :
    draft.afterComponents.MayClaim found.start found.stop := by
  obtain ⟨raw, hraw, rfl⟩ := List.mem_map.mp hfound
  have hends (other : Text.Match (Text × Text))
      (hother : other ∈ componentMatches draft.settings.componentExtension draft.source)
      (hcode' : draft.scan.isCode other.start) :
      ¬ (other.start ≤ raw.start ∧ raw.start < other.stop ∨
        other.start < raw.stop ∧ raw.stop ≤ other.stop) := by
    by_cases hsame : other.start = raw.start
    · -- a brace follows `import` here, and a name does there
      obtain ⟨left, -, hread, -⟩ := Text.mem_findAll hraw
      obtain ⟨left', -, hread', -⟩ := Text.mem_findAll hother
      obtain ⟨lead, rest, hbrace, hlead⟩ := Reader.namedImport_brace hread
      obtain ⟨lead', q, rest', hquote, hlead', hq⟩ := Reader.componentImport_lead hread'
      rw [hsame, hbrace] at hquote
      exact absurd hquote.symm (not_lead_of_brace hlead'.chars hlead hq)
    · exact fun hcrosses => hfree ⟨other, hother, hscan ▸ hcode', hsame, hcrosses⟩
  refine ⟨hcode, EditList.covers_eq_false.mpr fun edit hedit => ?_,
    EditList.covers_eq_false.mpr fun edit hedit => ?_⟩
  · obtain ⟨other, hother, hcode', rfl⟩ := (mem_edits_afterComponents hedits).mp hedit
    have := hends other hother hcode'
    simp only [markerEdit, hoistedAs]
    omega
  · obtain ⟨other, hother, hcode', rfl⟩ := (mem_edits_afterComponents hedits).mp hedit
    have := hends other hother hcode'
    simp only [markerEdit, hoistedAs]
    omega

/-- A default import in code may be claimed last, unless its start is taken already. -/
theorem mayClaim_default (hedits : draft.edits = []) (hscan : draft.scan = Scan.ofText draft.source)
    {raw : Text.Match (Text × Text)} (hraw : raw ∈ defaultMatches draft.source)
    (hcode : draft.scan.isCode raw.start) (hfree : draft.afterNamed.edits.covers raw.start = false) :
    draft.afterNamed.MayClaim raw.start raw.stop := by
  refine ⟨hcode, hfree, EditList.covers_eq_false.mpr fun edit hedit hholds => ?_⟩
  have hstart := EditList.covers_eq_false.mp hfree edit hedit
  obtain ⟨found, hfound, hcode', rfl⟩ := exists_mem_of_mem_afterNamed hedits hedit
  have hbounds := findAll_bounds (fun _ _ _ => Reader.defaultImport_quotes) hraw
  simp only [markerEdit] at hstart hholds
  -- the edit starts inside the default import, which holds no other import in code
  have hsame := start_of_importAt hraw (hscan ▸ hcode) (by omega) (by omega) (hscan ▸ hcode')
    (importAt_of_mem_importMatches hfound)
  omega

/-- What is covered once all imports have been claimed: an import in code is, just when it is not
swallowed. -/
theorem covers_afterImports_iff (hedits : draft.edits = [])
    (hscan : draft.scan = Scan.ofText draft.source) {p : Nat} (hp : draft.scan.isCode p)
    (himport : ImportAt draft.settings.componentExtension draft.source p) :
    draft.afterImports.edits.covers p ↔
      ¬ Swallowed draft.settings.componentExtension draft.source p := by
  have hheld : ¬ Swallowed draft.settings.componentExtension draft.source p ↔
      ∃ found ∈ importMatches draft.settings.componentExtension draft.source,
        (found.start ≤ p ∧ p < found.stop) ∧ draft.scan.isCode found.start ∧
          ¬ Crossed draft.settings.componentExtension draft.source found := by
    simp [Swallowed, hscan, and_assoc]
  rw [hheld, covers_afterImports, covers_afterNamed hedits, covers_claimEdits, covers_claimEdits,
    covers_claimEdits, importMatches_eq]
  simp only [List.mem_append]
  constructor
  · rintro ((⟨found, hfound, hmay, hholds⟩ | ⟨found, hfound, hmay, hholds⟩) | ⟨found, hfound, hmay, hholds⟩)
    · refine ⟨found, .inl (.inl hfound), hholds, hmay.1, ?_⟩
      obtain ⟨raw, hraw, rfl⟩ := List.mem_map.mp hfound
      rintro ⟨other, hother, -, hstart, hcrosses⟩
      have hbounds := findAll_bounds (fun _ _ _ => Reader.componentImport_quotes) hraw
      have hapart := Text.apart_of_mem_findAll hother hraw hstart
      simp only [hoistedAs] at hcrosses hstart
      omega
    · exact ⟨found, .inl (.inr hfound), hholds, hmay.1, not_crossed_of_mayClaim hedits hscan
        (fun _ hedit => hedit) hmay⟩
    · exact ⟨found, .inr hfound, hholds, hmay.1, not_crossed_of_mayClaim hedits hscan
        (fun _ hedit => List.mem_append_left _ hedit) hmay⟩
  · rintro ⟨found, (hfound | hfound) | hfound, hholds, hcode, hfree⟩
    · exact .inl (.inl ⟨found, hfound, ⟨hcode, by simp [hedits, EditList.covers],
        by simp [hedits, EditList.covers]⟩, hholds⟩)
    · exact .inl (.inr ⟨found, hfound, mayClaim_of_not_crossed hedits hscan hfound hcode hfree, hholds⟩)
    · obtain ⟨raw, hraw, rfl⟩ := List.mem_map.mp hfound
      obtain rfl : p = raw.start :=
        start_of_importAt hraw (hscan ▸ hcode) hholds.1 hholds.2 (hscan ▸ hp) himport
      cases htaken : draft.afterNamed.edits.covers raw.start with
      | false =>
        exact .inr ⟨_, hfound, mayClaim_default hedits hscan hraw hcode htaken, hholds⟩
      | true =>
        rw [covers_afterNamed hedits, covers_claimEdits, covers_claimEdits] at htaken
        exact .inl htaken

/-- Hoisting that is not refused an edit records the edits of all imports. -/
theorem hoistImports_of_not_entangled (draft : Draft) (hedits : draft.edits = [])
    (hscan : draft.scan = Scan.ofText draft.source)
    (h : ¬ Entangled draft.settings.componentExtension draft.source) :
    draft.hoistImports.error = none ∧
      draft.hoistImports.draft.edits = draft.afterImports.edits := by
  simp only [hoistImports, claimAll_of_not_entangled hedits hscan h, Outcome.andThen]
  exact ⟨trivial, (hoistAll_frame _ draft.afterImports).2.1⟩

end Draft

/-- Where hoisting is refused no edit, an import statement in code is hoisted just when it is not
swallowed; in any case some statement was found that holds it. -/
theorem import_hoisted_iff_not_swallowed (settings : Settings) (source : Text) (name : Option Text)
    (strict : Option Bool) {p : Nat}
    (hran : (Draft.start settings source name strict).hoistImports.error = none)
    (hcode : (Scan.ofText source).isCode p)
    (himport : ImportAt settings.componentExtension source p) :
    (∃ found ∈ importMatches settings.componentExtension source, found.start ≤ p ∧ p < found.stop) ∧
      ((Draft.start settings source name strict).hoistImports.draft.edits.covers p ↔
        ¬ Swallowed settings.componentExtension source p) := by
  have hfree : ¬ Entangled settings.componentExtension source := by
    intro hentangled
    obtain ⟨range, hrefused⟩ := (Draft.hoistImports_refused_iff
      (Draft.start settings source name strict) rfl rfl).mpr hentangled
    rw [hran] at hrefused
    cases hrefused
  refine ⟨exists_mem_importMatches himport, ?_⟩
  rw [(Draft.hoistImports_of_not_entangled _ rfl rfl hfree).2]
  exact Draft.covers_afterImports_iff rfl rfl hcode himport

/-- A default import is hoisted from behind a comment that begins like an import. -/
theorem import_hoisted_after_comment :
    let source : Text := "// import \x7b a\nimport x from './x'"
    let hoisted := (Draft.start {} source none none).hoistImports
    hoisted.error = none ∧ (Scan.ofText source).isCode 14 ∧
      ImportAt ({} : Settings).componentExtension source 14 ∧ hoisted.draft.edits.covers 14 := by
  intro source hoisted
  have hran : hoisted.error = none :=
    (Draft.hoistImports_of_not_entangled (Draft.start {} source none none) rfl rfl (by decide)).1
  have hcode : (Scan.ofText source).isCode 14 := by decide
  have himport : ImportAt ({} : Settings).componentExtension source 14 := by decide
  have hhoisted := import_hoisted_iff_not_swallowed {} source none none hran hcode himport
  exact ⟨hran, hcode, himport, hhoisted.2.mpr (by decide)⟩

/-- A named import behind the same comment is not: the statement that is found starts in the
comment. -/
theorem import_lost_after_comment :
    let source : Text := "// import \x7b a\nimport \x7b b \x7d from 'c'"
    let hoisted := (Draft.start {} source none none).hoistImports
    hoisted.error = none ∧ (Scan.ofText source).isCode 14 ∧
      ImportAt ({} : Settings).componentExtension source 14 ∧ hoisted.draft.edits.covers 14 = false := by
  intro source hoisted
  obtain ⟨hran, hedits⟩ :=
    Draft.hoistImports_of_not_entangled (Draft.start {} source none none) rfl rfl (by decide)
  exact ⟨hran, by decide, by decide, by rw [hedits]; decide⟩

end SetupScript
