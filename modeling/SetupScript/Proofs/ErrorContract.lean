import SetupScript.Compile
import SetupScript.Proofs.DraftInvariant

/-!
# How a compilation fails

A compilation fails on an unsupported macro, on a repeated declaration in strict mode, or because an
edit is refused. The last case arises exactly when a named import reaches over an import of a
component file, with neither of its own ends inside one. Expansions are never refused an edit, and
neither are default imports, for they hold too few quotes to reach over another import.
-/

namespace SetupScript

/-- The statements have extents and share no character. -/
def Separate (founds : List (Text.Match Hoisted)) : Prop :=
  (∀ found ∈ founds, found.start < found.stop) ∧ founds.Pairwise fun a b => a.stop ≤ b.start

/-- Statements that follow one that is separate from them. -/
theorem Separate.of_cons {found : Text.Match Hoisted} {rest : List (Text.Match Hoisted)}
    (h : Separate (found :: rest)) :
    found.start < found.stop ∧ (∀ other ∈ rest, found.stop ≤ other.start) ∧ Separate rest :=
  ⟨h.1 found (List.mem_cons_self ..), (List.pairwise_cons.mp h.2).1,
    fun other hother => h.1 other (List.mem_cons_of_mem _ hother), (List.pairwise_cons.mp h.2).2⟩

/-- The matches of a search for texts with quotes are separate. -/
theorem separate_hoistedAs {reader : Reader (Text × Text)}
    (hquotes : ∀ t value left, reader t = some (value, left) →
      ∃ taken, t = taken ++ left ∧ 2 ≤ quoteCount taken) (t : Text) (hoist : Text × Text → Hoisted) :
    Separate ((Text.findAll Text.outsideMember reader t).map (hoistedAs hoist)) := by
  constructor
  · intro found hfound
    obtain ⟨raw, hraw, rfl⟩ := List.mem_map.mp hfound
    exact (findAll_bounds hquotes hraw).1
  · rw [List.pairwise_map]
    exact (Text.pairwise_findAll t).imp fun h => h.2

namespace Draft

/-! ## Claiming matches that share no character -/

/-- The statement may be claimed as far as its ends go, but a recorded edit lies inside it. -/
def Blocked (draft : Draft) (found : Text.Match Hoisted) : Prop :=
  draft.MayClaim found.start found.stop ∧ draft.edits.overlaps found.start (found.stop - 1 : Int)

/-- A statement that starts after an edit may be claimed or is blocked as it was without it. -/
theorem claimable_append_of_before (draft : Draft) {edit : Edit} {start stop : Nat}
    (hbefore : edit.stop < start) (hlt : start < stop) :
    (MayClaim { draft with edits := draft.edits ++ [edit] } start stop ↔ draft.MayClaim start stop) ∧
      EditList.overlaps (draft.edits ++ [edit]) start (stop - 1 : Int) =
        draft.edits.overlaps start (stop - 1 : Int) := by
  have hstart : (edit.start ≤ start && (start : Int) ≤ edit.stop) = false := by
    simp only [Bool.and_eq_false_iff, decide_eq_false_iff_not]
    omega
  have hstop : (edit.start ≤ (stop : Int) - 1 && (stop : Int) - 1 ≤ edit.stop) = false := by
    simp only [Bool.and_eq_false_iff, decide_eq_false_iff_not]
    omega
  have hrange : ((start : Int) ≤ edit.stop && edit.start ≤ (stop : Int) - 1) = false := by
    simp only [Bool.and_eq_false_iff, decide_eq_false_iff_not]
    omega
  simp only [MayClaim, EditList.covers_append, EditList.overlaps_append, hstart, hstop, hrange,
    Bool.or_false, and_self]

/-- One of several statements that share no character is refused when one of them is blocked. -/
theorem claimAll_error_of_blocked (draft : Draft) (founds : List (Text.Match Hoisted))
    (hseparate : Separate founds)
    (hblocked : ∃ found ∈ founds, draft.Blocked found) :
    ∃ range, (draft.claimAll founds).1.error = some (.overlap range) := by
  induction founds generalizing draft with
  | nil => simp at hblocked
  | cons found rest ih =>
    obtain ⟨-, hlater, hrest⟩ := hseparate.of_cons
    rcases draft.claim_cases found.start found.stop with ⟨hmay, hskip⟩ | ⟨-, -, hrefused⟩ |
      ⟨hmay, hfree, hclaimed⟩
    · -- the statement is passed over, so it is another one that is blocked
      simp only [claimAll, hskip]
      refine ih draft hrest ?_
      obtain ⟨other, hother, hblocked⟩ := hblocked
      rcases List.mem_cons.mp hother with rfl | hother
      · exact absurd hblocked.1 hmay
      · exact ⟨other, hother, hblocked⟩
    · simp only [claimAll, hrefused]
      exact ⟨_, rfl⟩
    · simp only [claimAll, hclaimed]
      refine ih _ hrest ?_
      obtain ⟨other, hother, hblocked⟩ := hblocked
      rcases List.mem_cons.mp hother with rfl | hother
      · rw [Blocked, hfree] at hblocked
        exact absurd hblocked.2 Bool.false_ne_true
      · have hbefore : (draft.markerEdit found.start found.stop).stop < other.start := by
          have := hlater other hother
          simp only [markerEdit]
          omega
        obtain ⟨hmay', hoverlaps⟩ :=
          claimable_append_of_before draft hbefore (hrest.1 other hother)
        exact ⟨other, hother, hmay'.mpr hblocked.1, hoverlaps ▸ hblocked.2⟩

/-- The edits for those of several statements that may be claimed. -/
def claimEdits (draft : Draft) (founds : List (Text.Match Hoisted)) : EditList :=
  (founds.filter fun found => draft.MayClaim found.start found.stop).map
    fun found => draft.markerEdit found.start found.stop

/-- Where none of several statements that share no character is blocked, just those that may be
claimed are claimed. -/
theorem claimAll_of_free (draft : Draft) (founds : List (Text.Match Hoisted))
    (hseparate : Separate founds)
    (hfree : ∀ found ∈ founds, ¬ draft.Blocked found) :
    (draft.claimAll founds).1 =
      ⟨{ draft with edits := draft.edits ++ draft.claimEdits founds }, none⟩ := by
  induction founds generalizing draft with
  | nil => simp [claimAll, claimEdits]
  | cons found rest ih =>
    obtain ⟨-, hlater, hrest⟩ := hseparate.of_cons
    obtain ⟨hnot, hfree'⟩ := List.forall_mem_cons.mp hfree
    rcases draft.claim_cases found.start found.stop with ⟨hmay, hskip⟩ | ⟨hmay, hoverlaps, -⟩ |
      ⟨hmay, -, hclaimed⟩
    · simp only [claimAll, hskip]
      rw [ih draft hrest hfree', claimEdits, claimEdits,
        List.filter_cons_of_neg (by simpa using hmay)]
    · exact absurd ⟨hmay, hoverlaps⟩ hnot
    · -- the statements that follow start after the new edit, which changes nothing for them
      have hbefore (other : Text.Match Hoisted) (hother : other ∈ rest) :
          (draft.markerEdit found.start found.stop).stop < other.start := by
        have := hlater other hother
        simp only [markerEdit]
        omega
      have hsame (other : Text.Match Hoisted) (hother : other ∈ rest) :=
        claimable_append_of_before draft (hbefore other hother) (hrest.1 other hother)
      have hnext := ih { draft with edits := draft.edits ++ [draft.markerEdit found.start found.stop] }
        hrest fun other hother hblocked => hfree' other hother
          ⟨(hsame other hother).1.mp hblocked.1, (hsame other hother).2 ▸ hblocked.2⟩
      have hedits : claimEdits { draft with
            edits := draft.edits ++ [draft.markerEdit found.start found.stop] } rest =
          draft.claimEdits rest :=
        congrArg (List.map fun other : Text.Match Hoisted => draft.markerEdit other.start other.stop)
          (List.filter_congr fun other hother => decide_eq_decide.mpr (hsame other hother).1)
      have hcons : draft.claimEdits (found :: rest) =
          draft.markerEdit found.start found.stop :: draft.claimEdits rest := by
        rw [claimEdits, List.filter_cons_of_pos (by simpa using hmay), List.map_cons, claimEdits]
      simp only [claimAll, hclaimed]
      rw [hnext, hedits, hcons, List.append_assoc, List.singleton_append]

/-- Claiming goes through one list of statements and then the next. -/
theorem claimAll_append (draft : Draft) (founds later : List (Text.Match Hoisted)) :
    (draft.claimAll (founds ++ later)).1 =
      (draft.claimAll founds).1.andThen fun next => (next.claimAll later).1 := by
  induction founds generalizing draft with
  | nil => rfl
  | cons found rest ih =>
    simp only [List.cons_append, claimAll]
    split
    · next error herror => simp only [Outcome.andThen, herror]
    · exact ih _

/-! ## Imports inside imports -/

/-- What a statement that is blocked looks like: its ends are free and an edit lies between them. -/
theorem blocked_iff {draft : Draft} {found : Text.Match Hoisted}
    (hordered : ∀ edit ∈ draft.edits, edit.start ≤ edit.stop) :
    draft.Blocked found ↔ draft.MayClaim found.start found.stop ∧
      ∃ edit ∈ draft.edits, (found.start : Int) < edit.start ∧ edit.stop < (found.stop : Int) - 1 := by
  refine and_congr_right fun hmay => ?_
  rw [EditList.overlaps_eq_true]
  have hstart := EditList.covers_eq_false.mp hmay.2.1
  have hstop := EditList.covers_eq_false.mp hmay.2.2
  constructor
  · rintro ⟨edit, hedit, hmeets⟩
    have := hstart edit hedit
    have := hstop edit hedit
    exact ⟨edit, hedit, by omega, by omega⟩
  · rintro ⟨edit, hedit, hinside⟩
    have := hordered edit hedit
    exact ⟨edit, hedit, by omega, by omega⟩

/-- The edits of claimed statements are those of the statements that may be claimed. -/
theorem mem_claimEdits {draft : Draft} {founds : List (Text.Match Hoisted)} {edit : Edit} :
    edit ∈ draft.claimEdits founds ↔ ∃ found ∈ founds, draft.MayClaim found.start found.stop ∧
      edit = draft.markerEdit found.start found.stop := by
  simp only [claimEdits, List.mem_map, List.mem_filter, decide_eq_true_eq]
  constructor
  · rintro ⟨found, ⟨hfound, hmay⟩, rfl⟩
    exact ⟨found, hfound, hmay, rfl⟩
  · rintro ⟨found, hfound, hmay, rfl⟩
    exact ⟨found, ⟨hfound, hmay⟩, rfl⟩

end Draft

/-- The text from `inner` on lies inside the one from `outer` on, up to its last character. -/
theorem quoteCount_le_of_inside {source taken left taken' left' : Text} {outer inner : Nat}
    (hshape : source.drop outer = taken ++ left) (hshape' : source.drop inner = taken' ++ left')
    (hle : outer ≤ inner) (hinside : inner + taken'.length < outer + taken.length) :
    quoteCount taken' ≤ quoteCount taken.dropLast := by
  have htaken : taken.dropLast = (source.drop outer).take (taken.length - 1) := by
    rw [hshape, List.take_append_of_le_length (by omega), List.dropLast_eq_take]
  have htaken' : taken' = (taken.dropLast.drop (inner - outer)).take taken'.length := by
    rw [htaken, List.drop_take, List.take_take, List.drop_drop, Nat.add_sub_cancel' hle, hshape',
      Nat.min_eq_left (by omega), List.take_left]
  rw [htaken']
  exact ((List.take_sublist _ _).trans (List.drop_sublist _ _)).countP_le

/-- The edit covers a text that holds two quotes or more. -/
def Edit.CoversQuotes (source : Text) (edit : Edit) : Prop :=
  ∃ (start : Nat) (taken left : Text), source.drop start = taken ++ left ∧ edit.start = start ∧
    edit.stop = start + taken.length - 1 ∧ 2 ≤ quoteCount taken

/-- An edit that covers quotes ends after it starts. -/
theorem Edit.CoversQuotes.ordered {source : Text} {edit : Edit} (h : edit.CoversQuotes source) :
    edit.start ≤ edit.stop := by
  obtain ⟨start, taken, left, -, hstart, hstop, hquotes⟩ := h
  have hlength : quoteCount taken ≤ taken.length := List.countP_le_length
  omega

/-- No default import reaches over an edit that covers two quotes. -/
theorem not_inside_default {source : Text} {found : Text.Match (Text × Text)}
    (hfound : found ∈ defaultMatches source) {edit : Edit} (hedit : edit.CoversQuotes source) :
    ¬ ((found.start : Int) < edit.start ∧ edit.stop < (found.stop : Int) - 1) := by
  rintro ⟨hstart, hstop⟩
  obtain ⟨taken, left, hshape, hextent, hform⟩ := Text.exists_form_of_mem_findAll
    (fun value taken => Reader.DefaultForm value.1 value.2 taken)
    (fun _ _ _ h => Reader.defaultImport_eq_some.mp h) hfound
  obtain ⟨inner, taken', left', hshape', hinner, hinner', hquotes⟩ := hedit
  have hcount := quoteCount_le_of_inside hshape hshape' (by omega) (by omega)
  have hone := hform.quotes.2
  omega

/-- Some named import in code reaches over an import of a component file in code, and neither end
of the named import lies in such an import. -/
def Entangled (ending source : Text) : Prop :=
  ∃ outer ∈ namedMatches source, (Scan.ofText source).isCode outer.start ∧
    (∀ other ∈ componentMatches ending source, (Scan.ofText source).isCode other.start →
      ¬ (other.start ≤ outer.start ∧ outer.start < other.stop) ∧
      ¬ (other.start < outer.stop ∧ outer.stop ≤ other.stop)) ∧
    ∃ inner ∈ componentMatches ending source, (Scan.ofText source).isCode inner.start ∧
      outer.start < inner.start ∧ inner.stop < outer.stop

instance (ending source : Text) : Decidable (Entangled ending source) :=
  inferInstanceAs (Decidable (∃ outer ∈ namedMatches source, _ ∧ _ ∧ _))

namespace Draft

variable {draft : Draft}

/-- The edits of claimed matches of one search cover two quotes or more. -/
theorem coversQuotes_of_mem_claimEdits (draft : Draft) {reader : Reader (Text × Text)}
    (hquotes : ∀ t value left, reader t = some (value, left) →
      ∃ taken, t = taken ++ left ∧ 2 ≤ quoteCount taken) {hoist : Text × Text → Hoisted} {edit : Edit}
    (hedit : edit ∈ draft.claimEdits
      ((Text.findAll Text.outsideMember reader draft.source).map (hoistedAs hoist))) :
    edit.CoversQuotes draft.source := by
  obtain ⟨found, hfound, -, rfl⟩ := mem_claimEdits.mp hedit
  obtain ⟨raw, hraw, rfl⟩ := List.mem_map.mp hfound
  obtain ⟨taken, left, hshape, hextent, hcount⟩ :=
    Text.exists_form_of_mem_findAll (fun _ taken => 2 ≤ quoteCount taken) hquotes hraw
  exact ⟨raw.start, taken, left, hshape, rfl, by simp only [markerEdit, hoistedAs, hextent]; omega,
    hcount⟩

/-- The draft after the imports of component files have been claimed. -/
def afterComponents (draft : Draft) : Draft :=
  { draft with edits := draft.edits ++
      draft.claimEdits (componentStatements draft.settings.componentExtension draft.source) }

/-- On a draft without edits all imports of component files in code are claimed, and no more. -/
theorem mem_edits_afterComponents (hedits : draft.edits = []) {edit : Edit} :
    edit ∈ draft.afterComponents.edits ↔
      ∃ found ∈ componentMatches draft.settings.componentExtension draft.source,
        draft.scan.isCode found.start ∧ edit = draft.markerEdit found.start found.stop := by
  have hmay (start stop : Nat) : draft.MayClaim start stop ↔ draft.scan.isCode start := by
    simp [MayClaim, hedits, EditList.covers]
  simp only [afterComponents, hedits, List.nil_append, mem_claimEdits, componentStatements,
    List.mem_map, hmay]
  constructor
  · rintro ⟨_, ⟨found, hfound, rfl⟩, hcode, rfl⟩
    exact ⟨found, hfound, hcode, rfl⟩
  · rintro ⟨found, hfound, hcode, rfl⟩
    exact ⟨_, ⟨found, hfound, rfl⟩, hcode, rfl⟩

/-- A named import is blocked by the imports of component files just when it is entangled. -/
theorem exists_blocked_iff (hedits : draft.edits = [])
    (hscan : draft.scan = Scan.ofText draft.source) :
    (∃ found ∈ namedStatements draft.source, draft.afterComponents.Blocked found) ↔
      Entangled draft.settings.componentExtension draft.source := by
  have hordered : ∀ edit ∈ draft.afterComponents.edits, edit.start ≤ edit.stop := by
    intro edit hedit
    obtain ⟨found, hfound, -, rfl⟩ := (mem_edits_afterComponents hedits).mp hedit
    have hbounds := findAll_bounds (fun _ _ _ => Reader.componentImport_quotes) hfound
    simp only [markerEdit]
    omega
  constructor
  · rintro ⟨_, hfound, hblocked⟩
    obtain ⟨outer, houter, rfl⟩ := List.mem_map.mp hfound
    obtain ⟨⟨hcode, hstart, hstop⟩, edit, hedit, hinside⟩ := (blocked_iff hordered).mp hblocked
    obtain ⟨inner, hinner, hcode', rfl⟩ := (mem_edits_afterComponents hedits).mp hedit
    simp only [markerEdit, hoistedAs] at hinside
    refine ⟨outer, houter, hscan ▸ hcode, fun other hother hcode'' => ?_, inner, hinner,
      hscan ▸ hcode', by omega, by omega⟩
    have hmem := (mem_edits_afterComponents hedits).mpr ⟨other, hother, hscan ▸ hcode'', rfl⟩
    have hstart' := EditList.covers_eq_false.mp hstart _ hmem
    have hstop' := EditList.covers_eq_false.mp hstop _ hmem
    simp only [markerEdit, hoistedAs] at hstart' hstop'
    omega
  · rintro ⟨outer, houter, hcode, hends, inner, hinner, hcode', hinside⟩
    have hfree (offset : Int)
        (hoffset : ∀ other ∈ componentMatches draft.settings.componentExtension draft.source,
          (Scan.ofText draft.source).isCode other.start →
            ¬ (other.start ≤ offset ∧ offset < other.stop)) :
        draft.afterComponents.edits.covers offset = false := by
      refine EditList.covers_eq_false.mpr fun edit hedit => ?_
      obtain ⟨other, hother, hcode'', rfl⟩ := (mem_edits_afterComponents hedits).mp hedit
      have := hoffset other hother (hscan ▸ hcode'')
      simp only [markerEdit]
      omega
    have hmem := (mem_edits_afterComponents hedits).mpr ⟨inner, hinner, hscan ▸ hcode', rfl⟩
    have hmay : draft.afterComponents.MayClaim outer.start outer.stop := by
      refine ⟨hscan ▸ hcode, hfree _ fun other hother hcode'' => ?_, hfree _ fun other hother hcode'' => ?_⟩
      · have := (hends other hother hcode'').1
        omega
      · have := (hends other hother hcode'').2
        omega
    refine ⟨_, List.mem_map.mpr ⟨outer, houter, rfl⟩, (blocked_iff hordered).mpr ⟨hmay, _, hmem, ?_⟩⟩
    simp only [markerEdit, hoistedAs]
    omega

/-- The draft after the named imports have been claimed as well. -/
def afterNamed (draft : Draft) : Draft :=
  { draft.afterComponents with edits := draft.afterComponents.edits ++
      draft.afterComponents.claimEdits (namedStatements draft.source) }

/-- The draft after all imports have been claimed. -/
def afterImports (draft : Draft) : Draft :=
  { draft.afterNamed with edits := draft.afterNamed.edits ++
      draft.afterNamed.claimEdits (defaultStatements draft.source) }

/-- On a draft without edits all imports of component files that may be claimed are. -/
theorem claimAll_components (hedits : draft.edits = []) :
    (draft.claimAll (componentStatements draft.settings.componentExtension draft.source)).1 =
      ⟨draft.afterComponents, none⟩ := by
  refine claimAll_of_free draft _
    (separate_hoistedAs (fun _ _ _ => Reader.componentImport_quotes) _ _) fun found _ hblocked => ?_
  simp [Blocked, hedits, EditList.overlaps] at hblocked

/-- On a draft without edits the imports of a script that are not entangled are claimed as far as they
may be. -/
theorem claimAll_of_not_entangled (hedits : draft.edits = [])
    (hscan : draft.scan = Scan.ofText draft.source)
    (h : ¬ Entangled draft.settings.componentExtension draft.source) :
    (draft.claimAll (importMatches draft.settings.componentExtension draft.source)).1 =
      ⟨draft.afterImports, none⟩ := by
  have hnamed : (draft.afterComponents.claimAll (namedStatements draft.source)).1 =
      ⟨draft.afterNamed, none⟩ :=
    claimAll_of_free draft.afterComponents _
      (separate_hoistedAs (fun _ _ _ => Reader.namedImport_quotes) _ _) fun found hfound hblocked =>
        h ((exists_blocked_iff hedits hscan).mp ⟨found, hfound, hblocked⟩)
  have hquotes : ∀ edit ∈ draft.afterNamed.edits, edit.CoversQuotes draft.source := by
    intro edit hedit
    rcases List.mem_append.mp hedit with hedit | hedit
    · rw [afterComponents, hedits] at hedit
      exact coversQuotes_of_mem_claimEdits draft (fun _ _ _ => Reader.componentImport_quotes) hedit
    · exact coversQuotes_of_mem_claimEdits draft.afterComponents
        (fun _ _ _ => Reader.namedImport_quotes) hedit
  have hdefault : (draft.afterNamed.claimAll (defaultStatements draft.source)).1 =
      ⟨draft.afterImports, none⟩ := by
    refine claimAll_of_free draft.afterNamed _
      (separate_hoistedAs (fun _ _ _ => Reader.defaultImport_quotes) _ _) fun found hfound hblocked => ?_
    obtain ⟨raw, hraw, rfl⟩ := List.mem_map.mp hfound
    obtain ⟨-, edit, hedit, hinside⟩ :=
      (blocked_iff fun edit hedit => (hquotes edit hedit).ordered).mp hblocked
    exact not_inside_default hraw (hquotes edit hedit) hinside
  rw [importMatches_eq, claimAll_append, claimAll_append, claimAll_components hedits]
  simp only [Outcome.andThen, hnamed, hdefault]

/-- On a draft without edits an import statement is refused just when imports are entangled. -/
theorem claimAll_refused_iff (hedits : draft.edits = [])
    (hscan : draft.scan = Scan.ofText draft.source) :
    (∃ range, (draft.claimAll (importMatches draft.settings.componentExtension draft.source)).1.error =
        some (.overlap range)) ↔ Entangled draft.settings.componentExtension draft.source := by
  by_cases hentangled : Entangled draft.settings.componentExtension draft.source
  · obtain ⟨range, hrefused⟩ := claimAll_error_of_blocked draft.afterComponents
      (namedStatements draft.source) (separate_hoistedAs (fun _ _ _ => Reader.namedImport_quotes) _ _)
      ((exists_blocked_iff hedits hscan).mpr hentangled)
    refine iff_of_true ⟨range, ?_⟩ hentangled
    rw [importMatches_eq, claimAll_append, claimAll_append, claimAll_components hedits]
    simp only [Outcome.andThen, hrefused]
  · rw [claimAll_of_not_entangled hedits hscan hentangled]
    simp [hentangled]

/-- On a draft without edits hoisting is refused an edit just when imports are entangled. -/
theorem hoistImports_refused_iff (draft : Draft) (hedits : draft.edits = [])
    (hscan : draft.scan = Scan.ofText draft.source) :
    (∃ range, draft.hoistImports.error = some (.overlap range)) ↔
      Entangled draft.settings.componentExtension draft.source := by
  rw [← claimAll_refused_iff hedits hscan]
  have herror : draft.hoistImports.error =
      (draft.claimAll (importMatches draft.settings.componentExtension draft.source)).1.error := by
    simp only [hoistImports, Outcome.andThen]
    split
    · rfl
    · next herror => exact herror.symm
  rw [herror]

/-! ## The whole compilation -/

/-- Expansions that each keep a draft sound do so one after the other. -/
theorem kept_runAll {registry : MacroRegistry} (h : draft.Sound)
    (hregistry : ∀ spec ∈ registry, ∀ draft : Draft, draft.Sound → Kept draft (spec.expand draft)) :
    Kept draft (draft.runAll registry) := by
  induction registry generalizing draft with
  | nil => exact .of_quiet h (Quiet.refl draft)
  | cons spec rest ih =>
    obtain ⟨hspec, hrest⟩ := List.forall_mem_cons.mp hregistry
    exact (hspec draft h).andThen fun next _ hnext => ih hnext hrest

/-- The built-in expansions keep a draft sound. -/
theorem kept_builtin (h : draft.Sound) : Kept draft (draft.runAll MacroRegistry.builtin) := by
  refine kept_runAll h fun spec hspec draft hdraft => ?_
  simp only [MacroRegistry.builtin, List.mem_cons, List.not_mem_nil, or_false] at hspec
  rcases hspec with rfl | rfl | rfl | rfl
  · exact kept_expansion hdraft .defaults rfl
  · exact kept_expansion hdraft .props rfl
  · exact kept_expansion hdraft .emits rfl
  · exact kept_expansion hdraft .expose rfl

end Draft

/-- The script calls a macro that is not supported. -/
def CallsUnsupported (source : Text) : Prop :=
  ∃ kind ∈ MacroKind.all, kind.isSupported = false ∧ (Scan.ofText source).callOffsets kind.name ≠ []

instance (source : Text) : Decidable (CallsUnsupported source) :=
  inferInstanceAs (Decidable (∃ kind ∈ MacroKind.all, _ ∧ _))

/-- A name that is called somewhere is found from the start of the text on. -/
theorem Scan.isSome_findCall?_zero (scan : Scan) (name : Text) :
    (scan.findCall? name 0).isSome ↔ scan.callOffsets name ≠ [] := by
  cases h : scan.callOffsets name with
  | nil => simp [findCall?, h]
  | cons p rest => simp [findCall?, h]

/-- A script is refused for an unsupported macro just when it calls one. -/
theorem Draft.refuseUnsupported_cases (draft : Draft) (hscan : draft.scan = Scan.ofText draft.source) :
    (CallsUnsupported draft.source ∧ ∃ kind, kind.isSupported = false ∧
      draft.refuseUnsupported.error = some (.unsupported kind)) ∨
    ¬ CallsUnsupported draft.source ∧ draft.refuseUnsupported = ⟨draft, none⟩ := by
  unfold refuseUnsupported
  split
  · next kind hkind =>
    left
    have hcall := List.find?_some hkind
    simp only [Bool.and_eq_true, Bool.not_eq_true', Scan.isSome_findCall?_zero, hscan] at hcall
    exact ⟨⟨kind, List.mem_of_find?_eq_some hkind, hcall⟩, kind, hcall.1, rfl⟩
  · next hnone =>
    right
    refine ⟨fun ⟨kind, hmem, hunsupported, hcalls⟩ => ?_, rfl⟩
    have hnot := List.find?_eq_none.mp hnone kind hmem
    simp only [Bool.and_eq_true, Bool.not_eq_true', Scan.isSome_findCall?_zero, hscan] at hnot
    exact hnot ⟨hunsupported, hcalls⟩

/-- A fresh draft whose compilation has been announced. -/
def Draft.announced (settings : Settings) (source : Text) (name : Option Text)
    (strict : Option Bool) : Draft :=
  let fresh := Draft.start settings source name strict
  fresh.note 2 ("Compiling setup script for " ++ fresh.componentName ++ " (" ++
    Text.ofNat source.length ++ " chars)")

/-- What the passes of a compilation leave: the draft, and the error that ended them, if one did. -/
def expandScript (settings : Settings) (source : Text) (name : Option Text) (strict : Option Bool) :
    Outcome :=
  ((Draft.announced settings source name strict).refuseUnsupported.andThen
    Draft.hoistImports).andThen (·.runAll MacroRegistry.builtin)

/-- A step that goes on without an error has had none before. -/
theorem Outcome.andThen_of_ok {outcome : Outcome} {step : Draft → Outcome}
    (h : (outcome.andThen step).error = none) :
    outcome.error = none ∧ outcome.andThen step = step outcome.draft := by
  unfold Outcome.andThen at h ⊢
  split at h
  · next herror =>
    rw [herror] at h
    cases h
  · next herror => exact ⟨herror, rfl⟩

section Compilation

variable (settings : Settings) (source : Text) (name : Option Text) (strict : Option Bool)

/-- A compilation gives the error of its passes, or else writes the module of their draft. -/
theorem compileScript_value :
    (compileScript settings source name strict).value =
      match (expandScript settings source name strict).error with
      | some error => .error error
      | none => .ok (expandScript settings source name strict).draft.finish.1 := by
  have hcompile : (compileScript settings source name strict).value =
      ((Draft.start settings source name strict).compile MacroRegistry.builtin).1 := rfl
  rw [hcompile, Draft.compile]
  change (match (expandScript settings source name strict).error with
    | some error => ((.error error, _) : Except CompileError Output × Draft)
    | none => (.ok (expandScript settings source name strict).draft.finish.1, _)).1 = _
  split
  · rfl
  · rfl

/-- The passes of a compilation keep the draft sound, and fail on an unsupported macro, on an import
inside another, or on a repeated declaration in strict mode. -/
theorem expandScript_cases :
    (CallsUnsupported source ∧ ∃ kind, kind.isSupported = false ∧
      (expandScript settings source name strict).error = some (.unsupported kind)) ∨
    (¬ CallsUnsupported source ∧ Entangled settings.componentExtension source ∧
      ∃ range, (expandScript settings source name strict).error = some (.overlap range)) ∨
    ¬ CallsUnsupported source ∧ ¬ Entangled settings.componentExtension source ∧
      Draft.SameScript (Draft.start settings source name strict)
        (expandScript settings source name strict).draft ∧
      (expandScript settings source name strict).draft.Sound ∧
      ((expandScript settings source name strict).error = none ∨
        strict.getD settings.strictMode = true ∧ ∃ kind position,
          (expandScript settings source name strict).error = some (.duplicate kind position)) := by
  let started := Draft.announced settings source name strict
  have hquiet : Draft.Quiet (Draft.start settings source name strict) started :=
    Draft.quiet_note _ _ _
  have hsound : started.Sound := (Draft.sound_start settings source name strict).of_quiet hquiet
  rcases started.refuseUnsupported_cases rfl with
    ⟨hcalls, kind, hkind, herror⟩ | ⟨hcalls, hsupported⟩
  · refine .inl ⟨hcalls, kind, hkind, ?_⟩
    have hrun : expandScript settings source name strict =
      (started.refuseUnsupported.andThen Draft.hoistImports).andThen
        (·.runAll MacroRegistry.builtin) := rfl
    simp only [hrun, Outcome.andThen, herror]
  right
  have hhoisted : expandScript settings source name strict =
      started.hoistImports.andThen (·.runAll MacroRegistry.builtin) := by
    rw [expandScript, hsupported]
    rfl
  have hrefused := started.hoistImports_refused_iff rfl rfl
  rw [hhoisted]
  by_cases hentangled : Entangled settings.componentExtension source
  · obtain ⟨range, herror⟩ := hrefused.mpr hentangled
    refine .inl ⟨hcalls, hentangled, range, ?_⟩
    simp only [Outcome.andThen, herror]
  · rcases Draft.hoistImports_cases hsound with hoverlap | ⟨herror, hsame, hsound'⟩
    · exact absurd (hrefused.mp hoverlap) hentangled
    · have hkept := Draft.kept_builtin hsound'
      have hscript := hquiet.toSameScript.trans hsame
      have hstrict : started.hoistImports.draft.strict = strict.getD settings.strictMode :=
        hscript.strict
      have hlast := hkept.error
      rw [hstrict] at hlast
      simp only [Outcome.andThen, herror]
      exact .inr ⟨hcalls, hentangled, hscript.trans hkept.same, hkept.sound, hlast⟩

/-- Passes that end without an error hoist the imports of the script and then expand its macros. -/
theorem expandScript_of_ok (h : (expandScript settings source name strict).error = none) :
    (Draft.announced settings source name strict).hoistImports.error = none ∧
      expandScript settings source name strict =
        (Draft.announced settings source name strict).hoistImports.draft.runAll
          MacroRegistry.builtin := by
  obtain ⟨hhoisted, hrun⟩ := Outcome.andThen_of_ok h
  obtain ⟨hsupported, hhoist⟩ := Outcome.andThen_of_ok hhoisted
  rcases (Draft.announced settings source name strict).refuseUnsupported_cases rfl with
    ⟨-, kind, -, herror⟩ | ⟨-, hrefuse⟩
  · rw [hsupported] at herror
    cases herror
  · rw [hhoist, hrefuse] at hhoisted
    refine ⟨hhoisted, ?_⟩
    rw [expandScript, hrun, hhoist, hrefuse]

/-- A compilation gives an output, or fails on an unsupported macro, or in strict mode on a repeated
declaration, just when the script calls an unsupported macro or no named import in it reaches over
an import of a component file. In the remaining case an edit is refused. -/
theorem compile_contract_iff_not_entangled :
    (((∃ output, (compileScript settings source name strict).value = .ok output) ∨
      (∃ kind, kind.isSupported = false ∧
        (compileScript settings source name strict).value = .error (.unsupported kind)) ∨
      strict.getD settings.strictMode = true ∧ ∃ kind position,
        (compileScript settings source name strict).value = .error (.duplicate kind position)) ↔
      CallsUnsupported source ∨ ¬ Entangled settings.componentExtension source) ∧
    ((∃ range, (compileScript settings source name strict).value = .error (.overlap range)) ↔
      ¬ CallsUnsupported source ∧ Entangled settings.componentExtension source) := by
  rw [compileScript_value]
  rcases expandScript_cases settings source name strict with
    ⟨hcalls, kind, hkind, herror⟩ | ⟨hcalls, hentangled, range, herror⟩ |
      ⟨hcalls, hentangled, -, -, herror | ⟨hstrict, kind, position, herror⟩⟩
  · rw [herror]
    simp [hcalls, hkind]
  · rw [herror]
    simp [hcalls, hentangled]
  · rw [herror]
    simp [hcalls, hentangled]
  · rw [herror]
    simp [hcalls, hentangled, hstrict]

end Compilation

/-- The list of a named import that was never closed reaches over the import after it. -/
theorem compile_refused_of_open_list :
    ∃ range, (compileScript {} "import \x7b\nimport X from './x.vue'\nimport \x7b b \x7d from 'c'" none
      none).value = .error (.overlap range) := by
  have hrefused : (match (compileScript {}
      "import \x7b\nimport X from './x.vue'\nimport \x7b b \x7d from 'c'" none none).value with
    | .error (.overlap _) => true
    | _ => false) = true := by decide +kernel
  split at hrefused
  · next range hvalue => exact ⟨range, hvalue⟩
  · cases hrefused

/-- A script with an open list, an import inside it and an open call, in which no list is closed. -/
theorem compile_contract_of_unclosed_list :
    ¬ Entangled ".vue" "import \x7b import X from './x.vue'; defineProps(" ∧
    ((∃ output, (compileScript {} "import \x7b import X from './x.vue'; defineProps(" none
        (some true)).value = .ok output) ∨
      (∃ kind, kind.isSupported = false ∧ (compileScript {}
        "import \x7b import X from './x.vue'; defineProps(" none (some true)).value =
          .error (.unsupported kind)) ∨
      (some true).getD false = true ∧ ∃ kind position, (compileScript {}
        "import \x7b import X from './x.vue'; defineProps(" none (some true)).value =
          .error (.duplicate kind position)) := by
  have hfree : ¬ Entangled ".vue" "import \x7b import X from './x.vue'; defineProps(" := by
    decide +kernel
  exact ⟨hfree, (compile_contract_iff_not_entangled {}
    "import \x7b import X from './x.vue'; defineProps(" none (some true)).1.mpr (.inr hfree)⟩

end SetupScript
