import SetupScript.Proofs.ExpansionRuns
import SetupScript.Proofs.Recompilation

/-!
# Declarations that are repeated

A macro that declares something may be called once. The pass of the macro looks at the calls that no
edit has taken: it works on the first of them, and reports the next one after its end. In strict mode
the report is an error. Calls inside a rewritten `withDefaults` call have been taken, so two of them are
never seen together; what is seen is that there is a definition already, when a call outside is left.
-/

namespace SetupScript

namespace Draft

variable {draft : Draft} {kind : MacroKind}

/-! ## What strict mode refuses -/

/-- The pass of the macro has a call to work on, and there is a definition already, or another call
that no edit has taken after the end of that call. -/
def Repeats (draft : Draft) (kind : MacroKind) : Prop :=
  ∃ index call, draft.firstCall? kind = some (index, call) ∧
    (kind = .defineProps ∧ draft.props.isSome ∨
      ∃ p ∈ draft.scan.callOffsets kind.name, call.stop < p ∧ draft.edits.covers p = false)

/-- A pass that has no call to work on finds no repetition. -/
theorem not_repeats_of_none (h : draft.firstCall? kind = none) : ¬ draft.Repeats kind := by
  rintro ⟨index, call, hfirst, -⟩
  rw [h] at hfirst
  cases hfirst

/-- For a pass that has a call to work on, the repetition is a definition or a call after its end. -/
theorem repeats_iff_of_some {index : Nat} {call : MacroCall}
    (h : draft.firstCall? kind = some (index, call)) :
    draft.Repeats kind ↔ kind = .defineProps ∧ draft.props.isSome ∨
      ∃ p ∈ draft.scan.callOffsets kind.name, call.stop < p ∧ draft.edits.covers p = false := by
  simp only [Repeats, h, Option.some.injEq, Prod.mk.injEq]
  constructor
  · rintro ⟨_, _, ⟨rfl, rfl⟩, hother⟩
    exact hother
  · exact fun hother => ⟨index, call, ⟨rfl, rfl⟩, hother⟩

/-- There is another call after an offset just when one is found. -/
theorem exists_later_iff (draft : Draft) (name : Text) (stop : Nat) :
    (∃ p ∈ draft.scan.callOffsets name, stop < p ∧ draft.edits.covers p = false) ↔
      draft.nextCall? name (stop + 1) ≠ none := by
  rw [ne_eq, nextCall?, List.find?_eq_none, not_forall]
  refine exists_congr fun p => ?_
  simp only [Bool.and_eq_true, decide_eq_true_eq, Bool.not_eq_true', Classical.not_imp, not_not]
  exact and_congr_right fun _ => and_congr_left fun _ => by omega

/-- In strict mode the `defineProps` pass goes on, or is refused because the declaration is repeated. -/
theorem expandProps_of_strict (hstrict : draft.strict = true) :
    (draft.expandProps.error = none ∧ ¬ draft.Repeats .defineProps) ∨
      (∃ position, draft.expandProps.error = some (.duplicate .defineProps position)) ∧
        draft.Repeats .defineProps := by
  rcases draft.expandProps_cases with ⟨hnone, _, hrun⟩ |
    ⟨index, call, hfirst, ⟨-, hsome, hrun⟩ | ⟨hmay, _, _, _, error, hrun, hnext⟩⟩
  · exact .inl ⟨by rw [hrun], not_repeats_of_none hnone⟩
  · exact .inr ⟨⟨index, by rw [hrun]⟩, (repeats_iff_of_some hfirst).mpr (.inl ⟨rfl, hsome⟩)⟩
  · rw [repeats_iff_of_some hfirst, exists_later_iff]
    rcases hnext with ⟨-, p, hp, rfl⟩ | ⟨hnone, rfl⟩
    · exact .inr ⟨⟨p, by rw [hrun]⟩, .inr (by simp [hp])⟩
    · refine .inl ⟨by rw [hrun], ?_⟩
      rintro (⟨-, hsome⟩ | hlater)
      · exact hmay ⟨hstrict, hsome⟩
      · exact hlater (hnone hstrict)

/-- In strict mode the `defineEmits` pass goes on, or is refused because the declaration is repeated. -/
theorem expandEmits_of_strict (hstrict : draft.strict = true) :
    (draft.expandEmits.error = none ∧ ¬ draft.Repeats .defineEmits) ∨
      (∃ position, draft.expandEmits.error = some (.duplicate .defineEmits position)) ∧
        draft.Repeats .defineEmits := by
  rcases draft.expandEmits_cases with ⟨hnone, _, hrun⟩ |
    ⟨index, call, hfirst, _, _, _, error, hrun, hnext⟩
  · exact .inl ⟨by rw [hrun], not_repeats_of_none hnone⟩
  · rw [repeats_iff_of_some hfirst, exists_later_iff]
    rcases hnext with ⟨-, p, hp, rfl⟩ | ⟨hnone, rfl⟩
    · exact .inr ⟨⟨p, by rw [hrun]⟩, .inr (by simp [hp])⟩
    · refine .inl ⟨by rw [hrun], ?_⟩
      rintro (⟨hkind, -⟩ | hlater)
      · cases hkind
      · exact hlater (hnone hstrict)

/-- The calls of the macro that no edit has taken. -/
def callsLeft (draft : Draft) (kind : MacroKind) : List Nat :=
  (draft.scan.callOffsets kind.name).filter fun p => !draft.edits.covers p

/-- The offsets of the calls that are left come in order. -/
theorem pairwise_callsLeft (draft : Draft) (kind : MacroKind) :
    (draft.callsLeft kind).Pairwise (· < ·) :=
  (pairwise_callOffsetsFrom kind.name none 0 draft.scan.cells).filter _

/-- The first call that is found is the first one that is left. -/
theorem head?_callsLeft (draft : Draft) (kind : MacroKind) :
    (draft.callsLeft kind).head? = draft.nextCall? kind.name 0 := by
  rw [callsLeft, List.head?_filter, nextCall?]
  simp

/-- A call that is left holds an edit. -/
def Encloses (draft : Draft) (kind : MacroKind) : Prop :=
  ∃ p ∈ draft.callsLeft kind, ∃ call ∈ (draft.scan.callAt p kind).toOption, draft.holdsEdit call

end Draft

/-- Each call of the macro is well formed and ends before the next one. -/
def Scan.Separate (scan : Scan) (kind : MacroKind) : Prop :=
  ∀ p ∈ scan.callOffsets kind.name, ∃ call ∈ (scan.callAt p kind).toOption,
    ∀ q ∈ scan.callOffsets kind.name, p < q → call.stop < q

instance (scan : Scan) (kind : MacroKind) : Decidable (scan.Separate kind) :=
  inferInstanceAs (Decidable (∀ p ∈ scan.callOffsets kind.name, _))

/-- A call that is read is what reading returns. -/
theorem mem_toOption_iff {result : Except MacroFault MacroCall} {call : MacroCall} :
    call ∈ result.toOption ↔ result = .ok call := by
  cases result with
  | error fault => simp [Except.toOption]
  | ok other => simp [Except.toOption]

namespace Draft

variable {draft : Draft} {kind : MacroKind}

/-- Where the calls of the macro are separate, and none of those left holds an edit, the declaration is
repeated just when two of them are left, or one where there is a definition already. -/
theorem repeats_iff_of_separate (hseparate : draft.scan.Separate kind)
    (hencloses : ¬ draft.Encloses kind) :
    draft.Repeats kind ↔
      kind = .defineProps ∧ draft.props.isSome ∧ 1 ≤ (draft.callsLeft kind).length ∨
        2 ≤ (draft.callsLeft kind).length := by
  have hhead := draft.head?_callsLeft kind
  have hsorted := draft.pairwise_callsLeft kind
  cases hleft : draft.callsLeft kind with
  | nil =>
    rw [hleft] at hhead
    refine iff_of_false ?_ (by simp)
    rintro ⟨index, call, hfirst, -⟩
    rw [(firstCall?_eq_some.mp hfirst).1] at hhead
    cases hhead
  | cons index rest =>
    rw [hleft] at hhead hsorted
    have hmem : ∀ p, p ∈ draft.callsLeft kind ↔
        p ∈ draft.scan.callOffsets kind.name ∧ draft.edits.covers p = false := by
      simp [callsLeft]
    have hindex : index ∈ draft.callsLeft kind := by simp [hleft]
    obtain ⟨call, hcall, hlater⟩ := hseparate index ((hmem index).mp hindex).1
    have hholds : draft.holdsEdit call = false :=
      Bool.eq_false_iff.mpr fun hholds => hencloses ⟨index, hindex, call, hcall, hholds⟩
    have hread := mem_toOption_iff.mp hcall
    have hbounds := (Scan.callAt_eq_ok ((hmem index).mp hindex).1 hread).2.2.bounds
    -- the calls after the end of the first one are the rest of those left
    have hrest : (∃ p ∈ draft.scan.callOffsets kind.name,
        call.stop < p ∧ draft.edits.covers p = false) ↔ rest ≠ [] := by
      constructor
      · rintro ⟨p, hp, hlt, hfree⟩ rfl
        have hleft' := (hmem p).mpr ⟨hp, hfree⟩
        rw [hleft, List.mem_singleton] at hleft'
        omega
      · intro hrest
        obtain ⟨q, tail, rfl⟩ := List.exists_cons_of_ne_nil hrest
        obtain ⟨hq, hfree⟩ := (hmem q).mp (by simp [hleft])
        have hlt : index < q := (List.pairwise_cons.mp hsorted).1 q (by simp)
        exact ⟨q, hq, hlater q hq hlt, hfree⟩
    rw [repeats_iff_of_some (firstCall?_eq_some.mpr ⟨hhead.symm, hread, hholds⟩), hrest,
      ← List.length_pos_iff]
    simp only [List.length_cons]
    exact or_congr (and_congr_right fun _ => by simp) (by omega)

variable {settings : Settings} {source : Text}

/-- The draft on which the pass of a declaring macro runs. -/
def declaring (settings : Settings) (source : Text) (name : Option Text) (strict : Option Bool) :
    MacroKind → Draft
  | .defineEmits => beforeEmits settings source name strict
  | _ => beforeProps settings source name strict

/-- Where no import is refused, it is a draft of the script. -/
theorem sameScript_declaring (name : Option Text) (strict : Option Bool)
    (h : ¬ Entangled settings.componentExtension source) (kind : MacroKind) :
    SameScript (Draft.start settings source name strict)
      (declaring settings source name strict kind) := by
  obtain ⟨⟨hprops, -⟩, hemits, -⟩ := stages_sound name strict h
  cases kind with
  | defineEmits => exact hemits
  | _ => exact hprops

/-- The expansion of a script is refused for a repeated declaration just when the pass of a declaring
macro finds one. -/
theorem expandScript_refused_iff (name : Option Text) (hsupported : ¬ CallsUnsupported source)
    (hentangled : ¬ Entangled settings.componentExtension source) :
    (∃ kind position,
      (expandScript settings source name (some true)).error = some (.duplicate kind position)) ↔
    ∃ kind ∈ [MacroKind.defineProps, .defineEmits],
      (declaring settings source name (some true) kind).Repeats kind := by
  have hprops := expandProps_of_strict
    (sameScript_declaring name (some true) hentangled .defineProps).strict
  have hemits := expandEmits_of_strict
    (sameScript_declaring name (some true) hentangled .defineEmits).strict
  rw [expandScript_stages name (some true) hsupported hentangled]
  simp only [Outcome.error_andThen, error_expandExpose, reduceCtorEq, and_false, or_false,
    List.mem_cons, List.not_mem_nil, exists_eq_or_imp, exists_eq_left]
  constructor
  · rintro ⟨kind, position, herror | ⟨-, herror⟩⟩
    · exact .inl (hprops.resolve_left fun h => by simp [declaring, herror] at h).2
    · exact .inr (hemits.resolve_left fun h => by simp [declaring, beforeEmits, herror] at h).2
  · rcases hprops with ⟨hnone, hnot⟩ | ⟨⟨position, herror⟩, -⟩
    · rintro (h | h)
      · exact absurd h hnot
      · obtain ⟨position, herror⟩ := (hemits.resolve_left fun h' => h'.2 h).1
        exact ⟨.defineEmits, position, .inr ⟨hnone, herror⟩⟩
    · exact fun _ => ⟨.defineProps, position, .inl herror⟩

/-- A strict compilation is refused for a repeated declaration just when no import is refused and a
declaration is repeated. -/
theorem strict_duplicate_iff (settings : Settings) (name : Option Text)
    (hsupported : ¬ CallsUnsupported source) :
    (∃ kind position,
      (compileScript settings source name (some true)).value = .error (.duplicate kind position)) ↔
    ¬ Entangled settings.componentExtension source ∧ ∃ kind ∈ [MacroKind.defineProps, .defineEmits],
      (declaring settings source name (some true) kind).Repeats kind := by
  simp only [compileScript_eq_error_iff]
  rcases expandScript_cases settings source name (some true) with ⟨hcalls, -⟩ |
    ⟨-, hentangled, range, hoverlap⟩ | ⟨-, hentangled, -⟩
  · exact absurd hcalls hsupported
  · simp [hoverlap, hentangled]
  · rw [expandScript_refused_iff name hsupported hentangled, and_iff_right hentangled]

/-- A strict compilation has an output just when no import is refused and no declaration is repeated. -/
theorem strict_output_iff (settings : Settings) (name : Option Text)
    (hsupported : ¬ CallsUnsupported source) :
    (∃ output, (compileScript settings source name (some true)).value = .ok output) ↔
    ¬ Entangled settings.componentExtension source ∧ ∀ kind ∈ [MacroKind.defineProps, .defineEmits],
      ¬ (declaring settings source name (some true) kind).Repeats kind := by
  rw [compileScript_ok_iff]
  rcases expandScript_cases settings source name (some true) with ⟨hcalls, -⟩ |
    ⟨-, hentangled, range, hoverlap⟩ | ⟨-, hentangled, -, -, hends⟩
  · exact absurd hcalls hsupported
  · simp [hoverlap, hentangled]
  · have hrepeats := expandScript_refused_iff name hsupported hentangled
    rw [and_iff_right hentangled]
    rcases hends with hnone | ⟨-, kind, position, herror⟩
    · refine iff_of_true hnone fun kind hkind hkindRepeats => ?_
      obtain ⟨_, _, herror⟩ := hrepeats.mpr ⟨kind, hkind, hkindRepeats⟩
      rw [hnone] at herror
      cases herror
    · obtain ⟨kind, hkind, hkindRepeats⟩ := hrepeats.mp ⟨kind, position, herror⟩
      exact iff_of_false (by simp [herror]) fun hnone => hnone kind hkind hkindRepeats

end Draft

/-- The macros whose passes come before that of a declaring macro. -/
def MacroKind.earlier : MacroKind → List MacroKind
  | .defineEmits => [.withDefaults, .defineProps]
  | _ => [.withDefaults]

/-- The calls of the macro stand apart from the import statements and from the calls of the macros whose
passes come before. -/
def StandsAlone (ending source : Text) (kind : MacroKind) : Prop :=
  ∀ p ∈ (Scan.ofText source).callOffsets kind.name,
    ∀ call ∈ ((Scan.ofText source).callAt p kind).toOption,
      (∀ found ∈ importMatches ending source, (Scan.ofText source).isCode found.start →
        found.stop ≤ p ∨ call.stop < found.start) ∧
      ∀ earlier ∈ kind.earlier, ∀ q ∈ (Scan.ofText source).callOffsets earlier.name,
        ∀ other ∈ ((Scan.ofText source).callAt q earlier).toOption, other.stop < p ∨ call.stop < q

instance (ending source : Text) (kind : MacroKind) : Decidable (StandsAlone ending source kind) :=
  inferInstanceAs (Decidable (∀ p ∈ (Scan.ofText source).callOffsets kind.name, _))

/-- The edit is that of an import statement in code, or that of a call of one of the macros. -/
inductive TakenBefore (ending source : Text) (kinds : List MacroKind) (edit : Edit) : Prop
  | statement {found : Text.Match Hoisted} (hfound : found ∈ importMatches ending source)
      (hcode : (Scan.ofText source).isCode found.start) (hstart : edit.start = found.start)
      (hstop : edit.stop = found.stop - 1)
  | call {kind : MacroKind} {p : Nat} {call : MacroCall} (hkind : kind ∈ kinds)
      (hp : p ∈ (Scan.ofText source).callOffsets kind.name)
      (hread : (Scan.ofText source).callAt p kind = .ok call) (hstart : edit.start = p)
      (hstop : edit.stop = call.stop)

namespace Draft

variable {settings : Settings} {source : Text} {name : Option Text} {strict : Option Bool}

/-- An edit of the draft on which the `defineProps` pass runs is that of an import statement in code or
that of a `withDefaults` call. -/
theorem takenBefore_beforeProps (kinds : List MacroKind) (hkinds : .withDefaults ∈ kinds)
    (h : ¬ Entangled settings.componentExtension source) {edit : Edit}
    (hedit : edit ∈ (beforeProps settings source name strict).edits) :
    TakenBefore settings.componentExtension source kinds edit := by
  obtain ⟨rewrites, journal, hvalid, -, -, hrun⟩ := beforeProps_run settings source name strict
  have hscan : (hoisted settings source name strict).scan = Scan.ofText source :=
    (hoisted_facts name strict h).2.1.scan
  rw [hrun] at hedit
  rcases List.mem_append.mp hedit with hedit | hedit
  · obtain ⟨found, hfound, hcode, hstart, hstop⟩ := exists_mem_of_mem_hoisted h hedit
    exact .statement hfound hcode hstart hstop
  · obtain ⟨rewrite, hrewrite, rfl⟩ := List.mem_map.mp hedit
    obtain ⟨hcalled, hread, -⟩ := hvalid rewrite hrewrite
    rw [hscan] at hcalled hread
    exact .call hkinds hcalled hread rfl rfl

/-- The `defineProps` pass makes at most the edit of the call that it works on. -/
theorem mem_edits_expandProps {draft : Draft} {edit : Edit}
    (hedit : edit ∈ draft.expandProps.draft.edits) :
    edit ∈ draft.edits ∨ ∃ index call, draft.firstCall? .defineProps = some (index, call) ∧
      edit.start = index ∧ edit.stop = call.stop := by
  rcases draft.expandProps_cases with ⟨-, _, hrun⟩ |
    ⟨index, call, hfirst, ⟨-, -, hrun⟩ | ⟨-, _, _, _, _, hrun, -⟩⟩
  · rw [hrun] at hedit
    exact .inl hedit
  · rw [hrun] at hedit
    exact .inl hedit
  · rw [hrun] at hedit
    refine (List.mem_append.mp hedit).imp id fun hlast => ?_
    obtain rfl := List.mem_singleton.mp hlast
    exact ⟨index, call, hfirst, rfl, rfl⟩

/-- An edit of the draft on which the `defineEmits` pass runs is that of an import statement in code or
that of a call of one of the other two macros. -/
theorem takenBefore_beforeEmits (kinds : List MacroKind) (hkinds : .withDefaults ∈ kinds)
    (hkinds' : .defineProps ∈ kinds) (h : ¬ Entangled settings.componentExtension source) {edit : Edit}
    (hedit : edit ∈ (beforeEmits settings source name strict).edits) :
    TakenBefore settings.componentExtension source kinds edit := by
  have hscan : (beforeProps settings source name strict).scan = Scan.ofText source :=
    (stages_sound name strict h).1.1.scan
  rw [beforeEmits] at hedit
  rcases mem_edits_expandProps hedit with hearlier | ⟨index, call, hfirst, hstart, hstop⟩
  · exact takenBefore_beforeProps kinds hkinds h hearlier
  · obtain ⟨hnext, hread, -⟩ := firstCall?_eq_some.mp hfirst
    have hcalled := (of_nextCall? hnext).1
    rw [hscan] at hcalled hread
    exact .call hkinds' hcalled hread hstart hstop

/-- An edit of the draft on which the pass of a declaring macro runs was made before. -/
theorem takenBefore_declaring (h : ¬ Entangled settings.componentExtension source) {kind : MacroKind}
    {edit : Edit} (hedit : edit ∈ (declaring settings source name strict kind).edits) :
    TakenBefore settings.componentExtension source kind.earlier edit := by
  cases kind with
  | defineEmits =>
    exact takenBefore_beforeEmits _ (by simp [MacroKind.earlier]) (by simp [MacroKind.earlier]) h hedit
  | _ => exact takenBefore_beforeProps _ (by simp [MacroKind.earlier]) h hedit

/-- A call that stands alone is apart from the edits that were made before the pass. -/
theorem apart_of_standsAlone (h : ¬ Entangled settings.componentExtension source) {kind : MacroKind}
    (halone : StandsAlone settings.componentExtension source kind) {p : Nat} {call : MacroCall}
    (hp : p ∈ (Scan.ofText source).callOffsets kind.name)
    (hread : (Scan.ofText source).callAt p kind = .ok call) {edit : Edit}
    (hedit : edit ∈ (declaring settings source name strict kind).edits) :
    edit.stop < p ∨ call.stop < edit.start := by
  obtain ⟨hstatements, hcalls⟩ := halone p hp call (mem_toOption_iff.mpr hread)
  rcases takenBefore_declaring h hedit with ⟨hfound, hcode, hstart, hstop⟩ |
    ⟨hearlier, hq, hother, hstart, hstop⟩
  · have hapart := hstatements _ hfound hcode
    omega
  · have hapart := hcalls _ hearlier _ hq _ (mem_toOption_iff.mpr hother)
    omega

/-- Of separate calls that stand alone all are left, and none holds an edit. -/
theorem callsLeft_of_standsAlone (name : Option Text) (strict : Option Bool)
    (h : ¬ Entangled settings.componentExtension source)
    {kind : MacroKind} (hseparate : (Scan.ofText source).Separate kind)
    (halone : StandsAlone settings.componentExtension source kind) :
    (declaring settings source name strict kind).callsLeft kind =
        (Scan.ofText source).callOffsets kind.name ∧
      ¬ (declaring settings source name strict kind).Encloses kind := by
  have hscan : (declaring settings source name strict kind).scan = Scan.ofText source :=
    (sameScript_declaring name strict h kind).scan
  constructor
  · rw [callsLeft, hscan, List.filter_eq_self]
    intro p hp
    obtain ⟨call, hcall, -⟩ := hseparate p hp
    have hread := mem_toOption_iff.mp hcall
    have hbounds := (Scan.callAt_eq_ok hp hread).2.2.bounds
    rw [Bool.not_eq_true', EditList.covers_eq_false]
    intro edit hedit
    have hapart := apart_of_standsAlone h halone hp hread hedit
    omega
  · rintro ⟨p, hp, call, hcall, hholds⟩
    rw [callsLeft, hscan] at hp
    rw [hscan] at hcall
    have hoffset := List.mem_of_mem_filter hp
    have hread := mem_toOption_iff.mp hcall
    rw [holdsEdit, (Scan.callAt_eq_ok hoffset hread).2.1] at hholds
    obtain ⟨edit, hedit, hstop, hstart⟩ := EditList.overlaps_eq_true.mp hholds
    have hapart := apart_of_standsAlone h halone hoffset hread hedit
    omega

end Draft

/-- A strict compilation of a script that calls no unsupported macro is refused for a repeated
declaration just when no import is refused and a declaration is repeated on the draft on which its pass
runs, and has an output just when neither is so. Where the calls of a declaring macro are separate and
hold no edit, it is repeated just when two calls are left, or one after a rewritten `withDefaults` call.
So two separate calls are never compiled if they stand alone. -/
theorem strict_refused_iff_repeats (settings : Settings) (source : Text) (name : Option Text)
    (hsupported : ¬ CallsUnsupported source) :
    ((∃ kind position,
        (compileScript settings source name (some true)).value = .error (.duplicate kind position)) ↔
      ¬ Entangled settings.componentExtension source ∧ ∃ kind ∈ [MacroKind.defineProps, .defineEmits],
        (Draft.declaring settings source name (some true) kind).Repeats kind) ∧
    ((∃ output, (compileScript settings source name (some true)).value = .ok output) ↔
      ¬ Entangled settings.componentExtension source ∧ ∀ kind ∈ [MacroKind.defineProps, .defineEmits],
        ¬ (Draft.declaring settings source name (some true) kind).Repeats kind) ∧
    ∀ kind ∈ [MacroKind.defineProps, .defineEmits], (Scan.ofText source).Separate kind →
      (∀ draft, draft = Draft.declaring settings source name (some true) kind →
        ¬ Entangled settings.componentExtension source → ¬ draft.Encloses kind →
        (draft.Repeats kind ↔
          kind = .defineProps ∧ draft.props.isSome ∧ 1 ≤ (draft.callsLeft kind).length ∨
            2 ≤ (draft.callsLeft kind).length)) ∧
      (StandsAlone settings.componentExtension source kind →
        2 ≤ ((Scan.ofText source).callOffsets kind.name).length →
        ∀ output, (compileScript settings source name (some true)).value ≠ .ok output) := by
  have hduplicate := Draft.strict_duplicate_iff settings name hsupported
  have houtput := Draft.strict_output_iff settings name hsupported
  refine ⟨hduplicate, houtput, fun kind hkind hseparate => ?_⟩
  have hrepeats (draft : Draft) (hdraft : draft = Draft.declaring settings source name (some true) kind)
      (hentangled : ¬ Entangled settings.componentExtension source) (hencloses : ¬ draft.Encloses kind) :
      draft.Repeats kind ↔
        kind = .defineProps ∧ draft.props.isSome ∧ 1 ≤ (draft.callsLeft kind).length ∨
          2 ≤ (draft.callsLeft kind).length := by
    refine Draft.repeats_iff_of_separate ?_ hencloses
    have hscan : draft.scan = Scan.ofText source := by
      rw [hdraft]
      exact (Draft.sameScript_declaring name (some true) hentangled kind).scan
    rw [hscan]
    exact hseparate
  refine ⟨hrepeats, fun halone htwo output hok => ?_⟩
  obtain ⟨hentangled, hnone⟩ := houtput.mp ⟨output, hok⟩
  obtain ⟨hleft, hencloses⟩ :=
    Draft.callsLeft_of_standsAlone name (some true) hentangled hseparate halone
  exact hnone kind hkind ((hrepeats _ rfl hentangled hencloses).mpr (.inr (hleft ▸ htwo)))

/-- Two calls that are both wrapped are compiled in strict mode: when the `defineProps` pass runs, the
edits of the `withDefaults` pass have taken them. -/
theorem strict_accepts_two_wrapped :
    let source : Text := "withDefaults(defineProps(['a']), \x7b\x7d)\n" ++
      "withDefaults(defineProps(['b']), \x7b\x7d)"
    ¬ CallsUnsupported source ∧ (Scan.ofText source).Separate .defineProps ∧
      (Scan.ofText source).callOffsets MacroKind.defineProps.name = [13, 50] ∧
      ∃ output, (compileScript {} source none (some true)).value = .ok output := by
  intro source
  have hcalls : ¬ CallsUnsupported source := by decide +kernel
  obtain ⟨output, hok, -⟩ := compileScript_of_plain source (some true) hcalls
    (by decide +kernel) (by decide +kernel)
  exact ⟨hcalls, by decide +kernel, by decide +kernel, output, hok⟩

/-- The second of two calls is refused after an import statement and a call of another macro. -/
theorem strict_refuses_second_emits :
    let source : Text := "import X from './x.vue'\ndefineProps(['a'])\n" ++
      "defineEmits(['b'])\ndefineEmits(['c'])"
    ¬ CallsUnsupported source ∧
      (Scan.ofText source).callOffsets MacroKind.defineEmits.name = [43, 62] ∧
      ∀ output, (compileScript {} source none (some true)).value ≠ .ok output := by
  intro source
  have hcalls : ¬ CallsUnsupported source := by decide +kernel
  have hoffsets : (Scan.ofText source).callOffsets MacroKind.defineEmits.name = [43, 62] := by
    decide +kernel
  obtain ⟨-, -, hrefused⟩ := strict_refused_iff_repeats {} source none hcalls
  obtain ⟨-, halone⟩ := hrefused .defineEmits (by decide) (by decide +kernel)
  exact ⟨hcalls, hoffsets, halone (by decide +kernel) (by rw [hoffsets]; decide)⟩

end SetupScript
