import SetupScript.Proofs.ExpansionRuns

/-!
# Strict and lenient runs of one script

Strict mode is looked at in one place only, where a repeated declaration is reported. Up to there the
strict run and the lenient one do the same; there the strict run ends in an error, and the lenient one
logs a warning and goes on. So the two are run in lockstep: either they still agree on everything but
the mode, or they have parted at the first warning that the lenient run ever logs.
-/

namespace SetupScript

/-- The warning about a repeated declaration. -/
def duplicateWarning (kind : MacroKind) (position : Int) : Entry where
  level := 1
  message := "Warning: duplicate " ++ kind.name ++ "() at offset " ++ Text.ofInt position ++
    "; the first call is compiled, later calls are left as written"

/-- The first warning about a repeated declaration is about this one. -/
def FirstWarning (journal : Journal) (kind : MacroKind) (position : Int) : Prop :=
  ∃ before after, journal = before ++ duplicateWarning kind position :: after ∧
    ∀ entry ∈ before, ∀ kind' position', entry ≠ duplicateWarning kind' position'

/-- There is no warning in the journal. -/
def Unwarned (journal : Journal) : Prop := ∀ entry ∈ journal, entry.level ≠ 1

/-- A journal without warnings has none about a repeated declaration. -/
theorem Unwarned.ne_duplicateWarning {journal : Journal} (h : Unwarned journal) {entry : Entry}
    (hentry : entry ∈ journal) (kind : MacroKind) (position : Int) :
    entry ≠ duplicateWarning kind position := by
  rintro rfl
  exact h _ hentry rfl

/-- Two journals without warnings. -/
theorem Unwarned.append {journal more : Journal} (h : Unwarned journal) (h' : Unwarned more) :
    Unwarned (journal ++ more) := List.forall_mem_append.mpr ⟨h, h'⟩

/-- A natural number is written with its digits. -/
theorem Text.ofNat_eq_toDigits (n : Nat) : ofNat n = Nat.toDigits 10 n := by
  rw [ofNat, Nat.toString_eq_ofList_toDigits, String.toList_ofList]

/-- Two integers are written differently. -/
theorem Text.ofInt_inj {i j : Int} (h : ofInt i = ofInt j) : i = j := by
  have habs {m n : Nat} (hdigits : ofNat m = ofNat n) : m = n := by
    rw [ofNat_eq_toDigits, ofNat_eq_toDigits] at hdigits
    have hvalue := congrArg (Nat.ofDigitChars 10 · 0) hdigits
    simpa only [Nat.ofDigitChars_ten_toDigits] using hvalue
  have hsign (m n : Nat) : ofNat m ≠ '-' :: ofNat n := by
    intro hminus
    rw [ofNat_eq_toDigits] at hminus
    have hdigit := Nat.isDigit_of_mem_toDigits (by decide) (by decide)
      (hminus ▸ List.mem_cons_self .. : '-' ∈ Nat.toDigits 10 m)
    exact absurd hdigit (by decide)
  unfold ofInt at h
  split at h
  · split at h
    · have hnat := habs (List.cons.inj h).2
      omega
    · exact absurd h.symm (hsign _ _)
  · split at h
    · exact absurd h (hsign _ _)
    · have hnat := habs h
      omega

/-- A warning tells the macro and the offset. -/
theorem duplicateWarning_inj {kind kind' : MacroKind} {position position' : Int}
    (h : duplicateWarning kind position = duplicateWarning kind' position') :
    kind = kind' ∧ position = position' := by
  have hmessage := congrArg Entry.message h
  simp only [duplicateWarning, List.append_assoc, List.append_cancel_left_eq] at hmessage
  have hword (kind : MacroKind) : kind.name.all Text.isNameChar := (MacroKind.name_isWord kind).1
  have hname : kind.name = kind'.name :=
    (Text.cut_unique (hword kind) (hword kind') (by decide) (by decide) hmessage).1
  have hkind : kind = kind' := by
    revert hname
    cases kind <;> cases kind' <;> decide
  subst hkind
  rw [List.append_cancel_left_eq, List.append_cancel_left_eq] at hmessage
  exact ⟨rfl, Text.ofInt_inj (List.append_cancel_right hmessage)⟩

/-- There is one first warning at most. -/
theorem FirstWarning.unique {journal before after : Journal} {kind kind' : MacroKind}
    {position position' : Int} (h : FirstWarning journal kind position)
    (hjournal : journal = before ++ duplicateWarning kind' position' :: after)
    (hbefore : Unwarned before) : kind' = kind ∧ position' = position := by
  obtain ⟨front, back, hfront, hnone⟩ := h
  rw [hjournal] at hfront
  rcases List.append_eq_append_iff.mp hfront with ⟨more, hmore, hrest⟩ | ⟨more, hmore, hrest⟩
  · -- the other warning would stand in front of the first one
    cases more with
    | nil => exact duplicateWarning_inj (List.cons.inj hrest).1
    | cons entry more =>
      obtain ⟨rfl, -⟩ := List.cons.inj hrest
      exact absurd rfl (hnone _ (by simp [hmore]) kind' position')
  · cases more with
    | nil => exact (duplicateWarning_inj (List.cons.inj hrest).1).imp Eq.symm Eq.symm
    | cons entry more =>
      obtain ⟨rfl, -⟩ := List.cons.inj hrest
      exact absurd rfl (hbefore.ne_duplicateWarning (by simp [hmore]) kind position)

/-! ## Two runs in step -/

/-- The draft of the same script that is not compiled strictly. -/
def Draft.lenient (draft : Draft) : Draft := { draft with strict := false }

/-- A strict run and a lenient one: they agree but for the mode, or the strict one was refused where
the lenient one logged its next message. -/
inductive InStep (strict lenient : Outcome) : Prop
  | agree (h : lenient = ⟨strict.draft.lenient, strict.error⟩)
  | parted (kind : MacroKind) (position : Int)
      (herror : strict.error = some (.duplicate kind position))
      (hwarned : strict.draft.journal ++ [duplicateWarning kind position] <+: lenient.draft.journal)

/-- The outcomes of one step on a draft and on the lenient draft are in step where the draft is strict.
Messages are only added, and in strict mode no warning is among them. -/
structure LockstepAt (draft : Draft) (strict lenient : Outcome) : Prop where
  mode : strict.draft.strict = draft.strict
  grows : ∃ more, strict.draft.journal = draft.journal ++ more ∧ (draft.strict = true → Unwarned more)
  inStep : draft.strict = true → InStep strict lenient

/-- The step keeps a strict run and a lenient one in step. -/
def Lockstep (step : Draft → Outcome) : Prop := ∀ draft, LockstepAt draft (step draft) (step draft.lenient)

namespace LockstepAt

variable {draft : Draft} {strict lenient : Outcome}

/-- A step that takes no notice of the mode and gives no warning. -/
theorem of_blind (hmode : strict.draft.strict = draft.strict) {more : Journal}
    (hjournal : strict.draft.journal = draft.journal ++ more) (hmore : Unwarned more)
    (hsame : lenient = ⟨strict.draft.lenient, strict.error⟩) : LockstepAt draft strict lenient :=
  ⟨hmode, ⟨more, hjournal, fun _ => hmore⟩, fun _ => .agree hsame⟩

/-- A step that logs nothing and takes no notice of the mode. -/
theorem of_silent (hmode : strict.draft.strict = draft.strict)
    (hjournal : strict.draft.journal = draft.journal)
    (hsame : lenient = ⟨strict.draft.lenient, strict.error⟩) : LockstepAt draft strict lenient :=
  of_blind hmode (hjournal.trans (List.append_nil _).symm) (by simp [Unwarned]) hsame

/-- A step that was looked at from another draft with the same mode and the same messages. -/
theorem of_same {other : Draft} (h : LockstepAt other strict lenient)
    (hmode : other.strict = draft.strict) (hjournal : other.journal = draft.journal) :
    LockstepAt draft strict lenient :=
  ⟨h.mode.trans hmode, hmode ▸ hjournal ▸ h.grows, fun hstrict => h.inStep (hmode.trans hstrict)⟩

/-- One step after another. -/
theorem andThen (h : LockstepAt draft strict lenient) {step : Draft → Outcome} (hstep : Lockstep step) :
    LockstepAt draft (strict.andThen step) (lenient.andThen step) := by
  obtain ⟨hmode, ⟨more, hjournal, hmore⟩, hinStep⟩ := h
  obtain ⟨current, _ | error⟩ := strict
  · -- the strict run goes on
    obtain ⟨hmode', ⟨more', hjournal', hmore'⟩, hinStep'⟩ := hstep current
    refine ⟨hmode'.trans hmode, ⟨more ++ more', ?_, fun hstrict => ?_⟩, fun hstrict => ?_⟩
    · change (step current).draft.journal = _
      rw [hjournal', show current.journal = _ from hjournal, List.append_assoc]
    · exact (hmore hstrict).append (hmore' (hmode.trans hstrict))
    · rcases hinStep hstrict with rfl | ⟨kind, position, herror, -⟩
      · exact hinStep' (hmode.trans hstrict)
      · cases herror
  · refine ⟨hmode, ⟨more, hjournal, hmore⟩, fun hstrict => ?_⟩
    rcases hinStep hstrict with rfl | ⟨kind, position, herror, hwarned⟩
    · exact .agree rfl
    · -- the strict run has ended, and what the lenient one adds comes after its warning
      refine .parted kind position herror ?_
      obtain ⟨other, _ | error'⟩ := lenient
      · obtain ⟨more', hjournal', -⟩ := (hstep other).grows
        exact hwarned.trans ⟨more', hjournal'.symm⟩
      · exact hwarned

end LockstepAt

namespace Draft

variable (draft : Draft)

/-- To do nothing. -/
theorem lockstepAt_done : LockstepAt draft ⟨draft, none⟩ ⟨draft.lenient, none⟩ :=
  .of_silent rfl rfl rfl

/-- To log a message that is no warning. -/
theorem lockstepAt_note {level : Int} (h : level ≠ 1) (message : Text) :
    LockstepAt draft ⟨draft.note level message, none⟩ ⟨draft.lenient.note level message, none⟩ :=
  .of_blind rfl rfl (List.forall_mem_singleton.mpr h) rfl

/-- To report a repeated declaration. -/
theorem lockstepAt_reportDuplicate (kind : MacroKind) (position : Int) :
    LockstepAt draft (draft.reportDuplicate kind position)
      (draft.lenient.reportDuplicate kind position) := by
  by_cases hstrict : draft.strict = true
  · have hrefused : draft.reportDuplicate kind position = ⟨draft, some (.duplicate kind position)⟩ := by
      rw [reportDuplicate, if_pos hstrict]
    rw [hrefused]
    exact ⟨rfl, ⟨[], by simp, fun _ => by simp [Unwarned]⟩, fun _ =>
      .parted kind position rfl (List.prefix_refl _)⟩
  · have hwarned : draft.reportDuplicate kind position =
        ⟨{ draft with journal := draft.journal ++ [duplicateWarning kind position] }, none⟩ := by
      rw [reportDuplicate, if_neg hstrict]
      rfl
    rw [hwarned]
    exact ⟨rfl, ⟨_, rfl, fun h => absurd h hstrict⟩, fun h => absurd h hstrict⟩

/-- To report the next call of a macro. -/
theorem lockstep_reportRepeated (call : MacroCall) : Lockstep (·.reportRepeated call) := by
  intro draft
  have hnext : draft.lenient.nextCall? call.kind.name (call.stop + 1) =
      draft.nextCall? call.kind.name (call.stop + 1) := rfl
  simp only [reportRepeated, hnext]
  cases draft.nextCall? call.kind.name (call.stop + 1) with
  | none => exact draft.lockstepAt_done
  | some index => exact draft.lockstepAt_reportDuplicate call.kind index

/-- To record an edit. -/
theorem lockstepAt_addEdit (start stop : Int) (replacement : Text) :
    LockstepAt draft (draft.addEdit start stop replacement)
      (draft.lenient.addEdit start stop replacement) := by
  have hedits : draft.lenient.edits = draft.edits := rfl
  simp only [addEdit, hedits]
  cases draft.edits.add start stop replacement with
  | ok edits => exact .of_silent rfl rfl rfl
  | error range => exact .of_silent rfl rfl rfl

/-- To record the result of an expansion. -/
theorem lockstep_record (result : MacroResult) (index : Nat) :
    Lockstep fun draft => ⟨draft.record result index, none⟩ := fun draft =>
  (lockstepAt_note { draft with results := draft.results ++ [result] } (by decide) _).of_same rfl rfl

/-- To replace a call. -/
theorem lockstepAt_replaceCall (call : MacroCall) (index : Nat) (replacement : Text)
    (boundName : Option Text) :
    LockstepAt draft (draft.replaceCall call index replacement boundName)
      (draft.lenient.replaceCall call index replacement boundName) :=
  (draft.lockstepAt_addEdit index call.stop replacement).andThen (lockstep_record _ index)

/-- To work on the first call of a macro that no edit has taken. -/
theorem lockstep_onFirstCall (kind : MacroKind) {expand : Draft → Nat → MacroCall → Outcome}
    (hexpand : ∀ index call, Lockstep (expand · index call)) :
    Lockstep (·.onFirstCall kind expand) := by
  intro draft
  have hnext : draft.lenient.nextCall? kind.name 0 = draft.nextCall? kind.name 0 := rfl
  simp only [onFirstCall, hnext]
  cases draft.nextCall? kind.name 0 with
  | none => exact draft.lockstepAt_done
  | some index =>
    have hcall : draft.lenient.scan.callAt index kind = draft.scan.callAt index kind := rfl
    simp only [hcall]
    cases draft.scan.callAt index kind with
    | error fault => exact draft.lockstepAt_note (by decide) _
    | ok call =>
      have hholds : draft.lenient.holdsEdit call = draft.holdsEdit call := rfl
      simp only [hholds]
      cases draft.holdsEdit call with
      | true => exact draft.lockstepAt_note (by decide) _
      | false => exact hexpand index call draft

/-! ## The passes -/

/-- To expand one `withDefaults` call. -/
theorem lockstep_expandDefaultsCall (index : Nat) (call : MacroCall) :
    Lockstep (·.expandDefaultsCall index call) := by
  intro draft
  simp only [expandDefaultsCall]
  cases propsDefinition? ((Scan.ofText call.arguments).arguments.headD []) with
  | none => exact draft.lockstepAt_note (by decide) _
  | some definition =>
    have hrecord (result : MacroResult) :
        Lockstep fun edited => ⟨{ edited with defaultsUsed := true }.record result index, none⟩ :=
      fun edited => (lockstep_record result index { edited with defaultsUsed := true }).of_same rfl rfl
    exact ((lockstepAt_addEdit { draft with props := some (draft.props.getD definition) } _ _ _).andThen
      (hrecord _)).of_same rfl rfl

/-- To expand `withDefaults` calls one after the other. -/
theorem lockstep_expandDefaultsFrom (resume : Nat) (offsets : List Nat) :
    Lockstep (·.expandDefaultsFrom resume offsets) := by
  induction offsets generalizing resume with
  | nil => exact fun draft => draft.lockstepAt_done
  | cons index later ih =>
    intro draft
    have hcovers : draft.lenient.edits.covers index = draft.edits.covers index := rfl
    have hcall : draft.lenient.scan.callAt index .withDefaults =
      draft.scan.callAt index .withDefaults := rfl
    simp only [expandDefaultsFrom, hcovers, hcall]
    cases (index < resume || draft.edits.covers index : Bool) with
    | true => exact ih resume draft
    | false =>
      cases draft.scan.callAt index .withDefaults with
      | error fault => exact draft.lockstepAt_note (by decide) _
      | ok call =>
        have hholds : draft.lenient.holdsEdit call = draft.holdsEdit call := rfl
        simp only [hholds]
        cases draft.holdsEdit call with
        | true => exact (draft.lockstepAt_note (by decide) _).andThen (ih (call.stop + 1))
        | false => exact (lockstep_expandDefaultsCall index call draft).andThen (ih (call.stop + 1))

/-- To expand one `defineProps` call. -/
theorem lockstep_expandPropsCall (index : Nat) (call : MacroCall) :
    Lockstep (·.expandPropsCall index call) := by
  intro draft
  have hprops : draft.lenient.props = draft.props := rfl
  simp only [expandPropsCall, hprops]
  refine LockstepAt.andThen ?_ fun current => ?_
  · cases draft.props.isSome with
    | true => exact draft.lockstepAt_reportDuplicate _ _
    | false => exact draft.lockstepAt_done
  · refine LockstepAt.andThen ?_ (lockstep_reportRepeated call)
    have hdeclared : current.lenient.declarationBefore? index = current.declarationBefore? index := rfl
    simp only [hdeclared]
    cases current.declarationBefore? index with
    | none => exact (lockstepAt_replaceCall { current with props := _ } call index _ _).of_same rfl rfl
    | some declaration =>
      exact (lockstepAt_replaceCall { current with props := _ } call index _ _).of_same rfl rfl

/-- To expand one `defineEmits` call. -/
theorem lockstep_expandEmitsCall (index : Nat) (call : MacroCall) :
    Lockstep (·.expandEmitsCall index call) := by
  intro draft
  have hdeclared : draft.lenient.declarationBefore? index = draft.declarationBefore? index := rfl
  simp only [expandEmitsCall, hdeclared]
  refine LockstepAt.andThen ?_ (lockstep_reportRepeated call)
  cases draft.declarationBefore? index with
  | none => exact (lockstepAt_replaceCall { draft with emits := _ } call index _ _).of_same rfl rfl
  | some declaration =>
    exact (lockstepAt_replaceCall { draft with emits := _ } call index _ _).of_same rfl rfl

/-- To expand one `defineExpose` call. -/
theorem lockstep_expandExposeCall (index : Nat) (call : MacroCall) :
    Lockstep (·.expandExposeCall index call) := fun draft =>
  (lockstepAt_replaceCall { draft with expose := some (Text.trim call.arguments) } call index _ _).of_same
    rfl rfl

/-- To refuse unsupported macros. -/
theorem lockstep_refuseUnsupported : Lockstep refuseUnsupported := by
  intro draft
  have hscan : draft.lenient.scan = draft.scan := rfl
  simp only [refuseUnsupported, hscan]
  cases MacroKind.all.find? _ with
  | none => exact draft.lockstepAt_done
  | some kind => exact .of_blind rfl rfl (List.forall_mem_singleton.mpr (by simp)) rfl

/-- To claim an import statement takes no notice of the mode and logs nothing. -/
theorem claim_lenient (start stop : Nat) :
    draft.lenient.claim start stop = (⟨(draft.claim start stop).1.draft.lenient,
      (draft.claim start stop).1.error⟩, (draft.claim start stop).2) ∧
    (draft.claim start stop).1.draft.strict = draft.strict ∧
    (draft.claim start stop).1.draft.journal = draft.journal := by
  have hscan : draft.lenient.scan = draft.scan := rfl
  have hedits : draft.lenient.edits = draft.edits := rfl
  have hsettings : draft.lenient.settings = draft.settings := rfl
  have hsource : draft.lenient.source = draft.source := rfl
  simp only [claim, addEdit, hscan, hedits, hsettings, hsource]
  split
  · cases draft.edits.add start ((stop : Int) - 1)
        (draft.settings.marker (Text.joinWith " " (Text.words (draft.source.slice start stop)))) with
    | ok edits => exact ⟨rfl, rfl, rfl⟩
    | error range => exact ⟨rfl, rfl, rfl⟩
  · exact ⟨rfl, rfl, rfl⟩

/-- To claim import statements one after the other. -/
theorem claimAll_lenient (founds : List (Text.Match Hoisted)) :
    draft.lenient.claimAll founds = (⟨(draft.claimAll founds).1.draft.lenient,
      (draft.claimAll founds).1.error⟩, (draft.claimAll founds).2) ∧
    (draft.claimAll founds).1.draft.strict = draft.strict ∧
    (draft.claimAll founds).1.draft.journal = draft.journal := by
  induction founds generalizing draft with
  | nil => exact ⟨rfl, rfl, rfl⟩
  | cons found rest ih =>
    obtain ⟨hsame, hstrict, hjournal⟩ := draft.claim_lenient found.start found.stop
    obtain ⟨⟨⟨next, error⟩, claimed⟩, hclaim⟩ : ∃ result, draft.claim found.start found.stop = result :=
      ⟨_, rfl⟩
    rw [hclaim] at hsame hstrict hjournal
    simp only [claimAll, hclaim, hsame]
    cases error with
    | some error => exact ⟨rfl, hstrict, hjournal⟩
    | none =>
      obtain ⟨hrest, hstrict', hjournal'⟩ := ih next
      exact ⟨by rw [hrest], hstrict'.trans hstrict, hjournal'.trans hjournal⟩

/-- To record what is hoisted takes no notice of the mode and logs nothing. -/
theorem hoistAll_lenient (items : List (Nat × Hoisted)) :
    draft.lenient.hoistAll items = (draft.hoistAll items).lenient ∧
      (draft.hoistAll items).journal = draft.journal := by
  induction items generalizing draft with
  | nil => exact ⟨rfl, rfl⟩
  | cons item rest ih =>
    obtain ⟨position, hoisted⟩ := item
    have hstep : draft.lenient.hoist hoisted = (draft.hoist hoisted).lenient ∧
        (draft.hoist hoisted).journal = draft.journal := by
      cases hoisted <;> exact ⟨rfl, rfl⟩
    obtain ⟨hsame, hjournal⟩ := ih (draft.hoist hoisted)
    refine ⟨?_, hjournal.trans hstep.2⟩
    rw [hoistAll, List.foldl_cons, hstep.1]
    exact hsame

/-- To hoist the imports. -/
theorem lockstep_hoistImports : Lockstep hoistImports := by
  intro draft
  have hrecord (items : List (Nat × Hoisted)) : Lockstep fun claimed =>
      ⟨(claimed.hoistAll items).note 2 ("Hoisted " ++ Text.ofNat (claimed.hoistAll items).imports.length ++
        " imports, " ++ Text.ofNat (claimed.hoistAll items).components.length ++ " components"), none⟩ := by
    intro claimed
    obtain ⟨hsame, hjournal⟩ := claimed.hoistAll_lenient items
    simp only [hsame]
    exact (lockstepAt_note (claimed.hoistAll items) (by decide) _).of_same
      (hoistAll_frame items claimed).1.strict hjournal
  obtain ⟨hsame, hstrict, hjournal⟩ := draft.claimAll_lenient
    (importMatches draft.settings.componentExtension draft.source)
  have hclaimed := (LockstepAt.of_silent hstrict hjournal rfl).andThen
    (hrecord ((draft.claimAll (importMatches draft.settings.componentExtension draft.source)).2.mergeSort
      fun a b => a.1 ≤ b.1))
  unfold hoistImports
  rw [show draft.lenient.settings = draft.settings from rfl,
    show draft.lenient.source = draft.source from rfl, hsame]
  exact hclaimed

/-- To expand macros one after the other. -/
theorem lockstep_runAll {registry : MacroRegistry} (h : ∀ spec ∈ registry, Lockstep spec.expand) :
    Lockstep (·.runAll registry) := by
  induction registry with
  | nil => exact fun draft => draft.lockstepAt_done
  | cons spec rest ih =>
    obtain ⟨hspec, hrest⟩ := List.forall_mem_cons.mp h
    exact fun draft => (hspec draft).andThen (ih hrest)

/-- To expand the built-in macros. -/
theorem lockstep_builtin : Lockstep (·.runAll MacroRegistry.builtin) := by
  refine lockstep_runAll fun spec hspec => ?_
  simp only [MacroRegistry.builtin, List.mem_cons, List.not_mem_nil, or_false] at hspec
  rcases hspec with rfl | rfl | rfl | rfl
  · exact fun draft => lockstep_expandDefaultsFrom 0 _ draft
  · exact lockstep_onFirstCall .defineProps lockstep_expandPropsCall
  · exact lockstep_onFirstCall .defineEmits lockstep_expandEmitsCall
  · exact lockstep_onFirstCall .defineExpose lockstep_expandExposeCall

end Draft

/-- The passes of a strict compilation and those of a lenient one are in step. -/
theorem lockstepAt_expandScript (settings : Settings) (source : Text) (name : Option Text) :
    LockstepAt (Draft.announced settings source name (some true))
      (expandScript settings source name (some true)) (expandScript settings source name (some false)) :=
  ((Draft.lockstep_refuseUnsupported _).andThen Draft.lockstep_hoistImports).andThen Draft.lockstep_builtin

/-! ## The journals of compilations -/

/-- To collect bindings gives no warning. -/
theorem unwarned_collect (settings : Settings) (edited : Text) :
    Unwarned (Bindings.collect settings edited).2 := by
  have hpatterns (scan : Scan) (opener : Char) :
      Unwarned (Bindings.patternNames settings scan opener).2 := by
    intro entry hentry
    obtain ⟨_, hread, hentry⟩ := List.mem_flatMap.mp hentry
    obtain ⟨found, -, rfl⟩ := List.mem_map.mp hread
    dsimp only at hentry
    split at hentry
    · rw [List.mem_singleton.mp hentry]
      simp
    · split at hentry
      · cases hentry
      · cases hentry
  exact (hpatterns _ '{').append (hpatterns _ '[')

/-- To write the module of a draft gives no warning. -/
theorem Draft.journal_finish (draft : Draft) :
    ∃ more, draft.finish.2.journal = draft.journal ++ more ∧ Unwarned more := by
  have hjournal (applied returned : Text) (notes : Journal) :
      (({ draft.note 3 applied with journal := (draft.note 3 applied).journal ++ notes } : Draft).note 2
        returned).journal = draft.journal ++ ([⟨3, applied⟩] ++ notes ++ [⟨2, returned⟩]) := by
    simp only [note, List.append_assoc]
  refine ⟨_, hjournal _ _ _, ?_⟩
  refine Unwarned.append (Unwarned.append ?_ (unwarned_collect _ _)) ?_
  · exact List.forall_mem_singleton.mpr (by simp)
  · exact List.forall_mem_singleton.mpr (by simp)

/-- A compilation logs what its passes log, and no warning after them. -/
theorem compileScript_journal (settings : Settings) (source : Text) (name : Option Text)
    (strict : Option Bool) :
    ∃ more, (compileScript settings source name strict).journal =
      (expandScript settings source name strict).draft.journal ++ more ∧ Unwarned more := by
  have hcompile : (compileScript settings source name strict).journal =
      ((Draft.start settings source name strict).compile MacroRegistry.builtin).2.journal := rfl
  rw [hcompile, Draft.compile]
  dsimp only
  split
  · exact ⟨[], (List.append_nil _).symm, by simp [Unwarned]⟩
  · exact Draft.journal_finish _

/-! ## Which call is repeated -/

/-- The offset is that of a call of the macro, and the script has another one. -/
def IsRepeatedCall (scan : Scan) (kind : MacroKind) (position : Int) : Prop :=
  ∃ p q : Nat, position = p ∧ p ∈ scan.callOffsets kind.name ∧ q ∈ scan.callOffsets kind.name ∧ q ≠ p

namespace Draft

/-- A call that is reported after another one is repeated. -/
theorem isRepeatedCall_of_nextCall? {draft : Draft} {kind : MacroKind} {index p : Nat} {call : MacroCall}
    (hfirst : draft.firstCall? kind = some (index, call))
    (hnext : draft.nextCall? kind.name (call.stop + 1) = some p) :
    IsRepeatedCall draft.scan kind p := by
  obtain ⟨hindex, -, -, hcall⟩ := of_firstCall? hfirst
  obtain ⟨hp, hafter, -⟩ := of_nextCall? hnext
  have hbounds := hcall.isCall.bounds
  exact ⟨p, index, rfl, hp, hindex, by omega⟩

/-- A `defineProps` call that is reported because there is a definition already is repeated: the other
call stands inside a `withDefaults` call that was rewritten, and an edit has taken it. -/
theorem isRepeatedCall_of_rewritten {draft : Draft} {source : Text} {rewrites : List Rewrite}
    {journal : Journal} (hscan : draft.scan = Scan.ofText source) (hprops : draft.props = none)
    (hvalid : ∀ rewrite ∈ rewrites, rewrite.Valid draft.scan) {index : Nat} {call : MacroCall}
    (hfirst : (draft.rewritten rewrites journal).firstCall? .defineProps = some (index, call))
    (hsome : (draft.rewritten rewrites journal).props.isSome) :
    IsRepeatedCall draft.scan .defineProps index := by
  obtain ⟨hindex, hfree, -, -⟩ := of_firstCall? hfirst
  cases rewrites with
  | nil => simp [rewritten, hprops] at hsome
  | cons rewrite rest =>
    have hrewrite := hvalid rewrite (List.mem_cons_self ..)
    rw [hscan] at hrewrite
    obtain ⟨q, hq, hstart, first, last, hfirst, hlast, harguments, -⟩ :=
      hrewrite.isCall.carried hrewrite.carries
    have hle := harguments.ordered
    have hedit : rewrite.edit draft.settings ∈ (draft.rewritten (rewrite :: rest) journal).edits := by
      simp [rewritten]
    have htaken := EditList.covers_eq_false.mp hfree _ hedit
    simp only [Rewrite.edit] at htaken
    exact ⟨index, q, rfl, hindex, hscan ▸ hq, by omega⟩

/-- What the `defineProps` pass is refused for is repeated. -/
theorem isRepeatedCall_of_expandProps {settings : Settings} {source : Text} {name : Option Text}
    {strict : Option Bool} (hentangled : ¬ Entangled settings.componentExtension source)
    {kind : MacroKind} {position : Int}
    (h : (beforeProps settings source name strict).expandProps.error =
      some (.duplicate kind position)) : IsRepeatedCall (Scan.ofText source) kind position := by
  obtain ⟨-, hsame, -, -, hnone, -⟩ := hoisted_facts name strict hentangled
  have hscan : (hoisted settings source name strict).scan = Scan.ofText source := hsame.scan
  obtain ⟨rewrites, journal, hvalid, -, -, hbefore⟩ := beforeProps_run settings source name strict
  have hscan' : (beforeProps settings source name strict).scan = Scan.ofText source :=
    (stages_sound name strict hentangled).1.1.scan
  rcases (beforeProps settings source name strict).expandProps_cases with ⟨-, _, hrun⟩ |
    ⟨index, call, hfirst, ⟨-, hsome, hrun⟩ | ⟨-, _, _, _, error, hrun, hrepeated⟩⟩
  · rw [hrun] at h
    cases h
  · rw [hrun] at h
    cases h
    rw [hbefore] at hfirst hsome
    exact hscan ▸ isRepeatedCall_of_rewritten hscan hnone hvalid hfirst hsome
  · rw [hrun] at h
    obtain rfl : error = _ := h
    rcases hrepeated with ⟨-, p, hnext, hp⟩ | ⟨-, hok⟩
    · cases hp
      exact hscan' ▸ isRepeatedCall_of_nextCall? hfirst hnext
    · cases hok

/-- What the `defineEmits` pass is refused for is repeated. -/
theorem isRepeatedCall_of_expandEmits {draft : Draft} {kind : MacroKind} {position : Int}
    (h : draft.expandEmits.error = some (.duplicate kind position)) :
    IsRepeatedCall draft.scan kind position := by
  rcases draft.expandEmits_cases with ⟨-, _, hrun⟩ | ⟨index, call, hfirst, _, _, _, error, hrun, hrepeated⟩
  · rw [hrun] at h
    cases h
  · rw [hrun] at h
    obtain rfl : error = _ := h
    rcases hrepeated with ⟨-, p, hnext, hp⟩ | ⟨-, hok⟩
    · cases hp
      exact isRepeatedCall_of_nextCall? hfirst hnext
    · cases hok

end Draft

/-- The declaration for which a compilation is refused is repeated. -/
theorem isRepeatedCall_of_refused {settings : Settings} {source : Text} {name : Option Text}
    {strict : Option Bool} {kind : MacroKind} {position : Int}
    (h : (expandScript settings source name strict).error = some (.duplicate kind position)) :
    IsRepeatedCall (Scan.ofText source) kind position := by
  rcases expandScript_cases settings source name strict with ⟨-, kind, -, hfailed⟩ |
    ⟨-, -, range, hfailed⟩ | ⟨hcalls, hentangled, -⟩
  · rw [h] at hfailed
    cases hfailed
  · rw [h] at hfailed
    cases hfailed
  rw [Draft.expandScript_stages name strict hcalls hentangled] at h
  rcases Outcome.error_andThen.mp h with hearlier | ⟨-, hexpose⟩
  · rcases Outcome.error_andThen.mp hearlier with hprops | ⟨-, hemits⟩
    · exact Draft.isRepeatedCall_of_expandProps hentangled hprops
    · have hscan : (Draft.beforeEmits settings source name strict).scan = Scan.ofText source :=
        (Draft.stages_sound name strict hentangled).2.1.scan
      exact hscan ▸ Draft.isRepeatedCall_of_expandEmits hemits
  · rw [Draft.error_expandExpose] at hexpose
    cases hexpose

/-- Without strict mode no compilation is refused for a repeated declaration. -/
theorem error_ne_duplicate_of_lenient {settings : Settings} {source : Text} {name : Option Text}
    {strict : Option Bool} (hlenient : strict.getD settings.strictMode = false) {kind : MacroKind}
    {position : Int} :
    (expandScript settings source name strict).error ≠ some (.duplicate kind position) := by
  intro hrefused
  rcases expandScript_cases settings source name strict with ⟨-, _, -, herror⟩ | ⟨-, -, _, herror⟩ |
    ⟨-, -, -, -, herror | ⟨hstrict, -⟩⟩
  · rw [hrefused] at herror
    cases herror
  · rw [hrefused] at herror
    cases herror
  · rw [hrefused] at herror
    cases herror
  · rw [hlenient] at hstrict
    cases hstrict

/-- Strict mode adds refusals and nothing else. A strict compilation is refused for a repeated
declaration just when the lenient one warns of one, and for the first of which it warns; that one is a
call of the macro, and the script has another call of it elsewhere. Where the strict compilation is not
refused so, the two give the same. -/
theorem strict_refuses_first_warning (settings : Settings) (source : Text) (name : Option Text) :
    (∀ kind position,
      (compileScript settings source name (some true)).value = .error (.duplicate kind position) ↔
        FirstWarning (compileScript settings source name (some false)).journal kind position) ∧
    (∀ kind position,
      (compileScript settings source name (some true)).value = .error (.duplicate kind position) →
        IsRepeatedCall (Scan.ofText source) kind position) ∧
    ((∀ kind position,
      (compileScript settings source name (some true)).value ≠ .error (.duplicate kind position)) →
        (compileScript settings source name (some true)).value =
          (compileScript settings source name (some false)).value) := by
  obtain ⟨-, ⟨more, hlogged, hmore⟩, hinStep⟩ := lockstepAt_expandScript settings source name
  have hquiet : Unwarned (expandScript settings source name (some true)).draft.journal := by
    rw [hlogged]
    exact Unwarned.append (List.forall_mem_singleton.mpr (by simp)) (hmore rfl)
  obtain ⟨last, hjournal, hlast⟩ := compileScript_journal settings source name (some false)
  have hrepeated (kind : MacroKind) (position : Int)
      (h : (compileScript settings source name (some true)).value = .error (.duplicate kind position)) :=
    isRepeatedCall_of_refused (Draft.compileScript_eq_error_iff.mp h)
  rcases hinStep rfl with hagree | ⟨kind, position, herror, hwarned⟩
  · -- the lenient run is never refused, so neither is the strict one, and there is no warning
    have hnever (kind : MacroKind) (position : Int) :
        (compileScript settings source name (some true)).value ≠ .error (.duplicate kind position) := by
      rw [ne_eq, Draft.compileScript_eq_error_iff,
        show (expandScript settings source name (some true)).error =
          (expandScript settings source name (some false)).error by rw [hagree]]
      exact error_ne_duplicate_of_lenient rfl
    refine ⟨fun kind position => iff_of_false (hnever kind position) ?_, hrepeated, fun _ => ?_⟩
    · rintro ⟨before, after, hsplit, -⟩
      have hall : Unwarned (compileScript settings source name (some false)).journal := by
        rw [hjournal, hagree]
        exact hquiet.append hlast
      exact hall.ne_duplicateWarning (hsplit ▸ by simp) kind position rfl
    · rw [compileScript_value, compileScript_value, hagree]
      rfl
  · obtain ⟨rest, hrest⟩ := hwarned
    have hsplit : (compileScript settings source name (some false)).journal =
        (expandScript settings source name (some true)).draft.journal ++
          duplicateWarning kind position :: (rest ++ last) := by
      rw [hjournal, ← hrest, List.append_assoc, List.append_assoc]
      rfl
    refine ⟨fun kind' position' => ⟨fun h => ?_, fun h => ?_⟩, hrepeated, fun h => ?_⟩
    · rw [Draft.compileScript_eq_error_iff, herror] at h
      cases h
      exact ⟨_, _, hsplit, fun entry hentry => hquiet.ne_duplicateWarning hentry⟩
    · obtain ⟨rfl, rfl⟩ := h.unique hsplit hquiet
      exact Draft.compileScript_eq_error_iff.mpr herror
    · exact absurd (Draft.compileScript_eq_error_iff.mpr herror) (h kind position)

end SetupScript
