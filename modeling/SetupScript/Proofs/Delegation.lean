import SetupScript.Proofs.CodeWords
import SetupScript.Proofs.ErrorContract

/-!
# Handing a script to a full compiler

A script is declined when it calls one of three macros, and for nothing else; this is found out
before anything is recorded. A declined script goes to the full compiler, once and as it was given,
and what comes of that is the outcome. A script that is not declined is compiled as if there were no
full compiler, and so is one that is declined when there is none.
-/

namespace SetupScript

/-- The macros for which a script is declined, in the order in which it is checked for them. -/
def declinedKinds : List MacroKind := [.defineModel, .defineSlots, .defineOptions]

/-- The script calls the macro. -/
def Calls (code : Text) (kind : MacroKind) : Prop := ∃ p, IsCalledAt code kind.name p

/-- The macro is the first in order for which the script is declined. -/
def FirstDeclined (code : Text) (kind : MacroKind) : Prop :=
  ∃ earlier later, declinedKinds = earlier ++ kind :: later ∧ Calls code kind ∧
    ∀ other ∈ earlier, ¬ Calls code other

variable {code : Text} {kind : MacroKind}

/-! ## Scripts that are declined -/

/-- A macro is called just when the scan of the script finds a call of it. -/
theorem isSome_findCall?_iff : ((Scan.ofText code).findCall? kind.name 0).isSome ↔ Calls code kind := by
  obtain ⟨hname, hne⟩ := kind.name_isWord
  rw [Scan.isSome_findCall?_zero]
  constructor
  · intro hsome
    obtain ⟨p, hp⟩ := List.exists_mem_of_ne_nil _ hsome
    exact ⟨p, (Scan.mem_callOffsets_iff hname hne).mp hp⟩
  · rintro ⟨p, hcalled⟩
    exact List.ne_nil_of_mem ((Scan.mem_callOffsets_iff hname hne).mpr hcalled)

instance (code : Text) (kind : MacroKind) : Decidable (Calls code kind) :=
  decidable_of_iff _ isSome_findCall?_iff

/-- The check of a script goes through the macros for which it can be declined. -/
theorem find?_unsupported (called : MacroKind → Bool) :
    (MacroKind.all.find? fun kind => !kind.isSupported && called kind) = declinedKinds.find? called := by
  simp [MacroKind.all, declinedKinds, MacroKind.isSupported, List.find?_cons]

/-- The check of a script finds the first macro for which it is declined. -/
theorem find?_unsupported_eq_some :
    (MacroKind.all.find? fun kind =>
      !kind.isSupported && ((Scan.ofText code).findCall? kind.name 0).isSome) = some kind ↔
        FirstDeclined code kind := by
  rw [find?_unsupported, List.find?_eq_some_iff_append, isSome_findCall?_iff]
  simp only [Bool.not_eq_true', ← Bool.not_eq_true, isSome_findCall?_iff, FirstDeclined]
  constructor
  · rintro ⟨hcalls, earlier, later, hkinds, hfirst⟩
    exact ⟨earlier, later, hkinds, hcalls, hfirst⟩
  · rintro ⟨earlier, later, hkinds, hcalls, hfirst⟩
    exact ⟨hcalls, earlier, later, hkinds, hfirst⟩

/-- A script that calls one of the macros is declined for a first one. -/
theorem exists_firstDeclined :
    (∃ kind, FirstDeclined code kind) ↔ ∃ kind ∈ declinedKinds, Calls code kind := by
  simp only [← find?_unsupported_eq_some, ← Option.isSome_iff_exists, find?_unsupported,
    List.find?_isSome, isSome_findCall?_iff]

/-- The check of a script goes by what it calls. -/
theorem callsUnsupported_iff : CallsUnsupported code ↔ ∃ kind ∈ declinedKinds, Calls code kind := by
  have hdeclined (kind : MacroKind) :
      kind ∈ declinedKinds ↔ kind ∈ MacroKind.all ∧ kind.isSupported = false := by
    cases kind <;> decide
  simp only [CallsUnsupported, ← Scan.isSome_findCall?_zero, isSome_findCall?_iff, hdeclined, and_assoc]

section

variable (settings : Settings) (name : Option Text) (strict : Option Bool)

/-- A declined script is refused with nothing recorded but two messages. -/
theorem Draft.compile_of_firstDeclined (h : FirstDeclined code kind) :
    (Draft.start settings code name strict).compile MacroRegistry.builtin =
      (.error (.unsupported kind), (Draft.announced settings code name strict).note 2
        ("Unsupported macro " ++ kind.name ++ " found")) := by
  have hrefuse : (Draft.announced settings code name strict).refuseUnsupported =
      ⟨(Draft.announced settings code name strict).note 2 ("Unsupported macro " ++ kind.name ++ " found"),
        some (.unsupported kind)⟩ := by
    have hscan : (Draft.announced settings code name strict).scan = Scan.ofText code := rfl
    rw [Draft.refuseUnsupported, hscan, find?_unsupported_eq_some.mpr h]
  have hstart : (Draft.start settings code name strict).note 2 ("Compiling setup script for " ++
      (Draft.start settings code name strict).componentName ++ " (" ++
        Text.ofNat (Draft.start settings code name strict).source.length ++ " chars)") =
      Draft.announced settings code name strict := rfl
  rw [Draft.compile, hstart, hrefuse]
  rfl

/-- Only a declined script is refused for a macro that is not supported. -/
theorem compileScript_ne_unsupported (h : ¬ ∃ kind ∈ declinedKinds, Calls code kind) (kind : MacroKind) :
    (compileScript settings code name strict).value ≠ .error (.unsupported kind) := by
  rw [← callsUnsupported_iff] at h
  rw [compileScript_value]
  rcases expandScript_cases settings code name strict with
    ⟨hcalls, -⟩ | ⟨-, -, range, herror⟩ | ⟨-, -, -, -, herror | ⟨-, other, position, herror⟩⟩
  · exact absurd hcalls h
  · simp [herror]
  · simp [herror]
  · simp [herror]

end

/-! ## Where a script goes -/

section

variable {ε φ : Type} (settings : Settings) (given : Option (Options ε))

/-- The text of a compilation is that of its output. -/
theorem compileText_value (code : Text) :
    (compileText settings code given).value =
      (compileScript settings code (given.getD {}).componentName (given.getD {}).strict).value.map
        Output.code := rfl

/-- A declined script is refused for the first macro that it is declined for. -/
theorem compileText_of_firstDeclined (h : FirstDeclined code kind) :
    (compileText settings code given).value = .error (.unsupported kind) := by
  rw [compileText_value, compileScript, Draft.compile_of_firstDeclined settings _ _ h]
  rfl

/-- Only a declined script is refused for a macro that is not supported. -/
theorem compileText_ne_unsupported (h : ¬ ∃ kind ∈ declinedKinds, Calls code kind) (kind : MacroKind) :
    (compileText settings code given).value ≠ .error (.unsupported kind) := by
  have hscript := compileScript_ne_unsupported settings (given.getD {}).componentName
    (given.getD {}).strict h kind
  rw [compileText_value]
  revert hscript
  cases (compileScript settings code (given.getD {}).componentName (given.getD {}).strict).value with
  | ok output => exact fun _ herror => nomatch herror
  | error error => exact fun hne herror => hne (congrArg Except.error (Except.error.inj herror))

/-- Handing a declined script over is one call of the full compiler, whatever else it does. -/
theorem compileWithFallback_of_declined {m : Type → Type} [Monad m] (h : FirstDeclined code kind)
    (full : FullCompiler m ε φ) :
    compileWithFallback settings code given (some full) = (do
      let outcome ← full code (given.getD {})
      return ⟨outcome.mapError .fallback, (compileText settings code given).journal ++
        [⟨1, "Mini compiler declined (" ++ (CompileError.unsupported kind).message ++
          "); delegating to fallback compiler"⟩]⟩) := by
  have hvalue := compileText_of_firstDeclined settings (some (given.getD {})) h
  simp only [compileWithFallback, hvalue]
  rfl

/-- A script that is not declined, or has no full compiler to go to, is compiled as without one. -/
theorem compileWithFallback_of_kept {m : Type → Type} [Monad m] {fallback : Option (FullCompiler m ε φ)}
    (h : (¬ ∃ kind ∈ declinedKinds, Calls code kind) ∨ fallback = none) :
    compileWithFallback settings code given fallback =
      return ⟨(compileText settings code given).value.mapError .compile,
        (compileText settings code given).journal⟩ := by
  have hgiven : compileText settings code (some (given.getD {})) = compileText settings code given := rfl
  simp only [compileWithFallback, hgiven]
  cases hvalue : (compileText settings code given).value with
  | ok text => rfl
  | error error =>
    cases error with
    | unsupported kind =>
      rcases h with hkept | rfl
      · exact absurd hvalue (compileText_ne_unsupported settings given hkept kind)
      · rfl
    | duplicate kind position => rfl
    | overlap range => rfl

/-- The draft with which a compilation ends. -/
def lastDraft (code : Text) : Draft :=
  ((Draft.start settings code (given.getD {}).componentName (given.getD {}).strict).compile
    MacroRegistry.builtin).2

/-! ## Runs with their calls -/

variable {σ : Type}

/-- A full compiler that writes down each of its calls before it acts. -/
def FullCompiler.recorded (full : FullCompiler (StateM σ) ε φ) :
    FullCompiler (StateM (List (Text × Options ε) × σ)) ε φ := fun code options (calls, state) =>
  let (outcome, after) := (full code options).run state
  (outcome, calls ++ [(code, options)], after)

/-- A run of a compilation: its result, the calls that the full compiler received, and the state in
which they left things. -/
structure Observed (ε φ σ : Type) where
  result : ScriptResult φ
  calls : List (Text × Options ε)
  state : σ

/-- Run a compilation from a state and look at the calls. -/
def observe (code : Text) (fallback : Option (FullCompiler (StateM σ) ε φ)) (state : σ) :
    Observed ε φ σ :=
  let (result, calls, after) :=
    (compileWithFallback settings code given (fallback.map FullCompiler.recorded)).run ([], state)
  ⟨result, calls, after⟩

/-- A declined script is handed over in one call. -/
theorem observe_of_declined (h : FirstDeclined code kind) (full : FullCompiler (StateM σ) ε φ)
    (state : σ) :
    (observe settings given code (some full) state).calls = [(code, given.getD {})] ∧
      (observe settings given code (some full) state).result.value =
        ((full code (given.getD {})).run state).1.mapError .fallback ∧
      (observe settings given code (some full) state).state =
        ((full code (given.getD {})).run state).2 ∧
      (compileWithFallback settings code given (some full)).run state =
        ((observe settings given code (some full) state).result,
          (observe settings given code (some full) state).state) := by
  simp only [observe, Option.map_some, compileWithFallback_of_declined settings given h]
  exact ⟨rfl, rfl, rfl, rfl⟩

/-- Where nothing is handed over, nothing is called and the state stays. -/
theorem observe_of_kept {fallback : Option (FullCompiler (StateM σ) ε φ)} (state : σ)
    (h : (¬ ∃ kind ∈ declinedKinds, Calls code kind) ∨ fallback = none) :
    observe settings given code fallback state =
        ⟨⟨(compileText settings code given).value.mapError .compile,
          (compileText settings code given).journal⟩, [], state⟩ ∧
      (compileWithFallback settings code given fallback).run state =
        (⟨(compileText settings code given).value.mapError .compile,
          (compileText settings code given).journal⟩, state) := by
  have hrecorded : (¬ ∃ kind ∈ declinedKinds, Calls code kind) ∨
      fallback.map FullCompiler.recorded = none := h.imp_right (by rintro rfl; rfl)
  rw [observe, compileWithFallback_of_kept settings given hrecorded,
    compileWithFallback_of_kept settings given h]
  exact ⟨rfl, rfl⟩

/-- A script is handed over just when a full compiler is there and the script calls one of three macros.
The full compiler is then called once, with the script and the options as they were given, before
anything is recorded, and its run is what comes of the compilation: its result or fault and the state it
leaves. Without a full compiler the script is refused for the first of the three that it calls. A script
that is not handed over is compiled as without a full compiler, and the state stays. Looking at the calls
changes nothing of this. -/
theorem delegated_iff_calls_declined (code : Text) (fallback : Option (FullCompiler (StateM σ) ε φ))
    (state : σ) :
    let run := observe settings given code fallback state
    (compileWithFallback settings code given fallback).run state = (run.result, run.state) ∧
      (run.calls ≠ [] ↔
        fallback.isSome ∧ ∃ kind ∈ declinedKinds, ∃ p, IsCalledAt code kind.name p) ∧
      (∀ full, fallback = some full → run.calls ≠ [] →
        run.calls = [(code, given.getD {})] ∧
          run.result.value = ((full code (given.getD {})).run state).1.mapError .fallback ∧
          run.state = ((full code (given.getD {})).run state).2 ∧
          (lastDraft settings given code).edits = [] ∧ (lastDraft settings given code).imports = [] ∧
          (lastDraft settings given code).components = [] ∧ (lastDraft settings given code).results = []) ∧
      (∀ kind, fallback = none → FirstDeclined code kind →
        run.result.value = .error (.compile (.unsupported kind))) ∧
      (run.calls = [] → run.state = state ∧
        run.result.value = (compileText settings code given).value.mapError .compile) := by
  intro run
  by_cases hkept : (¬ ∃ kind ∈ declinedKinds, Calls code kind) ∨ fallback = none
  case pos =>
    have hnot : ¬ (fallback.isSome ∧ ∃ kind ∈ declinedKinds, Calls code kind) := by
      rintro ⟨hsome, hdeclined⟩
      rcases hkept with hnone | rfl
      · exact hnone hdeclined
      · cases hsome
    obtain ⟨hobserved, hrun⟩ := observe_of_kept settings given state hkept
    rw [show run = _ from hobserved, hrun]
    refine ⟨rfl, ⟨fun h => absurd rfl h, fun h => absurd h hnot⟩, fun _ _ h => absurd rfl h, ?_,
      fun _ => ⟨rfl, rfl⟩⟩
    intro kind _ hfirst
    rw [compileText_of_firstDeclined settings given hfirst]
    rfl
  case neg =>
    push Not at hkept
    obtain ⟨hdeclined, hsome⟩ := hkept
    obtain ⟨kind, hfirst⟩ := exists_firstDeclined.mpr hdeclined
    obtain ⟨full, rfl⟩ := Option.ne_none_iff_exists'.mp hsome
    obtain ⟨hcalls, hvalue, hstate, hrun⟩ := observe_of_declined settings given hfirst full state
    have hlast := Draft.compile_of_firstDeclined settings (given.getD {}).componentName
      (given.getD {}).strict hfirst
    have hcalled : run.calls ≠ [] := by
      rw [hcalls]
      exact List.cons_ne_nil _ _
    refine ⟨hrun, ⟨fun _ => ⟨rfl, hdeclined⟩, fun _ => hcalled⟩, ?_, ?_, ?_⟩
    · rintro full' hfull -
      obtain rfl := Option.some.inj hfull
      rw [lastDraft, hlast]
      exact ⟨hcalls, hvalue, hstate, rfl, rfl, rfl, rfl⟩
    · exact fun _ hnone => absurd hnone hsome
    · exact fun hnil => absurd hnil hcalled

end

/-- A script with a call of a macro in a comment and a call of another with type arguments. -/
def slotsScript : Text := "// defineModel()\nconst s = defineSlots <T>()"

/-- A full compiler that counts how often it is run. -/
def countingCompiler : FullCompiler (StateM Nat) Unit Unit := fun _ _ runs => (.ok "full", runs + 1)

/-- The script is handed over for the second call, and the full compiler runs once; without one the
script is refused for that call. -/
theorem delegated_slotsScript :
    (observe {} none slotsScript (some countingCompiler) 0).calls = [(slotsScript, {})] ∧
      (observe {} none slotsScript (some countingCompiler) 0).state = 1 ∧
      (observe {} none slotsScript (none : Option (FullCompiler (StateM Nat) Unit Unit)) 0).result.value =
        .error (.compile (.unsupported .defineSlots)) := by
  have hfirst : FirstDeclined slotsScript .defineSlots :=
    ⟨[.defineModel], [.defineOptions], rfl, by decide, by decide⟩
  obtain ⟨-, hiff, hover, -, -⟩ := delegated_iff_calls_declined {} none slotsScript
    (some countingCompiler) 0
  obtain ⟨-, -, -, hrefused, -⟩ := delegated_iff_calls_declined {} none slotsScript
    (none : Option (FullCompiler (StateM Nat) Unit Unit)) 0
  have hcalls : ∃ kind ∈ declinedKinds, Calls slotsScript kind := exists_firstDeclined.mp ⟨_, hfirst⟩
  obtain ⟨honce, -, hcounted, -⟩ := hover _ rfl (hiff.mpr ⟨rfl, hcalls⟩)
  exact ⟨honce, hcounted, hrefused _ rfl hfirst⟩

end SetupScript
