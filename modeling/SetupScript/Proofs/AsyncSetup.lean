import SetupScript.Proofs.CodeWords
import SetupScript.Proofs.EmittedTexts

/-!
# Setup functions that wait

The setup function is asynchronous just when the script body awaits something outside all braces. The
argument of an expose call is cut out of the script before the body is looked at, and goes into the
same function after it. So an `await` in that argument makes the function asynchronous only when
the body has one of its own.
-/

namespace SetupScript

/-- The text awaits something, in code and outside all braces. -/
def Awaits (t : Text) : Prop := HasTopLevelWord t ({} : Settings).suspendKeyword

/-- The search for the keyword finds out whether a text awaits something. -/
theorem hasTopLevelWord_iff_awaits (t : Text) :
    (Scan.ofText t).hasTopLevelWord ({} : Settings).suspendKeyword ↔ Awaits t :=
  Scan.hasTopLevelWord_iff (by decide) (by decide)

instance (t : Text) : Decidable (Awaits t) := decidable_of_iff _ (hasTopLevelWord_iff_awaits t)

/-! ## What the setup function holds -/

/-- The statement that exposes something to the parent. -/
def exposeStatement : Option Text → Text
  | none => []
  | some argument => "    " ++ ({} : Settings).contextParam ++ ".expose(" ++ argument ++ ");\n"

/-- The expose statement of a draft is that of what its output exposes. -/
theorem Draft.exposeText_eq {draft : Draft} (hsettings : draft.settings = {}) :
    draft.exposeText = exposeStatement (draft.expose.filter (!·.isEmpty)) := by
  unfold exposeText exposeStatement
  rw [hsettings]
  rcases draft.expose with _ | _ | ⟨c, rest⟩
  · rfl
  · rfl
  · rfl

/-- The setup function of a module holds the body and then the expose statement, after a helper and
bindings of imports, and before the object that it returns. -/
theorem Draft.moduleText_around {draft : Draft} (hsettings : draft.settings = {}) (body : Text)
    (names : List Text) (isAsync : Bool) :
    ∃ front helper, (helper = [] ∨ helper = defaultsHelperText {}) ∧
      draft.moduleText body names isAsync = front ++ (setupHead isAsync ++ (helper ++
        (draft.imports.flatMap ImportRecord.binding ++ (("\n" ++ (body ++ "\n\n")) ++
          (exposeStatement (draft.expose.filter (!·.isEmpty)) ++
            (returnText names ++ "  \x7d\n\x7d")))))) := by
  have hhelper : (if draft.defaultsUsed then defaultsHelperText {} else []) = [] ∨
      (if draft.defaultsUsed then defaultsHelperText {} else []) = defaultsHelperText {} := by
    split
    · exact .inr rfl
    · exact .inl rfl
  -- regrouped over variables, so that the fixed texts are never evaluated
  have hshape (a b c d e f g h i j k l m : Text) :
      a ++ ((b ++ (c ++ (d ++ (e ++ (f ++ (g ++ (h ++ (i ++ (j ++ (k ++ l)))))))))) ++ m) =
        (a ++ (b ++ (c ++ (d ++ e)))) ++ (f ++ (g ++ (h ++ (i ++ (j ++ (k ++ (l ++ m))))))) := by
    simp only [List.append_assoc]
  have hend : ("  \x7d\n" : Text) ++ ['}'] = "  \x7d\n\x7d" := rfl
  have hcode := moduleText_eq hsettings body names isAsync
  unfold moduleInner at hcode
  rw [exposeText_eq hsettings, hshape, hend] at hcode
  exact ⟨_, _, hhelper, hcode⟩

/-! ## When the setup function is asynchronous -/

/-- The setup function holds the body and the expose argument, which comes from the script, and it is
asynchronous just when the body awaits something. So what is awaited in the argument goes unnoticed just
when nothing is awaited in the body. -/
theorem async_iff_body_awaits {source : Text} {name : Option Text} {strict : Option Bool}
    {output : Output} (h : (compileScript {} source name strict).value = .ok output) :
    (∃ front helper, (helper = [] ∨ helper = defaultsHelperText {}) ∧
      output.code = front ++ (Draft.setupHead output.isAsync ++ (helper ++
        (output.imports.flatMap ImportRecord.binding ++
          (("\n" ++ (cleanedBody source name strict ++ "\n\n")) ++ (exposeStatement output.expose ++
            (Draft.returnText output.bindings ++ "  \x7d\n\x7d"))))))) ∧
    (∀ argument, output.expose = some argument → ∃ start stop : Nat, IsArgument source start stop ∧
      argument = Text.trim (source.slice start stop)) ∧
    (output.isAsync = true ↔ Awaits (cleanedBody source name strict)) := by
  obtain ⟨hsourced, hsettings, houtput⟩ := sourced_of_compiles h
  have hasync : output.isAsync = true ↔ Awaits (cleanedBody source name strict) := by
    rw [← hasTopLevelWord_iff_awaits, ← hsettings, houtput]
    rfl
  refine ⟨?_, fun argument hargument => ?_, hasync⟩
  · obtain ⟨front, helper, hhelper, hcode⟩ := Draft.moduleText_around hsettings
      (cleanedBody source name strict) output.bindings output.isAsync
    refine ⟨front, helper, hhelper, ?_⟩
    rw [houtput] at hcode ⊢
    exact hcode
  · rw [houtput] at hargument
    obtain ⟨hexpose, hsome⟩ := Option.filter_eq_some_iff.mp hargument
    rcases hsourced.expose argument hexpose with rfl | hstretch
    · cases hsome
    · exact hstretch

/-- A script that awaits something in its body and in the argument of an expose call. -/
def awaitsTwice : Text := "await g()\ndefineExpose(await f())"

/-- Its setup function is asynchronous, for the body awaits something. -/
theorem async_awaitsTwice :
    ∃ output, (compileScript {} awaitsTwice none none).value = .ok output ∧
      output.expose = some "await f()" ∧ output.isAsync = true := by
  obtain ⟨hcompiles, -, -, hbody⟩ := compileScript_of_importless awaitsTwice (by decide +kernel)
    (by decide +kernel) (by decide +kernel) (by decide +kernel)
  obtain ⟨-, -, hasync⟩ := async_iff_body_awaits hcompiles
  have hawaits : Awaits ((importlessDraft awaitsTwice).body (importlessText awaitsTwice)) := by
    decide +kernel
  exact ⟨_, hcompiles, by decide +kernel, hasync.mpr (hbody ▸ hawaits)⟩

/-- What is awaited in the argument of an expose call alone does not make the setup function
asynchronous. -/
theorem expose_awaits_unnoticed :
    ∃ output, (compileScript {} "defineExpose(await f())" none none).value = .ok output ∧
      (∃ argument, output.expose = some argument ∧ Awaits argument) ∧ output.isAsync = false := by
  obtain ⟨hcompiles, -⟩ := compileScript_of_importless "defineExpose(await f())" (by decide +kernel)
    (by decide +kernel) (by decide +kernel) (by decide +kernel)
  exact ⟨_, hcompiles, ⟨"await f()", by decide +kernel, by decide +kernel⟩, by decide +kernel⟩

end SetupScript
