import SetupScript.Command.Standard
import SetupScript.Proofs.DiskChanges

/-!
# What is assumed of the tools

Runs are reasoned about for any highlighter and any wrapper. What a statement needs of them it says by
name: that highlighting always gives a text and leaves the disk alone, that the wrapper makes nothing
but directories, hands on the two that were given, and takes no notice of the verbosity. The tools of
the command line program have all these properties.
-/

namespace SetupScript.Command

open Disk (Houses)

/-- Highlighting always gives a text. -/
def Highlighter.Total (highlighter : Highlighter (StateM Disk)) : Prop :=
  ∀ format code disk, ∃ text, (highlighter format code disk).1 = .ok text

/-- Highlighting leaves the disk as it is. -/
def Highlighter.WritesNothing (highlighter : Highlighter (StateM Disk)) : Prop :=
  ∀ format code disk, (highlighter format code disk).2 = disk

/-- The wrapper makes nothing but directories. -/
structure Wrapper.WritesNoFiles (wrapper : Wrapper (StateM Disk)) : Prop where
  enter : ∀ request, Houses (wrapper.enter request)
  leave : ∀ request, Houses (wrapper.leave request)

/-- The directories that the wrapper hands on are those that were given. -/
def Wrapper.HandsOnGiven (wrapper : Wrapper (StateM Disk)) : Prop :=
  ∀ request disk inputDir outputDir, (wrapper.enter request disk).1 = .ok (inputDir, outputDir) →
    request.inputDir.path = .ok inputDir ∧ request.outputDir.path = .ok outputDir

/-- The wrapper does the same at every verbosity. -/
structure Wrapper.IgnoresVerbosity (wrapper : Wrapper (StateM Disk)) : Prop where
  enter : ∀ request verbosity,
    wrapper.enter { request with verbosity := verbosity } = wrapper.enter request
  leave : ∀ request verbosity,
    wrapper.leave { request with verbosity := verbosity } = wrapper.leave request

/-! ## The tools of the program -/

/-- The program's highlighter always gives a text. -/
theorem standardHighlighter_total : Highlighter.Total standardHighlighter :=
  fun _ _ _ => ⟨_, rfl⟩

/-- It leaves the disk as it is. -/
theorem standardHighlighter_writesNothing : Highlighter.WritesNothing standardHighlighter :=
  fun _ _ _ => rfl

/-- The program's wrapper does not look at the verbosity. -/
theorem standardWrapper_ignoresVerbosity : Wrapper.IgnoresVerbosity standardWrapper :=
  ⟨fun _ _ => rfl, fun _ _ => rfl⟩

/-- Making the output directory adds nothing but directories. -/
theorem houses_prepareOutput (path : Path) : Houses (prepareOutput path) := by
  refine .bind (.findKind path) fun found => ?_
  cases found with
  | error error => exact .pure _
  | ok kind =>
    cases kind with
    | none => exact .makeDirectories false path
    | some kind => exact .pure _

/-- Insisting on a directory changes nothing. -/
theorem houses_requireDirectory (path : Path) : Houses (requireDirectory path) := by
  refine .bind (.findKind path) fun found => ?_
  cases found with
  | error error => exact .pure _
  | ok kind =>
    cases kind with
    | none => exact .pure _
    | some kind => cases kind <;> exact .pure _

/-- The program's wrapper makes nothing but directories. -/
theorem standardWrapper_writesNoFiles : Wrapper.WritesNoFiles standardWrapper := by
  refine ⟨fun request => ?_, fun request => .pure ()⟩
  change Houses (enterDirectories request)
  unfold enterDirectories
  split
  · exact .pure _
  · exact .pure _
  · refine .bind (houses_prepareOutput _) fun refused => ?_
    cases refused with
    | some error => exact .pure _
    | none =>
      refine .bind (houses_requireDirectory _) fun refused => ?_
      cases refused with
      | some record => exact .pure _
      | none =>
        refine .bind (houses_requireDirectory _) fun refused => ?_
        cases refused with
        | some record => exact .pure _
        | none => exact .pure _

/-- The computation hands on these two directories, or it ends the run. -/
def HandsOn (given : Path × Path) (action : StateM Disk (Except (Record Empty) (Path × Path))) : Prop :=
  ∀ disk paths, (action disk).1 = .ok paths → paths = given

namespace HandsOn

variable {given : Path × Path}

/-- Handing them on. -/
theorem pure (given : Path × Path) : HandsOn given (Pure.pure (.ok given)) :=
  fun _ _ h => (Except.ok.inj h).symm

/-- Ending the run. -/
theorem ended (record : Record Empty) : HandsOn given (Pure.pure (.error record)) :=
  fun _ _ h => by cases h

/-- What comes after an action decides. -/
theorem bind {α : Type} {action : StateM Disk α}
    {next : α → StateM Disk (Except (Record Empty) (Path × Path))} (h : ∀ a, HandsOn given (next a)) :
    HandsOn given (action >>= next) :=
  fun disk => h (action disk).1 (action disk).2

end HandsOn

/-- The program's wrapper hands on the directories that were given. -/
theorem standardWrapper_handsOnGiven : Wrapper.HandsOnGiven standardWrapper := by
  intro request disk inputDir outputDir hgiven
  have hhands {given given' : Path} (hinput : request.inputDir.path = .ok given)
      (houtput : request.outputDir.path = .ok given') :
      HandsOn (given, given') (enterDirectories request) := by
    unfold enterDirectories
    rw [hinput, houtput]
    refine .bind fun refused => ?_
    cases refused with
    | some error => exact .ended _
    | none =>
      refine .bind fun refused => ?_
      cases refused with
      | some record => exact .ended _
      | none =>
        refine .bind fun refused => ?_
        cases refused with
        | some record => exact .ended _
        | none => exact .pure _
  have hended (fault : RunFault) (h : (enterDirectories request : StateM Disk _) =
      pure (.error (breakOff [] fault))) : False := by
    have hnone : ((enterDirectories request : StateM Disk _) disk).1 = .ok (inputDir, outputDir) := hgiven
    rw [h] at hnone
    cases hnone
  cases hinput : request.inputDir.path with
  | error fault =>
    refine (hended fault ?_).elim
    rw [enterDirectories, hinput]
  | ok given =>
    cases houtput : request.outputDir.path with
    | error fault =>
      refine (hended fault ?_).elim
      rw [enterDirectories, hinput, houtput]
    | ok given' =>
      obtain ⟨rfl, rfl⟩ := Prod.mk.inj (hhands hinput houtput disk _ hgiven)
      exact ⟨rfl, rfl⟩

end SetupScript.Command
