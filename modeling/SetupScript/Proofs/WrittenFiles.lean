import SetupScript.Proofs.ExpansionRuns
import SetupScript.Proofs.PreparedRuns
import SetupScript.Proofs.TextLines

/-!
# The files that a run writes

The writing stage writes the module, and then its preview when asked for, each under a path that the
request decides. So a file is new or changed by a run just when the run wrote other bytes to it, as long
as the tools write no files of their own. The input file is no exception: it is overwritten when it is a
file that its own run writes. Without links that needs one of the two endings of such files; a link may
lead from an output path to any file.
-/

namespace SetupScript

/-! ## Names -/

namespace Path

/-- The parts of a path that was read hold no slash. -/
theorem slash_notMem_of_mem_ofText {t part : Text} (h : part ∈ (ofText t).parts) : '/' ∉ part := by
  intro hslash
  have hcut := Text.sep_eq_false_of_mem_cutAt (List.mem_of_mem_filter h) hslash
  simp at hcut

/-- A name without slashes that is neither empty nor a dot is a path of one part. -/
theorem ofText_of_solid {t : Text} (hslash : '/' ∉ t) (hempty : t ≠ []) (hdot : t ≠ ['.']) :
    ofText t = ⟨[], [t]⟩ := by
  have hsolid : t.all (!(· == '/') ·) := by
    refine List.all_eq_true.mpr fun c hc => ?_
    simp only [Bool.not_eq_true', beq_eq_false_iff_ne]
    rintro rfl
    exact hslash hc
  have hlead : t.takeWhile (· == '/') = [] := by
    cases t with
    | nil => rfl
    | cons c rest =>
      have hc : c ≠ '/' := fun h => hslash (h ▸ List.mem_cons_self)
      simp [hc]
  unfold ofText
  rw [hlead, Text.cutAt_of_solid hsolid]
  simp [hempty, hdot]

/-- A name is its stem and its ending. -/
theorem stem_append_suffix (path : Path) : path.stem ++ path.suffix = path.name := by
  unfold stem suffix splitName
  generalize path.name = name
  dsimp only
  split
  · next h =>
    simp only [Bool.and_eq_true, decide_eq_true_eq] at h
    have hsplit := List.takeWhile_append_dropWhile (p := (· != '.')) (l := name.reverse)
    have hdot : name.reverse.dropWhile (· != '.') ≠ [] := by
      intro hnone
      rw [hnone, List.append_nil] at hsplit
      rw [hsplit] at h
      simp at h
    obtain ⟨c, front, hfront⟩ := List.exists_cons_of_ne_nil hdot
    obtain rfl : c = '.' := by
      have hc := List.head?_dropWhile_not (· != '.') name.reverse
      rw [hfront] at hc
      simpa using hc
    have hname : front.reverse ++ '.' :: (name.reverse.takeWhile (· != '.')).reverse = name := by
      rw [hfront] at hsplit
      simpa using congrArg List.reverse hsplit
    clear h hsplit hdot hfront
    generalize (name.reverse.takeWhile (· != '.')).reverse = ending at hname ⊢
    subst hname
    have hlength :
        (front.reverse ++ '.' :: ending).length - ending.length - 1 = front.reverse.length := by
      simp only [List.length_append, List.length_cons]
      omega
    rw [hlength, List.take_left]
  · simp

/-- A stem holds no slash if no part does. -/
theorem slash_notMem_stem {path : Path} (h : ∀ part ∈ path.parts, '/' ∉ part) : '/' ∉ path.stem := by
  intro hslash
  have hname : '/' ∈ path.name := by
    rw [← path.stem_append_suffix]
    exact List.mem_append_left _ hslash
  unfold name at hname
  cases hlast : path.parts.getLast? with
  | none => simp [hlast] at hname
  | some part =>
    rw [hlast] at hname
    exact h part (List.mem_of_getLast? hlast) hname

end Path

namespace Command

/-! ## Writing -/

section

variable {highlighter : Highlighter (StateM Disk)}

/-- The preview of a module that is written on the disk. -/
def RunState.previewFiles (highlighter : Highlighter (StateM Disk)) (code : Text) (state : RunState)
    (disk : Disk) : List (Path × List UInt8) :=
  match (highlighter .page code disk).1 with
  | .ok page => [(state.output ".html", Text.encode page)]
  | .error _ => []

/-- The files that the writing stage writes, in their order. The preview is made when the module has
been written. -/
def RunState.files (highlighter : Highlighter (StateM Disk)) (state : RunState) (disk : Disk) :
    List (Path × List UInt8) :=
  match state.compiledModule with
  | none => []
  | some code =>
    let module := (state.output ".js", Text.encode (code ++ "\n"))
    module :: if state.preview then state.previewFiles highlighter code (disk.writeFiles [module]) else []

/-- An action that writes a file and goes on only when that succeeds writes the file and then what it
goes on with. -/
theorem writeFiles_of_bind {α : Type} {next : Option FileFault → StateM Disk α} {disk : Disk}
    {path : Path} {bytes : List UInt8} {files : List (Path × List UInt8)}
    (hrefused : ∀ fault, (next (some fault) disk).2 = disk)
    (hwritten : ∀ changed, disk.write path bytes = .ok changed →
      (next none changed).2 = changed.writeFiles files) :
    ((FileSystem.write path bytes >>= next) disk).2 = disk.writeFiles ((path, bytes) :: files) := by
  have hwrite : (FileSystem.write path bytes : StateM Disk _) = Disk.attempt (·.write path bytes) := rfl
  rw [Disk.bind_apply, hwrite, Disk.attempt, Disk.writeFiles]
  cases hwrite : disk.write path bytes with
  | error fault => exact hrefused fault
  | ok changed => exact hwritten changed hwrite

/-- Writing the preview writes its file unless that is refused, or there is nothing to write. -/
theorem writePreview_disk (hwrites : highlighter.WritesNothing) (code : Text) (state : RunState)
    (disk : Disk) :
    (writePreview highlighter code state disk).2 =
      disk.writeFiles (state.previewFiles highlighter code disk) := by
  unfold writePreview RunState.previewFiles
  rw [Disk.bind_apply, hwrites]
  cases (highlighter .page code disk).1 with
  | error fault => cases fault <;> rfl
  | ok page => exact writeFiles_of_bind (fun fault => rfl) fun changed _ => rfl

/-- The writing stage writes its files up to the first refusal. -/
theorem writeOutput_disk (hwrites : highlighter.WritesNothing) (state : RunState) (disk : Disk) :
    (writeOutput highlighter state disk).2 = disk.writeFiles (state.files highlighter disk) := by
  unfold writeOutput RunState.files
  cases state.compiledModule with
  | none => rfl
  | some code =>
    refine writeFiles_of_bind (fun fault => rfl) fun changed hwrite => ?_
    have hmodule : disk.writeFiles [(state.output ".js", Text.encode (code ++ "\n"))] = changed := by
      rw [Disk.writeFiles, hwrite]
      rfl
    dsimp only
    rw [hmodule]
    split
    · exact writePreview_disk hwrites code state changed
    · rfl

/-- After the writing stage the disk stays as it is. -/
theorem runStages_writeOutput_disk (hwrites : highlighter.WritesNothing) (state : RunState)
    (disk : Disk) : (runStages state [writeOutput highlighter, reportResults] disk).2 =
      disk.writeFiles (state.files highlighter disk) := by
  have hreport (state : RunState) (disk : Disk) :
      ((runStages state [reportResults] : StateM Disk _) disk).2 = disk := by
    have hdisk : ((reportResults state : StateM Disk _) disk).2 = disk := by
      unfold reportResults
      rcases state.summary with _ | _ | summary <;> rfl
    rcases ((reportResults state : StateM Disk _) disk).1.ending.value_or_not with
      ⟨next, hnext⟩ | hended
    · rw [(runStages_of_value hnext []).2]
      exact hdisk
    · rw [runStages_of_ended hended]
      exact hdisk
  rw [← writeOutput_disk hwrites]
  rcases (writeOutput highlighter state disk).1.ending.value_or_not with ⟨next, hnext⟩ | hended
  · rw [(runStages_of_value hnext _).2, hreport]
  · rw [runStages_of_ended hended]

end

/-! ## Whole runs -/

/-- The files that a run writes, in their order. A run that ends in its first three stages writes
none. -/
def Request.files (tools : Tools (StateM Disk)) (settings : Settings) (request : Request)
    (disk : Disk) : List (Path × List UInt8) :=
  match (request.prepared tools settings disk).1.ending with
  | .value state => state.files tools.highlighter (request.prepared tools settings disk).2
  | _ => []

/-- The files that a run gives bytes to, by their numbers and the latest first. -/
def Request.written (tools : Tools (StateM Disk)) (settings : Settings) (request : Request)
    (disk : Disk) : List (Nat × List UInt8) :=
  (request.prepared tools settings disk).2.writtenBy (request.files tools settings disk)

section

variable {tools : Tools (StateM Disk)} {settings : Settings} {request : Request} {disk : Disk}

/-- A run that goes on to the writing stage writes the files of its state. -/
theorem Request.files_of_value {state : RunState}
    (h : (request.prepared tools settings disk).1.ending = .value state) :
    request.files tools settings disk =
      state.files tools.highlighter (request.prepared tools settings disk).2 := by
  rw [files, h]

/-- A run that does not go on to the writing stage writes no files. -/
theorem Request.files_of_ended
    (h : ∀ state, (request.prepared tools settings disk).1.ending ≠ .value state) :
    request.files tools settings disk = [] := by
  unfold files
  cases hending : (request.prepared tools settings disk).1.ending with
  | value state => exact absurd hending (h state)
  | exit status => rfl
  | broken fault => rfl

/-- After the stages the disk is what it was before the writing stage, with the files written. -/
theorem Request.runThrough_disk (hwrites : tools.highlighter.WritesNothing) (settings : Settings)
    (request : Request) (disk : Disk) :
    (request.runThrough tools.wrapper (stages settings tools.highlighter) disk).2 =
      (request.prepared tools settings disk).2.writeFiles (request.files tools settings disk) := by
  have hsplit : stages settings tools.highlighter = (stages settings tools.highlighter).take 3 ++
      [writeOutput tools.highlighter, reportResults] := rfl
  rw [hsplit]
  obtain ⟨hgoes, hends⟩ := request.goesOn_runThrough tools.wrapper
    ((stages settings tools.highlighter).take 3) [writeOutput tools.highlighter, reportResults] disk
  rcases (request.prepared tools settings disk).1.ending.value_or_not with ⟨state, hstate⟩ | hended
  · rw [hgoes state hstate, runStages_writeOutput_disk hwrites, files_of_value hstate]
    rfl
  · rw [hends hended, files_of_ended hended]
    rfl

/-- After the stages the disk changes only when the wrapper leaves. -/
theorem Request.run_disk_cases (tools : Tools (StateM Disk)) (settings : Settings) (request : Request)
    (disk : Disk) :
    let through := (request.runThrough tools.wrapper (stages settings tools.highlighter) disk).2
    (request.run tools settings disk).2 = (tools.wrapper.leave request through).2 ∨
      (request.run tools settings disk).2 = through := by
  intro through
  rw [Request.run, Disk.bind_apply]
  cases (request.runThrough tools.wrapper (stages settings tools.highlighter) disk).1.ending with
  | value state => exact .inl rfl
  | exit status => exact .inr rfl
  | broken fault => exact .inr rfl

/-- After the stages a run adds nothing but directories. -/
theorem Request.housed_run (hwrapper : tools.wrapper.WritesNoFiles) (settings : Settings)
    (request : Request) (disk : Disk) :
    Disk.Housed (request.runThrough tools.wrapper (stages settings tools.highlighter) disk).2
      (request.run tools settings disk).2 := by
  rcases request.run_disk_cases tools settings disk with hleft | hended
  · rw [hleft]
    exact hwrapper.leave request _
  · rw [hended]
    exact .refl _

/-- A run is described by the files that it wrote. -/
theorem Request.rewritten_run (hwrites : tools.highlighter.WritesNothing)
    (hwrapper : tools.wrapper.WritesNoFiles) (settings : Settings) (request : Request) (disk : Disk) :
    Disk.Rewritten disk (request.run tools settings disk).2 (request.written tools settings disk) := by
  refine .of_housed (request.housed_prepared hwrites hwrapper settings disk)
    (Disk.rewritten_writeFiles _ _) ?_
  rw [← request.runThrough_disk hwrites settings disk]
  exact request.housed_run hwrapper settings disk

/-- A run on a disk without links makes none. -/
theorem Request.unlinked_run (hwrites : tools.highlighter.WritesNothing)
    (hwrapper : tools.wrapper.WritesNoFiles) (settings : Settings) (request : Request)
    (h : disk.Unlinked) : (request.run tools settings disk).2.Unlinked := by
  refine (request.housed_run hwrapper settings disk).unlinked ?_
  rw [request.runThrough_disk hwrites settings disk]
  exact Disk.unlinked_writeFiles ((request.housed_prepared hwrites hwrapper settings disk).unlinked h) _

/-- The parts of an input path hold no slash. -/
theorem Request.slash_notMem_input {input : Path} (h : request.input = .ok input) :
    ∀ part ∈ input.parts, '/' ∉ part := by
  unfold Request.input at h
  cases hdir : request.inputDir with
  | absent | void => rw [hdir] at h; cases h
  | text dir =>
    cases hfile : request.inputFile with
    | absent | void => rw [hdir, hfile] at h; cases h
    | text file =>
      rw [hdir, hfile] at h
      obtain rfl := Except.ok.inj h
      intro part hpart
      unfold Path.join at hpart
      split at hpart
      · rcases List.mem_append.mp hpart with hpart | hpart
        · exact Path.slash_notMem_of_mem_ofText hpart
        · exact Path.slash_notMem_of_mem_ofText hpart
      · exact Path.slash_notMem_of_mem_ofText hpart

/-- The endings that a request gives to the files of its run. -/
def Request.Writes (request : Request) (ending : Text) : Prop :=
  ending = ".js" ∨ ending = ".html" ∧ request.preview

/-- An output path ends in the stem of the input with the ending. -/
theorem RunState.getLast?_output {state : RunState} (hstem : '/' ∉ state.inputSourceFile.stem)
    {ending : Text} (hlong : 2 ≤ ending.length) (hending : '/' ∉ ending) :
    (state.output ending).parts.getLast? = some (state.inputSourceFile.stem ++ ending) := by
  have hlength : 2 ≤ (state.inputSourceFile.stem ++ ending).length := by
    rw [List.length_append]
    omega
  have hname : Path.ofText (state.inputSourceFile.stem ++ ending) =
      ⟨[], [state.inputSourceFile.stem ++ ending]⟩ := by
    refine Path.ofText_of_solid ?_ ?_ ?_
    · simp [hstem, hending]
    · intro hnone
      simp [hnone] at hlength
    · intro hdot
      simp [hdot] at hlength
  have hjoin (directory : Path) (name : Text) :
      (directory.join ⟨[], [name]⟩).parts = directory.parts ++ [name] := rfl
  rw [output, hname, hjoin, List.getLast?_concat]

/-- What a run writes has one of its output paths, whose last part is the stem of the input with the
ending. -/
theorem Request.of_mem_files (hdirs : tools.wrapper.HandsOnGiven) {path : Path} {bytes : List UInt8}
    (h : (path, bytes) ∈ request.files tools settings disk) :
    ∃ ending input, request.Writes ending ∧ request.output ending = .ok path ∧
      request.input = .ok input ∧ path.parts.getLast? = some (input.stem ++ ending) := by
  rcases (request.prepared tools settings disk).1.ending.value_or_not with ⟨state, hstate⟩ | hended
  · rw [files_of_value hstate] at h
    have hlocated : request.Located state := request.gives_located hdirs settings disk state hstate
    have hending : ∃ ending, request.Writes ending ∧ state.output ending = path := by
      unfold RunState.files at h
      split at h
      · cases h
      · rcases List.mem_cons.mp h with hmodule | hpreview
        · exact ⟨".js", .inl rfl, (Prod.mk.inj hmodule).1.symm⟩
        · split at hpreview
          · next hasked =>
            unfold RunState.previewFiles at hpreview
            split at hpreview
            · obtain ⟨rfl, -⟩ := Prod.mk.inj (List.mem_singleton.mp hpreview)
              exact ⟨".html", .inr ⟨rfl, hlocated.preview ▸ hasked⟩, rfl⟩
            · cases hpreview
          · cases hpreview
    obtain ⟨ending, hwrites, rfl⟩ := hending
    have hending : 2 ≤ ending.length ∧ '/' ∉ ending := by
      rcases hwrites with rfl | ⟨rfl, -⟩ <;> decide
    exact ⟨ending, state.inputSourceFile, hwrites, hlocated.output ending, hlocated.input,
      RunState.getLast?_output (Path.slash_notMem_stem (slash_notMem_input hlocated.input)) hending.1
        hending.2⟩
  · rw [files_of_ended hended] at h
    cases h

/-- Each file that a run writes is the one that one of its output paths leads to afterwards. -/
theorem Request.of_mem_written (hwrites : tools.highlighter.WritesNothing)
    (hwrapper : tools.wrapper.WritesNoFiles) (hdirs : tools.wrapper.HandsOnGiven) {number : Nat}
    {bytes : List UInt8} (h : (number, bytes) ∈ request.written tools settings disk) :
    ∃ ending path input, request.Writes ending ∧ request.output ending = .ok path ∧
      (request.run tools settings disk).2.numberAt? path = some number ∧
      request.input = .ok input ∧ path.parts.getLast? = some (input.stem ++ ending) := by
  obtain ⟨path, hmem, hnumber⟩ := Disk.of_mem_writtenBy h
  obtain ⟨ending, input, hending, houtput, hinput, hlast⟩ := of_mem_files hdirs hmem
  rw [← request.runThrough_disk hwrites settings disk] at hnumber
  exact ⟨ending, path, input, hending, houtput,
    (request.housed_run hwrapper settings disk).keeps.numberAt? hnumber, hinput, hlast⟩

/-- On a disk without links, an input file that its run writes has the ending of what is written. -/
theorem Request.writes_suffix (hwrites : tools.highlighter.WritesNothing)
    (hwrapper : tools.wrapper.WritesNoFiles) (hdirs : tools.wrapper.HandsOnGiven) (hdisk : disk.Unlinked)
    {input : Path} {number : Nat} {bytes : List UInt8} (hinput : request.input = .ok input)
    (hnumber : disk.numberAt? input = some number)
    (h : (number, bytes) ∈ request.written tools settings disk) : request.Writes input.suffix := by
  obtain ⟨ending, path, input', hending, -, hwritten, hinput', hname⟩ :=
    of_mem_written hwrites hwrapper hdirs h
  obtain rfl : input = input' := Except.ok.inj (hinput.symm.trans hinput')
  have hafter := request.unlinked_run hwrites hwrapper settings hdisk
  obtain ⟨place, hfollow, hnode⟩ := Disk.numberAt?_eq_some.mp hnumber
  obtain ⟨place', hfollow', hnode'⟩ := Disk.numberAt?_eq_some.mp hwritten
  -- the file stands in one place, so both paths end in the name it has there
  obtain rfl : place = place' := hafter.places place place' number
    ((request.rewritten_run hwrites hwrapper settings disk).keeps.node? hnode) hnode'
  have hlast : input.parts.getLast? = some (input.stem ++ ending) := by
    rw [← hdisk.getLast?_of_follow hfollow (by simp [hnode]), ← hname]
    exact hafter.getLast?_of_follow hfollow' (by simp [hnode'])
  have hsuffix : input.stem ++ input.suffix = input.stem ++ ending := by
    rw [input.stem_append_suffix, Path.name, hlast]
    rfl
  exact List.append_cancel_left hsuffix ▸ hending

end

/-- With any highlighter that leaves the disk alone, and any wrapper that makes nothing but directories
and hands on the two that were given: the content of a place is new or changed after a run just when the
run wrote other bytes to the file there, and each file that it wrote is the one that an output path of its
request leads to, in the one place where it stands if the disk has no links. A run that ends in its first
three stages changes no file. The input file is kept unless the run writes other bytes to it, which, on a
disk without links, needs an input with one of the endings of written files. -/
theorem run_changes_only_outputs (settings : Settings) {tools : Tools (StateM Disk)}
    (hwrites : tools.highlighter.WritesNothing) (hwrapper : tools.wrapper.WritesNoFiles)
    (hdirs : tools.wrapper.HandsOnGiven) {arguments : List Text} {request : Request}
    (hrequest : readArguments tools.wrapper.flags arguments = .ok request) (disk : Disk) :
    let after := ((run tools settings arguments : StateM Disk _) disk).2
    let written := request.written tools settings disk
    (∀ place, after.content? place ≠ disk.content? place ↔
      ∃ number bytes, after.node? place = some (.file number) ∧
        written.lookup number = some bytes ∧ disk.content? place ≠ some bytes) ∧
    (∀ number bytes, (number, bytes) ∈ written → ∃ ending path, request.Writes ending ∧
      request.output ending = .ok path ∧ after.numberAt? path = some number ∧
      (disk.Unlinked → ∀ place, after.node? place = some (.file number) →
        after.follow path = .ok place)) ∧
    ((∀ state, (request.prepared tools settings disk).1.ending ≠ .value state) →
      ∀ place, after.content? place = disk.content? place) ∧
    ∀ input old, request.input = .ok input → disk.read input = .ok old →
      (after.read input = .ok old ↔ ∀ number bytes, disk.numberAt? input = some number →
        written.lookup number = some bytes → bytes = old) ∧
      (disk.Unlinked → ¬ request.Writes input.suffix → after.read input = .ok old) := by
  intro after written
  have hafter : after = (request.run tools settings disk).2 := by
    simp only [after, run, hrequest]
    rfl
  rw [hafter]
  have hrewritten := request.rewritten_run hwrites hwrapper settings disk
  refine ⟨hrewritten.content?_ne_iff, ?_, fun hended place => ?_, fun input old hinput hold => ?_⟩
  · intro number bytes hmem
    obtain ⟨ending, path, -, hending, houtput, hnumber, -⟩ :=
      Request.of_mem_written hwrites hwrapper hdirs hmem
    refine ⟨ending, path, hending, houtput, hnumber, fun hdisk place hplace => ?_⟩
    obtain ⟨place', hfollow, hnode⟩ := Disk.numberAt?_eq_some.mp hnumber
    have honly := (request.unlinked_run hwrites hwrapper settings hdisk).places place place' number hplace hnode
    rw [honly, hfollow]
  · refine hrewritten.content?_of_unwritten fun number _ => ?_
    rw [Request.written, Request.files_of_ended hended]
    rfl
  · refine ⟨hrewritten.read_iff hold, fun hdisk hsuffix => (hrewritten.read_iff hold).mpr ?_⟩
    intro number bytes hnumber hlookup
    obtain ⟨front, back, hwritten, -⟩ := List.lookup_eq_some_iff.mp hlookup
    have hmem : (number, bytes) ∈ request.written tools settings disk := by
      rw [hwritten]
      simp
    exact absurd (Request.writes_suffix hwrites hwrapper hdirs hdisk hinput hnumber hmem) hsuffix

/-- A command line that compiles a component file into another directory. -/
def componentLine : List Text := ["app", "build", "--inputFile", "Card.vue", "--preview"]

/-- What it asks for. -/
def componentRequest : Request :=
  ⟨.text "app", .text "build", .text "Card.vue", none, .text ".", true, 1, []⟩

/-- A disk with one component file. -/
def componentDisk : Disk where
  nodes := [(["app"], .directory), (["app", "Card.vue"], .file 0)]
  contents := [(0, Text.encode "<script setup>const a = 1</script>")]

/-- Nothing on it is linked. -/
theorem unlinked_componentDisk : componentDisk.Unlinked := by
  have honly {parts : List Text} {node : Node} (h : componentDisk.node? parts = some node)
      (hnode : node ≠ .directory) : parts = ["app", "Card.vue"] ∧ node = .file 0 := by
    have hmem := Disk.mem_nodes_of_node? h hnode
    simp only [componentDisk, List.mem_cons, Prod.mk.injEq, List.not_mem_nil, or_false] at hmem
    rcases hmem with ⟨-, rfl⟩ | hfile
    · exact absurd rfl hnode
    · exact hfile
  refine ⟨fun parts target hlink => ?_, fun parts other number hparts hother => ?_⟩
  · obtain ⟨-, hfile⟩ := honly hlink (by simp)
    cases hfile
  · rw [(honly hparts (by simp)).1, (honly hother (by simp)).1]

/-- A component file is there after its run, with the tools of the program, as it was before. -/
theorem component_kept_by_run :
    let input : Path := ⟨[], ["app", "Card.vue"]⟩
    let source := Text.encode "<script setup>const a = 1</script>"
    readArguments (standardWrapper (m := StateM Disk)).flags componentLine = .ok componentRequest ∧
      componentRequest.input = .ok input ∧ componentDisk.read input = .ok source ∧
      componentDisk.Unlinked ∧ ¬ componentRequest.Writes input.suffix ∧
      ((run standardTools {} componentLine : StateM Disk _) componentDisk).2.read input =
        .ok source := by
  intro input source
  have hrequest : readArguments (standardWrapper (m := StateM Disk)).flags componentLine =
      .ok componentRequest := by decide +kernel
  have hinput : componentRequest.input = .ok input := by rfl
  have hread : componentDisk.read input = .ok source := by rfl
  have hsuffix : ¬ componentRequest.Writes input.suffix := by
    unfold Request.Writes
    decide +kernel
  have hkept := (@run_changes_only_outputs {} standardTools standardHighlighter_writesNothing
    standardWrapper_writesNoFiles standardWrapper_handsOnGiven componentLine componentRequest hrequest
      componentDisk).2.2.2 input source hinput hread
  exact ⟨hrequest, hinput, hread, unlinked_componentDisk, hsuffix, hkept.2 unlinked_componentDisk hsuffix⟩

/-- A command line that compiles a script into its own directory. -/
def ownLine : List Text := ["app", "app", "--inputFile", "setup.js"]

/-- What it asks for. -/
def ownRequest : Request :=
  ⟨.text "app", .text "app", .text "setup.js", none, .text ".", false, 1, []⟩

/-- A disk with one script. -/
def ownDisk : Disk where
  nodes := [(["app"], .directory), (["app", "setup.js"], .file 0)]
  contents := [(0, Text.encode "const a = 1")]

/-- The state that a stage or run goes on with. -/
def Ending.value? {α : Type} : Ending α → Option α
  | .value result => some result
  | _ => none

/-- Going on with a state says which. -/
theorem Ending.eq_value_of_value? {α : Type} {ending : Ending α} {result : α}
    (h : ending.value? = some result) : ending = .value result := by
  cases ending with
  | value found => exact congrArg Ending.value (Option.some.inj h)
  | exit status => cases h
  | broken fault => cases h

/-- A setup script that compiles goes on to the writing stage with its module, which is not shown at a
low verbosity. -/
theorem compileSource_of_ok {settings : Settings} (highlighter : Highlighter (StateM Disk))
    {state : RunState} {output : Output} (hsetup : state.script.isSetup) (hquiet : state.verbosity < 3)
    (h : (compileScript settings state.script.content (some state.nameOrStem) none).value = .ok output)
    (disk : Disk) :
    (compileSource settings highlighter state disk).1.ending =
        .value { state with compiledModule := some output.code } ∧
      (compileSource settings highlighter state disk).2 = disk := by
  let options : Options Unit := { componentName := some state.nameOrStem }
  have htext : (compileText settings state.script.content (some options)).value = .ok output.code := by
    simp only [compileText, options, Option.getD_some, h]
    rfl
  have hvalue : (Id.run (state.script.compile settings (some options)
      (none : Option (FullCompiler Id Unit Empty)))).value = .ok output.code := by
    simp only [ScriptBlock.compile, if_pos hsetup, compileWithFallback, Option.getD_some, htext]
    rfl
  have hshown : showModule highlighter output.code state = pure (.ok []) :=
    if_neg (Int.not_le.mpr hquiet)
  unfold compileSource
  simp only [options] at hvalue
  simp only [hvalue, keepModule, hshown]
  exact ⟨rfl, rfl⟩

/-- What is written last is the last character. -/
theorem getLast?_encode_concat (t : Text) : (Text.encode (t ++ "\n")).getLast? = some 10 := by
  have hbreak : Text.encode (t ++ "\n") = Text.encode t ++ [10] := by
    unfold Text.encode
    rw [List.flatMap_append]
    rfl
  rw [hbreak, List.getLast?_concat]

/-- The wrapper of the program does nothing after the stages. -/
theorem Request.run_standardTools_disk (settings : Settings) (request : Request) (disk : Disk) :
    ((request.run standardTools settings : StateM Disk _) disk).2 =
      ((request.runThrough standardWrapper (stages settings standardHighlighter) :
        StateM Disk _) disk).2 := by
  rcases request.run_disk_cases standardTools settings disk with hleft | hended
  · exact hleft
  · exact hended

/-- The run writes the module to the place of the script. -/
theorem ownDisk_after_run : ∃ code : Text, ((run standardTools {} ownLine : StateM Disk _) ownDisk).2 =
    ownDisk.writeFiles [(⟨[], ["app", "setup.js"]⟩, Text.encode (code ++ "\n"))] := by
  have hrequest : readArguments (standardWrapper (m := StateM Disk)).flags ownLine = .ok ownRequest := by
    decide +kernel
  have hread : ((ownRequest.runThrough standardWrapper ((stages {} standardHighlighter).take 2) :
        StateM Disk _) ownDisk).2 = ownDisk ∧
      ((ownRequest.runThrough standardWrapper ((stages {} standardHighlighter).take 2) :
        StateM Disk _) ownDisk).1.ending.value?.map (fun state => (state.script.content,
          state.script.isSetup, state.preview, state.verbosity, state.output ".js")) =
      some ("const a = 1".toList, true, false, 1, ⟨[], ["app", "setup.js"]⟩) := by
    decide +kernel
  have hcompiles : ¬ CallsUnsupported "const a = 1".toList ∧
      ¬ Entangled (Settings.componentExtension {}) "const a = 1".toList := by decide +kernel
  obtain ⟨hdisk, hfound⟩ := hread
  obtain ⟨state, hvalue, hstate⟩ := Option.map_eq_some_iff.mp hfound
  simp only [Prod.mk.injEq] at hstate
  obtain ⟨hcontent, hsetup, hpreview, hverbosity, houtput⟩ := hstate
  have hok : ∃ output,
      (compileScript {} state.script.content (some state.nameOrStem) none).value = .ok output := by
    rw [hcontent]
    exact Draft.exists_output hcompiles.1 hcompiles.2 rfl
  obtain ⟨output, hok⟩ := hok
  obtain ⟨hcompiled, hunchanged⟩ := compileSource_of_ok standardHighlighter hsetup
    (by rw [hverbosity]; decide) hok ownDisk
  have hrun := (ownRequest.goesOn_runThrough standardWrapper ((stages {} standardHighlighter).take 2)
    [compileSource {} standardHighlighter, writeOutput standardHighlighter, reportResults] ownDisk).1 state
      (Ending.eq_value_of_value? hvalue)
  rw [hdisk, (runStages_of_value hcompiled _).2, hunchanged,
    runStages_writeOutput_disk standardHighlighter_writesNothing] at hrun
  have hfiles : RunState.files standardHighlighter { state with compiledModule := some output.code }
      ownDisk = [(⟨[], ["app", "setup.js"]⟩, Text.encode (output.code ++ "\n"))] := by
    simp only [RunState.files, hpreview, ← houtput]
    rfl
  rw [hfiles] at hrun
  refine ⟨output.code, ?_⟩
  have hline : ((run standardTools {} ownLine : StateM Disk _) ownDisk).2 =
      ((ownRequest.run standardTools {} : StateM Disk _) ownDisk).2 := by
    simp only [run, show readArguments standardTools.wrapper.flags ownLine = _ from hrequest]
    rfl
  rw [hline, Request.run_standardTools_disk]
  exact hrun

/-- A script that is compiled into its own directory is overwritten by its module. -/
theorem script_overwritten_in_own_directory :
    let input : Path := ⟨[], ["app", "setup.js"]⟩
    let source := Text.encode "const a = 1"
    readArguments (standardWrapper (m := StateM Disk)).flags ownLine = .ok ownRequest ∧
      ownRequest.input = .ok input ∧ ownDisk.read input = .ok source ∧
      ((run standardTools {} ownLine : StateM Disk _) ownDisk).2.read input ≠ .ok source := by
  intro input source
  have hrequest : readArguments (standardWrapper (m := StateM Disk)).flags ownLine = .ok ownRequest := by
    decide +kernel
  refine ⟨hrequest, rfl, rfl, fun hsame => ?_⟩
  obtain ⟨code, hrun⟩ := ownDisk_after_run
  have hplace : ownDisk.follow input = .ok ["app", "setup.js"] := by decide +kernel
  have hwrite : ∃ changed, ownDisk.write input (Text.encode (code ++ "\n")) = .ok changed := by
    rw [Disk.write, hplace]
    exact ⟨_, rfl⟩
  obtain ⟨changed, hwrite⟩ := hwrite
  rw [hrun, Disk.writeFiles, hwrite] at hsame
  have hbytes : Text.encode (code ++ "\n") = source :=
    Except.ok.inj ((Disk.read_of_write hwrite).symm.trans hsame)
  -- The module ends with a line break and the script does not.
  have hlast := getLast?_encode_concat code
  rw [hbytes] at hlast
  exact absurd hlast (by decide +kernel)

end Command

end SetupScript
