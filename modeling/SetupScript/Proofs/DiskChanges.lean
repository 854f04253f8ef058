import SetupScript.Proofs.DiskPaths

/-!
# What changes on a disk

A disk changes in three ways: a directory is made where nothing is, a file is made where nothing is, and
a file is given other bytes. A list of files is written one after the other up to the first refusal;
every file then has the bytes that were last written to it.
-/

namespace SetupScript.Disk

variable {disk changed : Disk} {parts place : List Text} {path : Path}

/-! ## Making directories -/

/-- Nothing has been added but directories, nothing taken away, and no file has other bytes. -/
structure Housed (disk changed : Disk) : Prop where
  nodes : ∀ parts, changed.node? parts = disk.node? parts ∨
    disk.node? parts = none ∧ changed.node? parts = some .directory
  bytes : ∀ number, changed.bytes number = disk.bytes number

namespace Housed

/-- A disk has itself. -/
theorem refl (disk : Disk) : Housed disk disk := ⟨fun _ => .inl rfl, fun _ => rfl⟩

/-- Directories may be added step by step. -/
theorem trans {last : Disk} (h : Housed disk changed) (h' : Housed changed last) :
    Housed disk last := by
  refine ⟨fun parts => ?_, fun number => (h'.bytes number).trans (h.bytes number)⟩
  rcases h'.nodes parts with hsame' | ⟨hnone, hdirectory⟩
  · rw [hsame']
    exact h.nodes parts
  · rcases h.nodes parts with hsame | ⟨hnone', -⟩
    · exact .inr ⟨hsame ▸ hnone, hdirectory⟩
    · exact .inr ⟨hnone', hdirectory⟩

/-- Directories are no links. -/
theorem keeps (h : Housed disk changed) : Keeps disk changed := fun parts =>
  (h.nodes parts).imp_right fun ⟨hnone, hdirectory⟩ => ⟨hnone, fun target => by simp [hdirectory]⟩

/-- The files stand where they stood. -/
theorem node?_file_iff (h : Housed disk changed) {number : Nat} :
    changed.node? parts = some (.file number) ↔ disk.node? parts = some (.file number) := by
  rcases h.nodes parts with hsame | ⟨hnone, hdirectory⟩
  · rw [hsame]
  · simp [hnone, hdirectory]

/-- No link is new. -/
theorem unlinked (h : Housed disk changed) (hdisk : Unlinked disk) : Unlinked changed := by
  refine ⟨fun parts target hlink => ?_, fun parts other number hparts hother => ?_⟩
  · rcases h.nodes parts with hsame | ⟨-, hdirectory⟩
    · exact hdisk.links parts target (hsame.symm.trans hlink)
    · rw [hdirectory] at hlink
      cases hlink
  · exact hdisk.places parts other number (h.node?_file_iff.mp hparts) (h.node?_file_iff.mp hother)

end Housed

/-- Making a directory adds it. -/
theorem housed_of_makeDirectory (h : disk.makeDirectory path = .ok changed) : Housed disk changed := by
  unfold Disk.makeDirectory at h
  split at h
  · cases h
  · next place _ =>
    split at h
    · cases h
    · next hnone =>
      obtain rfl := Except.ok.inj h
      have hfree : disk.node? place ≠ some .directory := by simp [hnone]
      refine ⟨fun parts => ?_, fun number => rfl⟩
      rw [node?_set (isFixed_of_node? hfree)]
      split
      · next hparts => exact .inr ⟨hparts ▸ hnone, rfl⟩
      · exact .inl rfl

/-- What follows an action starts with what it gives, on the disk that it leaves. -/
theorem bind_apply {α β : Type} (action : StateM Disk α) (next : α → StateM Disk β) (disk : Disk) :
    (action >>= next) disk = next (action disk).1 (action disk).2 := rfl

/-- The action adds nothing but directories. -/
def Houses {α : Type} (action : StateM Disk α) : Prop := ∀ disk, Housed disk (action disk).2

namespace Houses

/-- Giving a value changes nothing. -/
theorem pure {α : Type} (a : α) : Houses (Pure.pure a : StateM Disk α) := fun disk => .refl disk

/-- Actions that add nothing but directories may follow each other. -/
theorem bind {α β : Type} {action : StateM Disk α} {next : α → StateM Disk β} (h : Houses action)
    (hnext : ∀ a, Houses (next a)) : Houses (action >>= next) := by
  intro disk
  rw [bind_apply]
  exact (h disk).trans (hnext _ _)

/-- Looking at a path changes nothing. -/
theorem findKind (path : Path) : Houses (findKind path) := by
  refine bind (fun disk => .refl disk) fun found => ?_
  cases found with
  | ok kind => exact pure _
  | error fault => exact pure _

/-- A made directory is all that is added. -/
theorem makeDirectory (path : Path) : Houses (FileSystem.makeDirectory path : StateM Disk _) := by
  intro disk
  simp only [FileSystem.makeDirectory, attempt]
  split
  · next h => exact housed_of_makeDirectory h
  · exact .refl disk

/-- Looking why a directory could not be made changes nothing. -/
theorem settleRefusal (mayExist : Bool) (path : Path) (fault : FileFault) :
    Houses (settleRefusal mayExist path fault) := by
  unfold SetupScript.settleRefusal
  split
  · exact pure _
  · refine bind (findKind path) fun found => ?_
    cases found with
    | error error => exact pure _
    | ok kind =>
      cases kind with
      | none => exact pure _
      | some kind => cases kind <;> exact pure _

/-- Making one directory adds nothing else. -/
theorem makeLastDirectory (mayExist : Bool) (path : Path) :
    Houses (makeLastDirectory mayExist path) := by
  refine bind (makeDirectory path) fun refused => ?_
  cases refused with
  | none => exact pure _
  | some fault => exact settleRefusal mayExist path fault

/-- Making directories adds nothing else. -/
theorem makeDirectories (mayExist : Bool) (path : Path) : Houses (makeDirectories mayExist path) := by
  unfold SetupScript.makeDirectories
  generalize path.parts.reverse = parts
  induction parts generalizing mayExist with
  | nil => exact makeLastDirectory mayExist _
  | cons part above ih =>
    refine bind (makeDirectory _) fun refused => ?_
    cases refused with
    | none => exact pure _
    | some fault =>
      cases fault with
      | missing =>
        refine bind (ih true) fun error => ?_
        cases error with
        | none => exact makeLastDirectory mayExist _
        | some error => exact pure _
      | _ => exact settleRefusal mayExist _ _

end Houses

/-! ## Writing files -/

/-- What a write does: where the path leads, a file is there afterwards, which was there before or is a
new one. It has the bytes, and all else is as it was. -/
theorem write_cases {bytes : List UInt8} (h : disk.write path bytes = .ok changed) :
    ∃ place number, disk.follow path = .ok place ∧
      (disk.node? place = some (.file number) ∨
        disk.node? place = none ∧ ∀ parts, disk.node? parts ≠ some (.file number)) ∧
      (∀ parts, changed.node? parts =
        if parts = place then some (.file number) else disk.node? parts) ∧
      ∀ other, changed.bytes other = if other = number then bytes else disk.bytes other := by
  unfold write at h
  split at h
  · cases h
  · next place hfollow =>
    split at h
    · next number hfile =>
      obtain rfl := Except.ok.inj h
      refine ⟨place, number, hfollow, .inl hfile, fun parts => ?_, bytes_store disk number bytes⟩
      rw [node?_store]
      split
      · next hparts => rw [hparts, hfile]
      · rfl
    · next hnone =>
      obtain rfl := Except.ok.inj h
      have hfree : disk.node? place ≠ some .directory := by simp [hnone]
      refine ⟨place, disk.freshNumber, hfollow, .inr ⟨hnone, disk.node?_ne_freshNumber⟩, fun parts => ?_,
        fun other => ?_⟩
      · rw [node?_store, node?_set (isFixed_of_node? hfree)]
      · rw [bytes_store, bytes_set]
    · cases h
    · cases h

/-- A write keeps what stands, and its path leads to the file that has the bytes. -/
theorem keeps_of_write {bytes : List UInt8} (h : disk.write path bytes = .ok changed) :
    Keeps disk changed ∧ ∃ number, changed.numberAt? path = some number ∧
      (∀ parts, changed.node? parts = some (.file number) ∨ changed.node? parts = disk.node? parts) ∧
      ∀ other, changed.bytes other = if other = number then bytes else disk.bytes other := by
  obtain ⟨place, number, hfollow, hfile, hnodes, hbytes⟩ := write_cases h
  have hkeeps : Keeps disk changed := by
    intro parts
    rw [hnodes]
    split
    · next hparts =>
      subst hparts
      rcases hfile with hthere | ⟨hnone, -⟩
      · exact .inl hthere.symm
      · exact .inr ⟨hnone, fun target => by simp⟩
    · exact .inl rfl
  refine ⟨hkeeps, number, numberAt?_eq_some.mpr ⟨place, hkeeps.follow hfollow, ?_⟩, fun parts => ?_, hbytes⟩
  · rw [hnodes, if_pos rfl]
  · rw [hnodes]
    split
    · exact .inl rfl
    · exact .inr rfl

/-- What was written is read back. -/
theorem read_of_write {bytes : List UInt8} (h : disk.write path bytes = .ok changed) :
    changed.read path = .ok bytes := by
  obtain ⟨-, number, hnumber, -, hbytes⟩ := keeps_of_write h
  exact read_eq_ok_iff.mpr ⟨number, hnumber, by rw [hbytes, if_pos rfl]⟩

/-- A written file on a disk without links makes none. -/
theorem unlinked_of_write {bytes : List UInt8} (h : disk.write path bytes = .ok changed)
    (hdisk : Unlinked disk) : Unlinked changed := by
  obtain ⟨place, number, -, hfile, hnodes, -⟩ := write_cases h
  -- the file stands in the one place where it is written
  have honly {parts : List Text} (hparts : changed.node? parts = some (.file number)) : parts = place := by
    rw [hnodes] at hparts
    split at hparts
    · assumption
    · rcases hfile with hthere | ⟨-, hfresh⟩
      · exact hdisk.places parts place number hparts hthere
      · exact absurd hparts (hfresh parts)
  refine ⟨fun parts target hlink => ?_, fun parts other number' hparts hother => ?_⟩
  · rw [hnodes] at hlink
    split at hlink
    · cases hlink
    · exact hdisk.links parts target hlink
  · by_cases hsame : number' = number
    · subst hsame
      rw [honly hparts, honly hother]
    · have hkept {parts : List Text} (hparts : changed.node? parts = some (.file number')) :
          disk.node? parts = some (.file number') := by
        rw [hnodes] at hparts
        split at hparts
        · exact absurd (Node.file.inj (Option.some.inj hparts)).symm hsame
        · exact hparts
      exact hdisk.places parts other number' (hkept hparts) (hkept hother)

/-- Write files one after the other, up to the first refusal. -/
def writeFiles (disk : Disk) : List (Path × List UInt8) → Disk
  | [] => disk
  | (path, bytes) :: rest =>
    match disk.write path bytes with
    | .error _ => disk
    | .ok changed => changed.writeFiles rest

/-- The files that a list of writes gives bytes to, up to the first refusal and the latest first. -/
def writtenBy (disk : Disk) : List (Path × List UInt8) → List (Nat × List UInt8)
  | [] => []
  | (path, bytes) :: rest =>
    match disk.write path bytes with
    | .error _ => []
    | .ok changed => changed.writtenBy rest ++ ((changed.numberAt? path).map (·, bytes)).toList

/-- What writing files does: all that stood is kept, a file that is new was written, and every file has
the bytes that were last written to it. -/
structure Rewritten (disk changed : Disk) (written : List (Nat × List UInt8)) : Prop where
  keeps : Keeps disk changed
  files : ∀ parts number, changed.node? parts = some (.file number) →
    disk.node? parts = some (.file number) ∨ number ∈ written.map (·.1)
  bytes : ∀ number, changed.bytes number = (written.lookup number).getD (disk.bytes number)

/-- Writing files is described by the files that were written. -/
theorem rewritten_writeFiles (disk : Disk) (files : List (Path × List UInt8)) :
    Rewritten disk (disk.writeFiles files) (disk.writtenBy files) := by
  induction files generalizing disk with
  | nil => exact ⟨.refl disk, fun _ _ => .inl, fun _ => rfl⟩
  | cons file rest ih =>
    obtain ⟨path, bytes⟩ := file
    rw [writeFiles, writtenBy]
    cases hwrite : disk.write path bytes with
    | error fault => exact ⟨.refl disk, fun _ _ => .inl, fun _ => rfl⟩
    | ok changed =>
      obtain ⟨hkeeps, number, hnumber, hnodes, hbytes⟩ := keeps_of_write hwrite
      obtain ⟨hlater, hfiles, hlaterBytes⟩ := ih changed
      dsimp only
      rw [hnumber, Option.map_some, Option.toList_some]
      refine ⟨hkeeps.trans hlater, fun parts other hother => ?_, fun other => ?_⟩
      · rw [List.map_append, List.mem_append]
        rcases hfiles parts other hother with hfirst | hmem
        · rcases hnodes parts with hnode | hsame
          · obtain rfl : number = other := Node.file.inj (Option.some.inj (hnode.symm.trans hfirst))
            exact .inr (.inr (by simp))
          · exact .inl (hsame.symm.trans hfirst)
        · exact .inr (.inl hmem)
      · rw [hlaterBytes, hbytes, List.lookup_append]
        cases (changed.writtenBy rest).lookup other with
        | some bytes => rfl
        | none =>
          by_cases hother : other = number
          · simp [hother]
          · simp [List.lookup_cons, beq_eq_false_iff_ne.mpr hother, hother]

namespace Rewritten

variable {written : List (Nat × List UInt8)}

/-- A place with a file that was written has the bytes that were last written. -/
theorem content?_of_written (h : Rewritten disk changed written) {number : Nat} {bytes : List UInt8}
    (hnode : changed.node? place = some (.file number)) (hwritten : written.lookup number = some bytes) :
    changed.content? place = some bytes := by
  rw [content?, hnode]
  simp only [h.bytes, hwritten, Option.getD_some]

/-- A place without such a file keeps its content. -/
theorem content?_of_unwritten (h : Rewritten disk changed written)
    (hplace : ∀ number, changed.node? place = some (.file number) → written.lookup number = none) :
    changed.content? place = disk.content? place := by
  unfold content?
  split
  · next number hnode =>
    have hnone := hplace number hnode
    rcases h.files place number hnode with hkept | hmem
    · rw [hkept]
      simp only [h.bytes, hnone, Option.getD_none]
    · obtain ⟨⟨_, bytes⟩, hitem, rfl⟩ := List.mem_map.mp hmem
      have hother := List.lookup_eq_none_iff.mp hnone _ hitem
      simp at hother
  · next hfile =>
    split
    · next number hnode => exact absurd (h.keeps.node? hnode) (hfile number)
    · rfl

/-- The content of a place is other than it was just when other bytes were written to the file there. -/
theorem content?_ne_iff (h : Rewritten disk changed written) (place : List Text) :
    changed.content? place ≠ disk.content? place ↔
      ∃ number bytes, changed.node? place = some (.file number) ∧
        written.lookup number = some bytes ∧ disk.content? place ≠ some bytes := by
  constructor
  · intro hne
    by_contra hnone
    by_cases hplace : ∃ number bytes, changed.node? place = some (.file number) ∧
        written.lookup number = some bytes
    · obtain ⟨number, bytes, hnode, hwritten⟩ := hplace
      refine hnone ⟨number, bytes, hnode, hwritten, ?_⟩
      rw [← h.content?_of_written hnode hwritten]
      exact hne.symm
    · refine hne (h.content?_of_unwritten fun number hnode => ?_)
      by_contra hsome
      obtain ⟨bytes, hbytes⟩ := Option.ne_none_iff_exists'.mp hsome
      exact hplace ⟨number, bytes, hnode, hbytes⟩
  · rintro ⟨number, bytes, hnode, hwritten, hne⟩
    rw [h.content?_of_written hnode hwritten]
    exact hne.symm

/-- A file reads as before just when nothing else was written to it. -/
theorem read_iff (h : Rewritten disk changed written) {old : List UInt8} (hold : disk.read path = .ok old) :
    changed.read path = .ok old ↔ ∀ number bytes, disk.numberAt? path = some number →
      written.lookup number = some bytes → bytes = old := by
  obtain ⟨number, hnumber, rfl⟩ := read_eq_ok_iff.mp hold
  have hnumber' := h.keeps.numberAt? hnumber
  have hread : changed.read path = .ok (changed.bytes number) := read_eq_ok_iff.mpr ⟨number, hnumber', rfl⟩
  rw [hread, h.bytes]
  constructor
  · rintro hsame other bytes hother hbytes
    obtain rfl : number = other := Option.some.inj (hnumber.symm.trans hother)
    rw [hbytes, Option.getD_some] at hsame
    exact Except.ok.inj hsame
  · intro hsame
    cases hbytes : written.lookup number with
    | none => rfl
    | some bytes => rw [Option.getD_some, hsame number bytes hnumber hbytes]

/-- Directories that are added before and after the writes make no difference. -/
theorem of_housed {first last : Disk} (h : Housed disk first) (h' : Rewritten first changed written)
    (h'' : Housed changed last) : Rewritten disk last written := by
  refine ⟨h.keeps.trans (h'.keeps.trans h''.keeps), fun parts number hfile => ?_, fun number => ?_⟩
  · exact (h'.files parts number (h''.node?_file_iff.mp hfile)).imp_left h.node?_file_iff.mp
  · rw [h''.bytes, h'.bytes, h.bytes]

end Rewritten

/-- Each file that a list of writes gives bytes to is the one that its path leads to afterwards. -/
theorem of_mem_writtenBy {files : List (Path × List UInt8)} {number : Nat} {bytes : List UInt8}
    (h : (number, bytes) ∈ disk.writtenBy files) :
    ∃ path, (path, bytes) ∈ files ∧ (disk.writeFiles files).numberAt? path = some number := by
  induction files generalizing disk with
  | nil => cases h
  | cons file rest ih =>
    obtain ⟨path, written⟩ := file
    rw [writtenBy] at h
    rw [writeFiles]
    cases hwrite : disk.write path written with
    | error fault =>
      rw [hwrite] at h
      cases h
    | ok changed =>
      rw [hwrite] at h
      rcases List.mem_append.mp h with hlater | hfirst
      · obtain ⟨later, hmem, hleads⟩ := ih hlater
        exact ⟨later, List.mem_cons_of_mem _ hmem, hleads⟩
      · obtain ⟨number', hnumber, heq⟩ := Option.map_eq_some_iff.mp (Option.mem_toList.mp hfirst)
        obtain ⟨rfl, rfl⟩ := Prod.mk.inj heq
        exact ⟨path, List.mem_cons_self, (changed.rewritten_writeFiles rest).keeps.numberAt? hnumber⟩

/-- Writing files on a disk without links makes none. -/
theorem unlinked_writeFiles (h : Unlinked disk) (files : List (Path × List UInt8)) :
    Unlinked (disk.writeFiles files) := by
  induction files generalizing disk with
  | nil => exact h
  | cons file rest ih =>
    obtain ⟨path, bytes⟩ := file
    rw [writeFiles]
    cases hwrite : disk.write path bytes with
    | error fault => exact h
    | ok changed => exact ih (unlinked_of_write hwrite h)

end SetupScript.Disk
