import Mathlib.Data.List.Basic
import SetupScript.Command.FileSystem

/-!
# Where paths lead

What stands in a place on a disk stays there when the disk changes, and nothing new is a link, so a path
that could be followed before leads to the same place afterwards. Since a link leads to a file under
another name, and one file may have several, files are told apart by their numbers. On a disk without
links a file stands in one place, and a path that leads to it ends in its name.
-/

namespace SetupScript.Disk

variable {disk changed : Disk} {parts place : List Text} {path : Path}

/-- The bytes of the file under followed parts. -/
def content? (disk : Disk) (parts : List Text) : Option (List UInt8) :=
  match disk.node? parts with
  | some (.file number) => some (disk.bytes number)
  | _ => none

/-- The number of the file that a path leads to. -/
def numberAt? (disk : Disk) (path : Path) : Option Nat :=
  match disk.lookup path with
  | .ok (.file number) => some number
  | _ => none

/-! ## One node -/

/-- Under fixed parts a directory stands on every disk. -/
theorem node?_of_isFixed (h : isFixed parts) (disk : Disk) : disk.node? parts = some .directory :=
  if_pos h

/-- Replacing what stands under some parts does not show under others. -/
theorem find?_replace_of_ne {nodes : List (List Text × Node)} {other : List Text}
    (h : other ≠ parts) (node : Node) :
    (nodes.map fun item => if item.1 == parts then (parts, node) else item).find? (·.1 == other) =
      nodes.find? (·.1 == other) := by
  induction nodes with
  | nil => rfl
  | cons item rest ih =>
    have hother : (parts == other) = false := beq_eq_false_iff_ne.mpr (Ne.symm h)
    simp only [List.map_cons, List.find?_cons, ih]
    by_cases hitem : item.1 = parts
    · simp [hitem, hother]
    · simp [hitem]

/-- What replaces something is found in its place. -/
theorem find?_replace_self {nodes : List (List Text × Node)}
    (h : (nodes.find? (·.1 == parts)).isSome) (node : Node) :
    (nodes.map fun item => if item.1 == parts then (parts, node) else item).find? (·.1 == parts) =
      some (parts, node) := by
  induction nodes with
  | nil => cases h
  | cons item rest ih =>
    by_cases hitem : item.1 = parts
    · simp [hitem]
    · have hother : (item.1 == parts) = false := beq_eq_false_iff_ne.mpr hitem
      simp only [List.find?_cons, hother] at h
      simp only [List.map_cons, List.find?_cons, ih h, hother, Bool.false_eq_true, if_false]

/-- A node that is put under parts stands there, and the others stand where they stood. -/
theorem node?_set (hfree : isFixed parts = false) (disk : Disk) (node : Node) (other : List Text) :
    (disk.set parts node).node? other = if other = parts then some node else disk.node? other := by
  by_cases hother : other = parts
  · subst hother
    rw [if_pos rfl, node?, if_neg (by simp [hfree]), set]
    dsimp only
    split
    · next hthere => rw [find?_replace_self hthere]; rfl
    · next habsent =>
      have hnone : disk.nodes.find? (·.1 == other) = none := Option.not_isSome_iff_eq_none.mp habsent
      simp [List.find?_append, hnone]
  · rw [if_neg hother, node?, node?]
    split
    · rfl
    · rw [set]
      dsimp only
      split
      · rw [find?_replace_of_ne hother]
      · simp [List.find?_append, Ne.symm hother]

/-- Where no directory stands, none is fixed. -/
theorem isFixed_of_node? (h : disk.node? parts ≠ some .directory) : isFixed parts = false := by
  cases hfixed : isFixed parts with
  | false => rfl
  | true => exact absurd (node?_of_isFixed hfixed disk) h

/-- What stands under parts was put there, unless it is one of the directories that always stand. -/
theorem mem_nodes_of_node? {node : Node} (h : disk.node? parts = some node)
    (hnode : node ≠ .directory) : (parts, node) ∈ disk.nodes := by
  rw [node?, if_neg (by rw [isFixed_of_node? (h ▸ fun hsame => hnode (Option.some.inj hsame))]; simp)] at h
  obtain ⟨⟨found, node'⟩, hfind, rfl⟩ := Option.map_eq_some_iff.mp h
  obtain rfl : found = parts := by simpa using List.find?_some hfind
  exact List.mem_of_find?_eq_some hfind

/-- No file has the fresh number. -/
theorem node?_ne_freshNumber (disk : Disk) (parts : List Text) :
    disk.node? parts ≠ some (.file disk.freshNumber) := by
  intro hfile
  have hmem : disk.freshNumber ∈ disk.nodes.filterMap (·.2.number?) :=
    List.mem_filterMap.mpr ⟨_, mem_nodes_of_node? hfile (by simp), rfl⟩
  have hbelow : ∀ numbers : List Nat, ∀ number ∈ numbers,
      number < numbers.foldr (fun number next => max next (number + 1)) 0 := by
    intro numbers
    induction numbers with
    | nil => simp
    | cons first rest ih =>
      intro number hnumber
      rw [List.foldr_cons]
      rcases List.mem_cons.mp hnumber with rfl | hrest
      · omega
      · have := ih number hrest
        omega
  exact Nat.lt_irrefl _ (hbelow _ _ hmem)

/-- A file with other bytes stands where it stood. -/
@[simp] theorem node?_store (disk : Disk) (number : Nat) (bytes : List UInt8) (parts : List Text) :
    (disk.store number bytes).node? parts = disk.node? parts := rfl

/-- A node that is put somewhere changes no bytes. -/
@[simp] theorem bytes_set (disk : Disk) (parts : List Text) (node : Node) (number : Nat) :
    (disk.set parts node).bytes number = disk.bytes number := rfl

/-- Storing bytes changes those of one file. -/
theorem bytes_store (disk : Disk) (number : Nat) (bytes : List UInt8) (other : Nat) :
    (disk.store number bytes).bytes other = if other = number then bytes else disk.bytes other := by
  unfold Disk.bytes store
  rw [List.lookup_cons]
  by_cases hother : other = number
  · simp [hother]
  · simp [hother, beq_eq_false_iff_ne.mpr hother]

/-! ## Paths -/

/-- Parts lead to a place without a link, or through a link from which the rest leads there. -/
theorem resolveFrom_eq_ok {followLast : Bool} {links : Nat} {current : List Text} :
    disk.resolveFrom followLast links current parts = .ok place ↔
      disk.walk followLast current parts = .ok (.arrived place) ∨
      ∃ fewer directory target left, links = fewer + 1 ∧
        disk.walk followLast current parts = .ok (.met directory target left) ∧
        disk.resolveFrom followLast fewer (startOf directory target) (target.parts ++ left) = .ok place := by
  rw [resolveFrom.eq_def]
  cases hwalk : disk.walk followLast current parts with
  | error fault => simp
  | ok reached =>
    cases reached with
    | arrived reached => simp
    | met directory target left => cases links <;> simp

/-- What stands on the first disk stands on the second, and nothing new there is a link. -/
def Keeps (disk changed : Disk) : Prop :=
  ∀ parts, changed.node? parts = disk.node? parts ∨
    disk.node? parts = none ∧ ∀ target, changed.node? parts ≠ some (.link target)

namespace Keeps

/-- A disk keeps what it has. -/
theorem refl (disk : Disk) : Keeps disk disk := fun _ => .inl rfl

/-- Things may be kept step by step. -/
theorem trans {last : Disk} (h : Keeps disk changed) (h' : Keeps changed last) : Keeps disk last := by
  intro parts
  rcases h parts with hsame | ⟨hnone, hlink⟩
  · rw [← hsame]
    exact h' parts
  · refine .inr ⟨hnone, fun target => ?_⟩
    rcases h' parts with hsame' | ⟨-, hlink'⟩
    · rw [hsame']
      exact hlink target
    · exact hlink' target

/-- What stood somewhere stands there still. -/
theorem node? (h : Keeps disk changed) {node : Node} (hnode : disk.node? parts = some node) :
    changed.node? parts = some node := by
  rcases h parts with hsame | ⟨hnone, -⟩
  · rw [hsame, hnode]
  · rw [hnode] at hnone
    cases hnone

/-- The links are the same. -/
theorem link?_eq (h : Keeps disk changed) (parts : List Text) : changed.link? parts = disk.link? parts := by
  unfold link?
  rcases h parts with hsame | ⟨hnone, hlink⟩
  · rw [hsame]
  · rw [hnone]
    split
    · next target htarget => exact absurd htarget (hlink target)
    · rfl

/-- Parts are followed as before up to the first link. -/
theorem walk (h : Keeps disk changed) {followLast : Bool} {current : List Text} {reached : Walk}
    (hwalk : disk.walk followLast current parts = .ok reached) :
    changed.walk followLast current parts = .ok reached := by
  induction parts generalizing current with
  | nil => exact hwalk
  | cons part rest ih =>
    rw [Disk.walk] at hwalk ⊢
    split at hwalk
    · cases hwalk
    · next hdirectory =>
      rw [h.node? hdirectory]
      dsimp only
      split at hwalk
      · cases hwalk
      · next hlimit =>
        rw [if_neg hlimit, h.link?_eq]
        split at hwalk
        · exact ih hwalk
        · exact hwalk
    · cases hwalk

/-- Parts that could be followed still lead to the same place. -/
theorem resolveFrom (h : Keeps disk changed) {followLast : Bool} {current : List Text} {links : Nat}
    (hresolve : disk.resolveFrom followLast links current parts = .ok place) :
    changed.resolveFrom followLast links current parts = .ok place := by
  induction links generalizing current parts with
  | zero =>
    rcases resolveFrom_eq_ok.mp hresolve with hwalk | ⟨_, _, _, _, hlinks, -⟩
    · exact resolveFrom_eq_ok.mpr (.inl (h.walk hwalk))
    · cases hlinks
  | succ links ih =>
    rcases resolveFrom_eq_ok.mp hresolve with hwalk | ⟨fewer, directory, target, left, hlinks, hwalk, hrest⟩
    · exact resolveFrom_eq_ok.mpr (.inl (h.walk hwalk))
    · obtain rfl : links = fewer := Nat.succ.inj hlinks
      exact resolveFrom_eq_ok.mpr (.inr ⟨links, directory, target, left, rfl, h.walk hwalk, ih hrest⟩)

/-- A path that could be followed still leads to the same place. -/
theorem follow (h : Keeps disk changed) (hfollow : disk.follow path = .ok place) :
    changed.follow path = .ok place := by
  unfold Disk.follow Disk.resolve at hfollow ⊢
  split at hfollow
  · cases hfollow
  · next hnull =>
    rw [if_neg hnull]
    split at hfollow
    · cases hfollow
    · next hlimit =>
      rw [if_neg hlimit]
      exact h.resolveFrom hfollow

end Keeps

/-- A path leads to a file just when it leads to a place where that file stands. -/
theorem numberAt?_eq_some {number : Nat} : disk.numberAt? path = some number ↔
    ∃ place, disk.follow path = .ok place ∧ disk.node? place = some (.file number) := by
  unfold numberAt? lookup
  cases disk.follow path with
  | error fault => simp
  | ok place =>
    rcases hnode : disk.node? place with _ | node
    · simp [hnode]
    · cases node <;> simp [hnode]

/-- A path that led to a file leads to it still. -/
theorem Keeps.numberAt? (h : Keeps disk changed) {number : Nat}
    (hnumber : disk.numberAt? path = some number) : changed.numberAt? path = some number := by
  obtain ⟨place, hfollow, hnode⟩ := numberAt?_eq_some.mp hnumber
  exact numberAt?_eq_some.mpr ⟨place, h.follow hfollow, h.node? hnode⟩

/-- The bytes that are read are those of the file that the path leads to. -/
theorem read_eq_ok_iff {bytes : List UInt8} :
    disk.read path = .ok bytes ↔ ∃ number, disk.numberAt? path = some number ∧ disk.bytes number = bytes := by
  unfold read numberAt?
  cases disk.lookup path with
  | error fault => simp
  | ok node => cases node <;> simp

/-! ## Disks without links -/

/-- No link stands anywhere, and no file stands in two places. -/
structure Unlinked (disk : Disk) : Prop where
  links : ∀ parts target, disk.node? parts ≠ some (.link target)
  places : ∀ parts other number, disk.node? parts = some (.file number) →
    disk.node? other = some (.file number) → parts = other

/-- Every place above followed parts is a directory. -/
def Reached (disk : Disk) (parts : List Text) : Prop :=
  ∀ count < parts.length, disk.node? (parts.take count) = some .directory

/-- A part leads from a directory to a place below directories. -/
theorem Reached.enter (h : Reached disk parts) (hdirectory : disk.node? parts = some .directory)
    (part : Text) : Reached disk (enter parts part) := by
  have hbelow : Reached disk (parts ++ [part]) := by
    intro count hcount
    rw [List.length_append, List.length_singleton] at hcount
    rw [List.take_append_of_le_length (by omega)]
    by_cases hwhole : count = parts.length
    · rwa [hwhole, List.take_length]
    · exact h count (by omega)
  unfold Disk.enter
  split
  · split
    · exact h
    · split
      · exact hbelow
      · intro count hcount
        rw [List.length_dropLast] at hcount
        rw [List.dropLast_eq_take, List.take_take, Nat.min_eq_left (by omega)]
        exact h count (by omega)
  · exact hbelow

/-- The part that leads out of a directory leads to a directory. -/
theorem Reached.node?_outward (h : Reached disk parts) :
    disk.node? (Disk.enter parts outward) = some .directory := by
  unfold Disk.enter
  rw [if_pos rfl]
  split
  · next hroot => exact node?_of_isFixed (by simp [hroot, isFixed]) disk
  · next hroot =>
    split
    · next hfixed =>
      refine node?_of_isFixed ?_ disk
      have hall : parts.all (· == outward) := by simpa [isFixed, hroot] using hfixed
      simp [isFixed, hall]
    · next hfixed =>
      have hsome : parts ≠ [] := by
        rintro rfl
        exact hfixed rfl
      rw [List.dropLast_eq_take]
      exact h _ (Nat.sub_lt (List.length_pos_iff.mpr hsome) Nat.one_pos)

namespace Unlinked

/-- Without links parts are followed to their end. -/
theorem walk_eq (h : Unlinked disk) {followLast : Bool} {current : List Text} {reached : Walk}
    (hwalk : disk.walk followLast current parts = .ok reached) : ∃ place, reached = .arrived place := by
  induction parts generalizing current with
  | nil => exact ⟨current, (Except.ok.inj hwalk).symm⟩
  | cons part rest ih =>
    rw [walk] at hwalk
    split at hwalk
    · cases hwalk
    · split at hwalk
      · cases hwalk
      · split at hwalk
        · exact ih hwalk
        · next target htarget =>
          unfold link? at htarget
          split at htarget
          · next hlink => exact absurd hlink (h.links _ _)
          · cases htarget
    · cases hwalk

/-- The last of some parts is followed out of the directory that the others lead to. -/
theorem walk_concat (h : Unlinked disk) {followLast : Bool} {current : List Text} {name : Text}
    (hreached : Reached disk current)
    (hwalk : disk.walk followLast current (parts ++ [name]) = .ok (.arrived place)) :
    ∃ directory, Reached disk directory ∧ disk.node? directory = some .directory ∧
      place = enter directory name := by
  have hlink (parts : List Text) : disk.link? parts = none := by
    unfold link?
    split
    · next hlink => exact absurd hlink (h.links _ _)
    · rfl
  induction parts generalizing current with
  | nil =>
    rw [List.nil_append, walk] at hwalk
    split at hwalk
    · cases hwalk
    · next hdirectory =>
      split at hwalk
      · cases hwalk
      · rw [hlink] at hwalk
        exact ⟨current, hreached, hdirectory, (Walk.arrived.inj (Except.ok.inj hwalk)).symm⟩
    · cases hwalk
  | cons part rest ih =>
    rw [List.cons_append, walk] at hwalk
    split at hwalk
    · cases hwalk
    · next hdirectory =>
      split at hwalk
      · cases hwalk
      · rw [hlink] at hwalk
        exact ih (hreached.enter hdirectory part) hwalk
    · cases hwalk

/-- What is not a directory stands under the name that the path to it ends with. -/
theorem getLast?_of_follow (h : Unlinked disk) (hfollow : disk.follow path = .ok place)
    (hfile : disk.node? place ≠ some .directory) : place.getLast? = path.parts.getLast? := by
  have hwalk : disk.walk true (startOf [] path) path.parts = .ok (.arrived place) := by
    unfold follow resolve at hfollow
    split at hfollow
    · cases hfollow
    · split at hfollow
      · cases hfollow
      · rcases resolveFrom_eq_ok.mp hfollow with hwalk | ⟨_, _, _, _, -, hwalk, -⟩
        · exact hwalk
        · obtain ⟨reached, hreached⟩ := h.walk_eq hwalk
          cases hreached
  have hstart : isFixed (startOf [] path) := by
    unfold startOf
    split <;> rfl
  have hreached : Reached disk (startOf [] path) := by
    intro count hcount
    refine node?_of_isFixed ?_ disk
    have hfront : ∀ parts : List Text, parts.length ≤ 1 → count < parts.length →
        isFixed (parts.take count) := by
      intro parts hlength hcount
      obtain rfl : count = 0 := by omega
      rfl
    refine hfront _ ?_ hcount
    unfold startOf
    split <;> simp [rootParts]
  cases hparts : path.parts.reverse with
  | nil =>
    rw [List.reverse_eq_nil_iff.mp hparts, walk] at hwalk
    rw [← Walk.arrived.inj (Except.ok.inj hwalk)] at hfile
    exact absurd (node?_of_isFixed hstart disk) hfile
  | cons name above =>
    have hsplit : path.parts = above.reverse ++ [name] := by
      rw [← List.reverse_reverse path.parts, hparts, List.reverse_cons]
    rw [hsplit] at hwalk ⊢
    obtain ⟨directory, hdirectory, -, rfl⟩ := h.walk_concat hreached hwalk
    by_cases hname : name = outward
    · subst hname
      exact absurd hdirectory.node?_outward hfile
    · rw [enter, if_neg hname, List.getLast?_concat, List.getLast?_concat]

end Unlinked

end SetupScript.Disk
