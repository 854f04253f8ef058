import Mathlib.Data.List.Basic
import Mathlib.Data.List.Pairwise
import SetupScript.Text.Reader

/-!
# What readers take and searches find

A reader that succeeds splits its text into what it took and what is left. The basic readers are
described by that split, and composed readers by following it from one part to the next.

A search reports each match where the reader succeeds there, and no two matches share a character.
-/

namespace SetupScript

namespace Reader

variable {α β : Type} {t left : Text}

/-- A composed reader succeeds when its first part does and the second does on what that leaves. -/
theorem bind_eq_some {first : Reader α} {second : α → Reader β} {value : β} :
    (first >>= second) t = some (value, left) ↔
      ∃ a middle, first t = some (a, middle) ∧ second a middle = some (value, left) := by
  change (first t).bind (fun p => second p.1 p.2) = some (value, left) ↔ _
  simp only [Option.bind_eq_some_iff, Prod.exists]

/-- A reader that only returns a value takes nothing. -/
theorem pure_eq_some {a value : α} :
    (pure a : Reader α) t = some (value, left) ↔ a = value ∧ t = left := by
  change some (a, t) = some (value, left) ↔ _
  simp

/-- A literal takes exactly its own text. -/
theorem literal_eq_some {word : Text} {u : Unit} :
    literal word t = some (u, left) ↔ t = word ++ left := by
  unfold literal
  simp only [Option.map_eq_some_iff, Prod.mk.injEq, true_and, exists_eq_right,
    List.isPrefixOf?_eq_some_iff_append_eq]
  exact eq_comm

/-- One of several words is taken off the front. -/
theorem oneOf_eq_some {words : List Text} {word t left : Text}
    (h : oneOf words t = some (word, left)) : word ∈ words ∧ t = word ++ left := by
  obtain ⟨candidate, hmem, hread⟩ := List.exists_of_findSome?_eq_some h
  simp only [Option.map_eq_some_iff, Prod.mk.injEq, List.isPrefixOf?_eq_some_iff_append_eq] at hread
  obtain ⟨rest, htext, rfl, rfl⟩ := hread
  exact ⟨hmem, htext.symm⟩

/-- One character of a class is taken off the front. -/
theorem char_eq_some {p : Char → Bool} {c : Char} :
    char p t = some (c, left) ↔ t = c :: left ∧ p c := by
  cases t with
  | nil => simp [char]
  | cons d rest =>
    by_cases hd : p d
    · simp only [char, hd, if_true, Option.some.injEq, Prod.mk.injEq, List.cons.injEq]
      grind
    · simp only [char, hd, Bool.false_eq_true, if_false, reduceCtorEq, List.cons.injEq, false_iff]
      grind

/-- A run is as long as its class allows. -/
theorem many_eq_some {p : Char → Bool} {run : Text} :
    many p t = some (run, left) ↔ t = run ++ left ∧ run.all p ∧ !left.head?.any p := by
  simp only [many, Option.some.injEq, Prod.mk.injEq]
  constructor
  · rintro ⟨rfl, rfl⟩
    refine ⟨(List.takeWhile_append_dropWhile).symm, List.all_takeWhile, ?_⟩
    cases hdrop : t.dropWhile p with
    | nil => rfl
    | cons c rest =>
      have hc := List.head_dropWhile_not p (l := t) (by simp [hdrop])
      simpa [hdrop] using hc
  · rintro ⟨rfl, hall, hhead⟩
    have hp : ∀ c ∈ run, p c := by simpa using hall
    rw [List.takeWhile_append_of_pos hp, List.dropWhile_append_of_pos hp]
    cases left with
    | nil => simp
    | cons c rest =>
      have hc : p c = false := by simpa using hhead
      simp [hc]

/-- A non-empty run is a run that is not empty. -/
theorem many1_eq_some {p : Char → Bool} {run : Text} :
    many1 p t = some (run, left) ↔
      t = run ++ left ∧ run.all p ∧ run ≠ [] ∧ !left.head?.any p := by
  have hmany : many1 p t = some (run, left) ↔ many p t = some (run, left) ∧ run ≠ [] := by
    simp only [many1, many]
    grind
  rw [hmany, many_eq_some]
  grind

/-- The blanks at the front, as many as there are. -/
theorem blanks_eq_some {u : Unit} :
    blanks t = some (u, left) ↔
      ∃ run, t = run ++ left ∧ run.all Text.isBlank ∧ !left.head?.any Text.isBlank := by
  have hmany : blanks t = some (u, left) ↔ ∃ run, many Text.isBlank t = some (run, left) := by
    change ((many Text.isBlank t).bind fun p => some ((), p.2)) = some (u, left) ↔ _
    simp [Option.bind_eq_some_iff]
  rw [hmany]
  exact exists_congr fun run => many_eq_some

/-- At least one blank, and all that follow it. -/
theorem blanks1_eq_some {u : Unit} :
    blanks1 t = some (u, left) ↔ ∃ run, many1 Text.isBlank t = some (run, left) := by
  change ((many1 Text.isBlank t).bind fun p => some ((), p.2)) = some (u, left) ↔ _
  simp [Option.bind_eq_some_iff]

end Reader

namespace Text

variable {α : Type} {admits : Option Char → Bool} {reader : Reader α}

/-- A search reports only offsets at which the reader succeeds, with the extent that it takes. -/
theorem mem_findAllFrom {before : Option Char} {pos skip : Nat} {t : Text} {found : Match α}
    (h : found ∈ findAllFrom admits reader before pos skip t) :
    ∃ k left, found.start = pos + k ∧ skip ≤ k ∧ k < t.length ∧
      reader (t.drop k) = some (found.value, left) ∧
      found.stop = found.start + ((t.drop k).length - left.length) := by
  induction t generalizing before pos skip with
  | nil => simp [findAllFrom] at h
  | cons c rest ih =>
    -- a match in what follows the first character, found from any skip
    have later (skip' : Nat) (hskip : skip ≤ skip' + 1)
        (h : found ∈ findAllFrom admits reader (some c) (pos + 1) skip' rest) :
        ∃ k left, found.start = pos + k ∧ skip ≤ k ∧ k < (c :: rest).length ∧
          reader ((c :: rest).drop k) = some (found.value, left) ∧
          found.stop = found.start + (((c :: rest).drop k).length - left.length) := by
      obtain ⟨k, left, hstart, hle, hlt, hread, hstop⟩ := ih h
      exact ⟨k + 1, left, by omega, by omega, by simpa using hlt, by simpa using hread,
        by simpa using hstop⟩
    cases skip with
    | succ skip => exact later skip (by omega) (by simpa [findAllFrom] using h)
    | zero =>
      simp only [findAllFrom] at h
      split at h
      · next value left hread =>
        have hread' : reader (c :: rest) = some (value, left) := by
          split at hread
          · exact hread
          · cases hread
        rcases List.mem_cons.mp h with rfl | h
        · exact ⟨0, left, rfl, by omega, by simp, hread', rfl⟩
        · exact later _ (by omega) h
      · exact later 0 (by omega) h

/-- The character before an offset of a text, given the one before the text. -/
def charBefore (before : Option Char) (t : Text) : Nat → Option Char
  | 0 => before
  | k + 1 => t[k]?

/-- Past its first character a text has the same characters before its offsets. -/
theorem charBefore_cons (before : Option Char) (c : Char) (t : Text) (k : Nat) :
    charBefore before (c :: t) (k + 1) = charBefore (some c) t k := by
  cases k <;> rfl

/-- The character before the second part of a text is the last one of the first part. -/
theorem charBefore_append (a b : Text) : charBefore none (a ++ b) a.length = a.getLast? := by
  cases hlength : a.length with
  | zero => rw [List.eq_nil_of_length_eq_zero hlength, charBefore, List.getLast?_nil]
  | succ k =>
    rw [charBefore, List.getElem?_append_left (by omega), List.getLast?_eq_getElem?, hlength,
      Nat.add_sub_cancel]

/-- A match starts only where the character before it admits one. -/
theorem admits_of_mem_findAllFrom {before : Option Char} {pos skip : Nat} {t : Text} {found : Match α}
    (h : found ∈ findAllFrom admits reader before pos skip t) :
    ∃ k, found.start = pos + k ∧ admits (charBefore before t k) := by
  induction t generalizing before pos skip with
  | nil => simp [findAllFrom] at h
  | cons c rest ih =>
    have later (skip' : Nat) (h : found ∈ findAllFrom admits reader (some c) (pos + 1) skip' rest) :
        ∃ k, found.start = pos + k ∧ admits (charBefore before (c :: rest) k) := by
      obtain ⟨k, hstart, hadmits⟩ := ih h
      exact ⟨k + 1, by omega, by rwa [charBefore_cons]⟩
    cases skip with
    | succ skip => exact later skip (by simpa [findAllFrom] using h)
    | zero =>
      simp only [findAllFrom] at h
      split at h
      · next value left hread =>
        rcases List.mem_cons.mp h with rfl | h
        · refine ⟨0, rfl, ?_⟩
          split at hread
          · next hadmits => exact hadmits
          · cases hread
        · exact later _ h
      · exact later 0 h

/-- A search passes over no offset at which the reader takes something and a match is admitted: some
match holds it, or one that was found before does. -/
theorem exists_mem_findAllFrom
    (htakes : ∀ t value left, reader t = some (value, left) → left.length < t.length)
    {before : Option Char} (pos skip : Nat) {k : Nat} {t left : Text} {value : α}
    (hadmits : admits (charBefore before t k)) (hread : reader (t.drop k) = some (value, left)) :
    k < skip ∨ ∃ found ∈ findAllFrom admits reader before pos skip t,
      found.start ≤ pos + k ∧ pos + k < found.stop := by
  induction t generalizing before pos skip k with
  | nil =>
    rw [List.drop_nil] at hread
    exact absurd (htakes _ _ _ hread) (Nat.not_lt_zero _)
  | cons c rest ih =>
    have later (skip' k' : Nat) (hk : k = k' + 1) :
        k' < skip' ∨ ∃ found ∈ findAllFrom admits reader (some c) (pos + 1) skip' rest,
          found.start ≤ pos + k ∧ pos + k < found.stop := by
      subst hk
      rw [charBefore_cons] at hadmits
      rw [List.drop_succ_cons] at hread
      refine (ih (pos + 1) skip' hadmits hread).imp_right ?_
      rintro ⟨found, hfound, hstart, hstop⟩
      exact ⟨found, hfound, by omega, by omega⟩
    cases skip with
    | succ skip =>
      cases k with
      | zero => exact .inl (Nat.succ_pos skip)
      | succ k =>
        rcases later skip k rfl with hskip | hfound
        · exact .inl (by omega)
        · exact .inr hfound
    | zero =>
      right
      simp only [findAllFrom]
      split
      · next first rest' hfirst =>
        have hwidth : rest'.length < (c :: rest).length := by
          split at hfirst
          · exact htakes _ _ _ hfirst
          · cases hfirst
        rcases Nat.lt_or_ge k ((c :: rest).length - rest'.length) with hinside | hpast
        · exact ⟨_, List.mem_cons_self .., by simp only; omega, by simp only; omega⟩
        · cases k with
          | zero => omega
          | succ k =>
            rcases later ((c :: rest).length - rest'.length - 1) k rfl with hskip | ⟨found, hfound, hholds⟩
            · omega
            · exact ⟨found, List.mem_cons_of_mem _ hfound, hholds⟩
      · next hnone =>
        cases k with
        | zero =>
          have hfirst : admits before = true := hadmits
          rw [if_pos hfirst, show reader (c :: rest) = some (value, left) from hread] at hnone
          cases hnone
        | succ k =>
          rcases later 0 k rfl with hskip | hfound
          · exact absurd hskip (Nat.not_lt_zero _)
          · exact hfound

/-- The character before what follows a text is looked for from the first character on. -/
theorem getLast?_cons_or (c : Char) (rest : Text) (before : Option Char) :
    (c :: rest).getLast?.or before = rest.getLast?.or (some c) := by
  rw [List.getLast?_cons]
  cases rest.getLast? <;> rfl

/-- A search that passes over a text goes on after it. -/
theorem findAllFrom_past (a b : Text) (before : Option Char) (pos : Nat) :
    findAllFrom admits reader before pos a.length (a ++ b) =
      findAllFrom admits reader (a.getLast?.or before) (pos + a.length) 0 b := by
  induction a generalizing before pos with
  | nil => rfl
  | cons c rest ih =>
    rw [List.cons_append, List.length_cons, findAllFrom, ih, getLast?_cons_or, Nat.add_assoc,
      Nat.add_comm 1]

/-- A search finds what is read where it stands, and goes on after it. -/
theorem findAllFrom_read {before : Option Char} {taken rest : Text} {value : α} (htaken : taken ≠ [])
    (hadmits : admits before) (hread : reader (taken ++ rest) = some (value, rest)) (pos : Nat) :
    findAllFrom admits reader before pos 0 (taken ++ rest) = ⟨pos, pos + taken.length, value⟩ ::
      findAllFrom admits reader taken.getLast? (pos + taken.length) 0 rest := by
  obtain ⟨c, more, rfl⟩ := List.exists_cons_of_ne_nil htaken
  have hwidth : (more ++ rest).length + 1 - rest.length = more.length + 1 := by
    rw [List.length_append]
    omega
  rw [List.cons_append] at hread ⊢
  rw [findAllFrom]
  simp only [hadmits, if_true, hread, List.length_cons, hwidth, Nat.add_sub_cancel]
  rw [findAllFrom_past, ← getLast?_cons_or c more none, Option.or_none, Nat.add_assoc, Nat.add_comm 1]

/-- A search goes on after a character at which nothing is read. -/
theorem findAllFrom_refused {before : Option Char} {c : Char} {rest : Text}
    (h : admits before → reader (c :: rest) = none) (pos : Nat) :
    findAllFrom admits reader before pos 0 (c :: rest) =
      findAllFrom admits reader (some c) (pos + 1) 0 rest := by
  have hnone : (if admits before then reader (c :: rest) else none) = none := by
    split
    · next hadmits => exact h hadmits
    · rfl
  simp only [findAllFrom, hnone]

/-- Matches come in order, each after the end of the one before. -/
theorem pairwise_findAllFrom (before : Option Char) (pos skip : Nat) (t : Text) :
    (findAllFrom admits reader before pos skip t).Pairwise fun a b =>
      a.start < b.start ∧ a.stop ≤ b.start := by
  induction t generalizing before pos skip with
  | nil => simp [findAllFrom]
  | cons c rest ih =>
    cases skip with
    | succ skip => simpa [findAllFrom] using ih (some c) (pos + 1) skip
    | zero =>
      simp only [findAllFrom]
      split
      · next value left hread =>
        refine List.pairwise_cons.mpr ⟨fun later hlater => ?_, ih _ _ _⟩
        obtain ⟨k, _, hstart, hle, -⟩ := mem_findAllFrom hlater
        simp only at hstart ⊢
        omega
      · exact ih _ _ _

/-- A match of a search over a whole text is where the reader succeeds on the rest of it. -/
theorem mem_findAll {t : Text} {found : Match α} (h : found ∈ findAll admits reader t) :
    ∃ left, found.start < t.length ∧ reader (t.drop found.start) = some (found.value, left) ∧
      found.stop = found.start + ((t.drop found.start).length - left.length) := by
  obtain ⟨k, left, hstart, -, hlt, hread, hstop⟩ := mem_findAllFrom h
  obtain rfl : found.start = k := by omega
  exact ⟨left, hlt, hread, hstop⟩

/-- A match of a search over a whole text is admitted there. -/
theorem admits_of_mem_findAll {t : Text} {found : Match α} (h : found ∈ findAll admits reader t) :
    admits (charBefore none t found.start) := by
  obtain ⟨k, hstart, hadmits⟩ := admits_of_mem_findAllFrom h
  rwa [hstart, Nat.zero_add]

/-- Some match of a search over a whole text holds every offset at which the reader takes something
and a match is admitted. -/
theorem exists_mem_findAll
    (htakes : ∀ t value left, reader t = some (value, left) → left.length < t.length)
    {t left : Text} {p : Nat} {value : α} (hadmits : admits (charBefore none t p))
    (hread : reader (t.drop p) = some (value, left)) :
    ∃ found ∈ findAll admits reader t, found.start ≤ p ∧ p < found.stop := by
  rcases exists_mem_findAllFrom htakes 0 0 hadmits hread with hskip | ⟨found, hfound, hholds⟩
  · exact absurd hskip (Nat.not_lt_zero _)
  · exact ⟨found, hfound, by omega, by omega⟩

/-- What is read at an offset is found there, unless a match that starts earlier reaches past it. -/
theorem mem_findAll_of_read
    (htakes : ∀ t value left, reader t = some (value, left) → left.length < t.length)
    {t left : Text} {p : Nat} {value : α} (hadmits : admits (charBefore none t p))
    (hread : reader (t.drop p) = some (value, left))
    (hclear : ∀ found ∈ findAll admits reader t, found.start < p → found.stop ≤ p) :
    ⟨p, p + ((t.drop p).length - left.length), value⟩ ∈ findAll admits reader t := by
  obtain ⟨⟨start, stop, value'⟩, hmem, hle, hlt⟩ := exists_mem_findAll htakes hadmits hread
  obtain ⟨left', -, hread', hstop⟩ := mem_findAll hmem
  simp only at hle hlt hread' hstop
  rcases Nat.lt_or_eq_of_le hle with hearlier | rfl
  · exact absurd (hclear _ hmem hearlier) (Nat.not_le_of_lt hlt)
  · rw [hread] at hread'
    obtain ⟨rfl, rfl⟩ := Prod.mk.inj (Option.some.inj hread')
    exact hstop ▸ hmem

/-- A match of a search for texts of a form has that form and the extent of its text. -/
theorem exists_form_of_mem_findAll (form : α → Text → Prop)
    (hform : ∀ t value left, reader t = some (value, left) → ∃ taken, t = taken ++ left ∧ form value taken)
    {t : Text} {found : Match α} (h : found ∈ findAll admits reader t) :
    ∃ taken left, t.drop found.start = taken ++ left ∧ found.stop = found.start + taken.length ∧
      form found.value taken := by
  obtain ⟨left, -, hread, hstop⟩ := mem_findAll h
  obtain ⟨taken, htext, htaken⟩ := hform _ _ _ hread
  refine ⟨taken, left, htext, ?_, htaken⟩
  rw [hstop, htext, List.length_append, Nat.add_sub_cancel]

/-- No two matches of a search share a character. -/
theorem pairwise_findAll (t : Text) :
    (findAll admits reader t).Pairwise fun a b => a.start < b.start ∧ a.stop ≤ b.start :=
  pairwise_findAllFrom none 0 0 t

/-- The first match of a search is where its reader reads and no match starts earlier. -/
theorem head?_findAll
    (htakes : ∀ t value left, reader t = some (value, left) → left.length < t.length)
    {t left : Text} {p : Nat} {value : α} (hadmits : admits (charBefore none t p))
    (hread : reader (t.drop p) = some (value, left))
    (hfirst : ∀ found ∈ findAll admits reader t, p ≤ found.start) :
    ∃ found, (findAll admits reader t).head? = some found ∧ found.start = p ∧ found.value = value := by
  have hmem := mem_findAll_of_read htakes hadmits hread fun found hfound hearlier =>
    absurd (hfirst found hfound) (Nat.not_le_of_lt hearlier)
  have hordered : (findAll admits reader t).Pairwise fun a b => a.start < b.start ∧ a.stop ≤ b.start :=
    pairwise_findAll t
  cases hfound : findAll admits reader t with
  | nil => simp [hfound] at hmem
  | cons first rest =>
    rw [hfound] at hfirst hmem hordered
    rcases List.mem_cons.mp hmem with rfl | hlater
    · exact ⟨_, rfl, rfl, rfl⟩
    · have hge := hfirst first (List.mem_cons_self ..)
      have hlt := ((List.pairwise_cons.mp hordered).1 _ hlater).1
      exact absurd hge (Nat.not_le_of_lt hlt)

/-- Of matches in order, the one that starts last is the last. -/
theorem getLast?_of_greatest {founds : List (Match α)}
    (hordered : founds.Pairwise fun a b => a.start < b.start) {found : Match α} (h : found ∈ founds)
    (hlast : ∀ other ∈ founds, other.start ≤ found.start) : founds.getLast? = some found := by
  obtain ⟨before, after, rfl⟩ := List.append_of_mem h
  cases after with
  | nil => simp
  | cons next later =>
    have hlt := (List.pairwise_cons.mp (List.pairwise_append.mp hordered).2.1).1 next
      (List.mem_cons_self ..)
    have hle := hlast next (by simp)
    omega

/-- Matches of a search that start at different offsets stand apart. -/
theorem apart_of_mem_findAll {t : Text} {a b : Match α} (ha : a ∈ findAll admits reader t)
    (hb : b ∈ findAll admits reader t) (hne : a.start ≠ b.start) :
    a.stop ≤ b.start ∨ b.stop ≤ a.start := by
  have hsymm : Std.Symm fun a b : Match α => a.stop ≤ b.start ∨ b.stop ≤ a.start :=
    ⟨fun _ _ => Or.symm⟩
  have hapart : (findAll admits reader t).Pairwise fun a b => a.stop ≤ b.start ∨ b.stop ≤ a.start :=
    (pairwise_findAll t).imp fun h => .inl h.2
  exact hapart.forall ha hb fun h => hne (congrArg Match.start h)

end Text

end SetupScript
