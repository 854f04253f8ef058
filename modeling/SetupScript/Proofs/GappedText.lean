import Mathlib.Data.List.Chain
import SetupScript.Bindings
import SetupScript.Proofs.SearchMatches
import SetupScript.Proofs.TextLines

/-!
# Texts with gaps

A text with gaps stands for two texts: in one its gaps are closed up, in the other each of them holds
a space. Where no gap stands between two characters that read differently side by side, a reader of
declarations reads the same off the two texts, up to the same place of the text with gaps.
-/

namespace SetupScript

/-- The first letter of a word that declares: `const`, `let`, `var` or `function`. -/
def Text.startsDeclaring (c : Char) : Bool := c == 'c' || c == 'l' || c == 'v' || c == 'f'

theorem Text.isNameChar_of_startsDeclaring {c : Char} (h : startsDeclaring c) : isNameChar c := by
  simp only [startsDeclaring, Bool.or_eq_true, beq_iff_eq] at h
  rcases h with ((rfl | rfl) | rfl) | rfl <;> decide

/-- Two characters that read differently side by side than with white space between them: two of one
name, a dot and a dot or the first letter of a word that declares, a backslash and a quote, the two
that end a comment, and the last letter of a word that declares and the bracket of a pattern. -/
def Text.joins (a b : Char) : Bool :=
  isNameChar a && isNameChar b ||
  a == '.' && (b == '.' || startsDeclaring b) ||
  a == '\\' && (b == '\x27' || b == '\x22') ||
  a == '*' && b == '/' ||
  (a == 't' || a == 'r') && (b == '{' || b == '[')

/-- Characters that join are not blank. -/
theorem Text.not_blank_of_joins {a b : Char} (h : joins a b) :
    isBlank a = false ∧ isBlank b = false := by
  have hnames (c : Char) (hc : isNameChar c) : isBlank c = false := by
    by_contra hblank
    simp [isNameChar_of_isBlank (by simpa using hblank)] at hc
  simp only [joins, startsDeclaring, Bool.or_eq_true, Bool.and_eq_true, beq_iff_eq] at h
  obtain (((⟨ha, hb⟩ | ⟨rfl, hb⟩) | ⟨rfl, hb⟩) | ⟨rfl, rfl⟩) | ⟨ha, hb⟩ := h
  · exact ⟨hnames a ha, hnames b hb⟩
  · exact ⟨by decide, by rcases hb with rfl | ((rfl | rfl) | rfl) | rfl <;> decide⟩
  · exact ⟨by decide, by rcases hb with rfl | rfl <;> decide⟩
  · exact ⟨by decide, by decide⟩
  · exact ⟨by rcases ha with rfl | rfl <;> decide, by rcases hb with rfl | rfl <;> decide⟩

theorem Text.joins_of_names {a b : Char} (ha : isNameChar a) (hb : isNameChar b) : joins a b := by
  simp [joins, ha, hb]

/-- A text with gaps: its characters, and `none` for each gap. -/
abbrev Gapped := List (Option Char)

namespace Gapped

/-- The text with its gaps closed up. -/
def closed (g : Gapped) : Text := g.filterMap id

/-- The text with a space in every gap. -/
def filled (g : Gapped) : Text := g.map (·.getD ' ')

/-- No gap stands between two characters that join, `before` being the character before the text. -/
def ApartFrom (before : Option Char) : Gapped → Prop
  | [] => True
  | none :: rest =>
    (∀ a ∈ before, ∀ b ∈ (closed rest).head?, Text.joins a b = false) ∧ ApartFrom before rest
  | some c :: rest => ApartFrom (some c) rest

instance decidableApartFrom : (before : Option Char) → (g : Gapped) → Decidable (ApartFrom before g)
  | _, [] => .isTrue trivial
  | before, none :: rest =>
    have := decidableApartFrom before rest
    decidable_of_iff
      ((before.all fun a => (closed rest).head?.all fun b => !Text.joins a b) ∧ ApartFrom before rest)
      (and_congr_left' (by simp [Option.all_eq_true]))
  | _, some c :: rest => decidableApartFrom (some c) rest

/-- The text does not begin with a gap. -/
def Flush (g : Gapped) : Prop := g.head? ≠ some none

/-- A gap or a blank. -/
def isOpen (place : Option Char) : Bool := place.all Text.isBlank

variable {before : Option Char} {g h : Gapped} {c : Char}

/-! ## The two texts -/

@[simp] theorem closed_nil : closed [] = [] := rfl

@[simp] theorem closed_none (g : Gapped) : closed (none :: g) = closed g := rfl

@[simp] theorem closed_some (c : Char) (g : Gapped) : closed (some c :: g) = c :: closed g := rfl

@[simp] theorem closed_append (g h : Gapped) : closed (g ++ h) = closed g ++ closed h :=
  List.filterMap_append

@[simp] theorem filled_nil : filled [] = [] := rfl

@[simp] theorem filled_none (g : Gapped) : filled (none :: g) = ' ' :: filled g := rfl

@[simp] theorem filled_some (c : Char) (g : Gapped) : filled (some c :: g) = c :: filled g := rfl

@[simp] theorem filled_append (g h : Gapped) : filled (g ++ h) = filled g ++ filled h :=
  List.map_append

@[simp] theorem length_filled (g : Gapped) : (filled g).length = g.length := List.length_map _

@[simp] theorem closed_map_some (t : Text) : closed (t.map some) = t := by
  induction t with
  | nil => rfl
  | cons c rest ih => rw [List.map_cons, closed_some, ih]

@[simp] theorem filled_map_some (t : Text) : filled (t.map some) = t := by
  induction t with
  | nil => rfl
  | cons c rest ih => rw [List.map_cons, filled_some, ih]

theorem length_closed (g : Gapped) : (closed g).length = g.countP Option.isSome := by
  induction g with
  | nil => rfl
  | cons place rest ih => cases place <;> simp [ih]

/-- Without its leading gaps and characters of a class of blanks, a text is each of its two texts
without leading characters of the class. -/
theorem dropWhile_all {p : Char → Bool} (hp : p ' ') (g : Gapped) :
    closed (g.dropWhile (·.all p)) = (closed g).dropWhile p ∧
      filled (g.dropWhile (·.all p)) = (filled g).dropWhile p := by
  induction g with
  | nil => exact ⟨rfl, rfl⟩
  | cons place rest ih =>
    cases place with
    | none => simpa [hp] using ih
    | some c =>
      by_cases hc : p c
      · simpa [hc] using ih
      · simp [hc]

theorem flush_dropWhile_all (p : Char → Bool) (g : Gapped) : Flush (g.dropWhile (·.all p)) := by
  intro hhead
  have hopen := List.head?_dropWhile_not (·.all p) g
  rw [hhead] at hopen
  cases hopen

theorem dropWhile_isOpen (g : Gapped) :
    closed (g.dropWhile isOpen) = (closed g).dropWhile Text.isBlank ∧
      filled (g.dropWhile isOpen) = (filled g).dropWhile Text.isBlank :=
  dropWhile_all rfl g

theorem flush_dropWhile (g : Gapped) : Flush (g.dropWhile isOpen) := flush_dropWhile_all Text.isBlank g

/-! ## Apart -/

/-- A part of a text without gaps between characters that join is such a text. -/
theorem ApartFrom.append (hapart : ApartFrom before (g ++ h)) :
    ApartFrom before g ∧ ApartFrom ((closed g).getLast?.or before) h := by
  induction g generalizing before with
  | nil => exact ⟨trivial, hapart⟩
  | cons place rest ih =>
    rw [List.cons_append] at hapart
    cases place with
    | none =>
      obtain ⟨hgap, hrest⟩ := hapart
      refine ⟨⟨fun a ha b hb => hgap a ha b ?_, (ih hrest).1⟩, (ih hrest).2⟩
      rw [Option.mem_def] at hb ⊢
      rw [closed_append, List.head?_append, hb, Option.some_or]
    | some c =>
      refine ⟨(ih hapart).1, ?_⟩
      rw [closed_some, Text.getLast?_cons_or]
      exact (ih hapart).2

/-- What stands before a text need not be known. -/
theorem ApartFrom.forget (hapart : ApartFrom before g) : ApartFrom none g := by
  induction g generalizing before with
  | nil => trivial
  | cons place rest ih =>
    cases place with
    | none => exact ⟨by simp, ih hapart.2⟩
    | some c => exact hapart

theorem ApartFrom.of_part (hapart : ApartFrom before g) (hpart : h <:+: g) : ApartFrom none h := by
  obtain ⟨front, back, rfl⟩ := hpart
  exact hapart.append.1.append.2.forget

/-- The character after a gap joins not with the one before it. -/
theorem ApartFrom.joins_gap {a b : Char} (hapart : ApartFrom (some a) (none :: g))
    (hb : (closed g).head? = some b) : Text.joins a b = false :=
  hapart.1 a rfl b hb

/-! ## Searches -/

section StopAlike

variable {α : Type} {kept : α → Bool} {stop : List α → Prop} {n m : Nat} {place : α} {places : List α}
  {found found' : Option Nat}

/-- Two searches along places of a text, one of which sees only the places that are kept, from the
offsets `n` and `m` on: both find nothing, or both stop at one place, where `stop` holds of the rest. -/
def StopAlike (kept : α → Bool) (stop : List α → Prop) (n m : Nat) (places : List α)
    (found found' : Option Nat) : Prop :=
  found = none ∧ found' = none ∨
    ∃ front back, places = front ++ back ∧ stop back ∧
      found = some (n + front.countP kept) ∧ found' = some (m + front.length)

theorem StopAlike.past_gap (hplace : kept place = false)
    (h : StopAlike kept stop n (m + 1) places found found') :
    StopAlike kept stop n m (place :: places) found found' := by
  obtain hnone | ⟨front, back, rfl, hstop, hfound, hfound'⟩ := h
  · exact .inl hnone
  · refine .inr ⟨place :: front, back, rfl, hstop, ?_, hfound'.trans ?_⟩
    · rw [List.countP_cons_of_neg (by simpa using hplace), hfound]
    · rw [List.length_cons, Nat.add_right_comm, Nat.add_assoc]

theorem StopAlike.past_kept (hplace : kept place)
    (h : StopAlike kept stop (n + 1) (m + 1) places found found') :
    StopAlike kept stop n m (place :: places) found found' := by
  obtain hnone | ⟨front, back, rfl, hstop, hfound, hfound'⟩ := h
  · exact .inl hnone
  · refine .inr ⟨place :: front, back, rfl, hstop, hfound.trans ?_, hfound'.trans ?_⟩
    · rw [List.countP_cons_of_pos hplace, Nat.add_right_comm, Nat.add_assoc]
    · rw [List.length_cons, Nat.add_right_comm, Nat.add_assoc]

end StopAlike

/-! ## Readers -/

variable {α β : Type}

/-- The reader refuses both texts, or reads the same off both up to one place, which `post` is about:
the value, what is read and what is left. -/
inductive Agrees (reader : Reader α) (g : Gapped) (post : α → Gapped → Gapped → Prop) : Prop where
  | refused (hclosed : reader (closed g) = none) (hfilled : reader (filled g) = none)
  | read (value : α) (front rest : Gapped) (hsplit : g = front ++ rest)
      (hpost : post value front rest) (hclosed : reader (closed g) = some (value, closed rest))
      (hfilled : reader (filled g) = some (value, filled rest))

namespace Agrees

variable {reader : Reader α} {post mid : α → Gapped → Gapped → Prop}

theorem imp {post' : α → Gapped → Gapped → Prop} (hagrees : Agrees reader g post)
    (himp : ∀ value front rest, post value front rest → post' value front rest) :
    Agrees reader g post' := by
  cases hagrees with
  | refused hclosed hfilled => exact .refused hclosed hfilled
  | read value front rest hsplit hpost hclosed hfilled =>
    exact .read value front rest hsplit (himp _ _ _ hpost) hclosed hfilled

/-- Readers that agree one after the other agree in sequence. -/
theorem bind {second : α → Reader β} {post : β → Gapped → Gapped → Prop} (hfirst : Agrees reader g mid)
    (hsecond : ∀ value front rest, g = front ++ rest → mid value front rest →
      Agrees (second value) rest fun value front' rest' => post value (front ++ front') rest') :
    Agrees (reader >>= second) g post := by
  have hbind (t : Text) : (reader >>= second) t = (reader t).bind fun p => second p.1 p.2 := rfl
  cases hfirst with
  | refused hclosed hfilled => exact .refused (by rw [hbind, hclosed]; rfl) (by rw [hbind, hfilled]; rfl)
  | read value front rest hsplit hmid hclosed hfilled =>
    cases hsecond value front rest hsplit hmid with
    | refused hclosed' hfilled' =>
      exact .refused (by rw [hbind, hclosed]; exact hclosed') (by rw [hbind, hfilled]; exact hfilled')
    | read value' front' rest' hsplit' hpost hclosed' hfilled' =>
      refine .read value' (front ++ front') rest' ?_ hpost (by rw [hbind, hclosed]; exact hclosed')
        (by rw [hbind, hfilled]; exact hfilled')
      rw [hsplit, hsplit', List.append_assoc]

theorem pure (value : α) :
    Agrees (Pure.pure value : Reader α) g fun value' front rest =>
      value' = value ∧ front = [] ∧ rest = g :=
  .read value [] g rfl ⟨rfl, rfl, rfl⟩ rfl rfl

/-- White space is read up to the first character that is neither blank nor a gap. -/
theorem blanks (g : Gapped) : Agrees Reader.blanks g fun _ _ rest => Flush rest := by
  refine .read () (g.takeWhile isOpen) (g.dropWhile isOpen) List.takeWhile_append_dropWhile.symm
    (flush_dropWhile g) ?_ ?_
  · rw [(dropWhile_isOpen g).1]
    rfl
  · rw [(dropWhile_isOpen g).2]
    rfl

theorem char (p : Char → Bool) (hflush : Flush g) :
    Agrees (Reader.char p) g fun c front _ => p c ∧ front = [some c] := by
  cases g with
  | nil => exact .refused rfl rfl
  | cons place rest =>
    cases place with
    | none => exact absurd rfl hflush
    | some c =>
      by_cases hc : p c
      · exact .read c [some c] rest rfl ⟨hc, rfl⟩ (by simp [Reader.char, hc]) (by simp [Reader.char, hc])
      · exact .refused (by simp [Reader.char, hc]) (by simp [Reader.char, hc])

theorem skipOne (p : Char → Bool) (hflush : Flush g) :
    Agrees (Reader.skipOne p) g fun _ _ _ => True := by
  cases g with
  | nil => exact .read () [] [] rfl trivial rfl rfl
  | cons place rest =>
    cases place with
    | none => exact absurd rfl hflush
    | some c =>
      by_cases hc : p c
      · exact .read () [some c] rest rfl trivial (by simp [Reader.skipOne, hc])
          (by simp [Reader.skipOne, hc])
      · exact .read () [] (some c :: rest) rfl trivial (by simp [Reader.skipOne, hc])
          (by simp [Reader.skipOne, hc])

end Agrees

/-! ## Names -/

/-- A run of name characters is the same in both texts, since no gap parts two of them. -/
theorem run_of_name (hapart : ApartFrom (some c) g) (hc : Text.isNameChar c) :
    ∃ (run : Text) (rest : Gapped), g = run.map some ++ rest ∧ run.all Text.isNameChar ∧
      Reader.many Text.isNameChar (closed g) = some (run, closed rest) ∧
      Reader.many Text.isNameChar (filled g) = some (run, filled rest) := by
  induction g generalizing c with
  | nil => exact ⟨[], [], rfl, rfl, rfl, rfl⟩
  | cons place rest ih =>
    cases place with
    | none =>
      have hend : (closed rest).head?.any Text.isNameChar = false := by
        cases hhead : (closed rest).head? with
        | none => rfl
        | some b =>
          by_contra hb
          simpa [Text.joins_of_names hc (by simpa using hb)] using hapart.joins_gap hhead
      refine ⟨[], none :: rest, rfl, rfl, ?_, rfl⟩
      rw [closed_none]
      cases hclosed : closed rest with
      | nil => rfl
      | cons b more =>
        rw [hclosed] at hend
        have hb : Text.isNameChar b = false := by simpa using hend
        simp [Reader.many, hb]
    | some d =>
      by_cases hd : Text.isNameChar d
      · obtain ⟨run, left, rfl, hrun, hclosed, hfilled⟩ := ih hapart hd
        simp only [Reader.many, Option.some.injEq, Prod.mk.injEq] at hclosed hfilled
        refine ⟨d :: run, left, rfl, by simp [hd, hrun], ?_, ?_⟩
        · simp [Reader.many, hd, hclosed, -closed_append]
        · simp [Reader.many, hd, hfilled, -filled_append]
      · exact ⟨[], some d :: rest, rfl, rfl, by simp [Reader.many, hd], by simp [Reader.many, hd]⟩

/-- A name is read off both texts alike. -/
theorem Agrees.identifier (hapart : ApartFrom before g) (hflush : Flush g) :
    Agrees Reader.identifier g fun _ _ _ => True := by
  refine .bind (.char _ hflush) fun c front rest hsplit hfront => ?_
  obtain ⟨hstart, rfl⟩ := hfront
  subst hsplit
  obtain ⟨run, left, hrun, -, hclosed, hfilled⟩ :=
    run_of_name hapart.append.2 (Text.isNameChar_of_isNameStart hstart)
  have hmany : Agrees (Reader.many Text.isNameChar) rest fun _ _ _ => True :=
    .read run _ _ hrun trivial hclosed hfilled
  exact hmany.bind fun _ _ _ _ _ => (Agrees.pure _).imp fun _ _ _ _ => trivial

/-! ## Words -/

/-- A word whose characters join is found in both texts or in neither. It may stand after a gap if
the character before joins with its first. -/
theorem isPrefixOf?_of_chain {word : Text} (hapart : ApartFrom before g)
    (hchain : word.IsChain fun a b => Text.joins a b)
    (hstart : Flush g ∨ ∃ a ∈ before, ∀ d ∈ word.head?, Text.joins a d) :
    word.isPrefixOf? (closed g) = none ∧ word.isPrefixOf? (filled g) = none ∨
      ∃ rest, g = word.map some ++ rest ∧ word.isPrefixOf? (closed g) = some (closed rest) ∧
        word.isPrefixOf? (filled g) = some (filled rest) := by
  induction word generalizing before g with
  | nil => exact .inr ⟨g, rfl, rfl, rfl⟩
  | cons d word ih =>
    cases g with
    | nil => exact .inl ⟨rfl, rfl⟩
    | cons place rest =>
      cases place with
      | none =>
        obtain hflush | ⟨a, ha, hjoins⟩ := hstart
        · exact absurd rfl hflush
        -- The gap is followed by no `d`, and the space in it is none.
        have hjoins : Text.joins a d := hjoins d rfl
        have hspace : d ≠ ' ' := by
          rintro rfl
          exact absurd (Text.not_blank_of_joins hjoins).2 (by decide)
        refine .inl ⟨?_, by simp [List.isPrefixOf?, hspace]⟩
        rw [closed_none]
        cases hclosed : closed rest with
        | nil => rfl
        | cons b more =>
          have hb := hapart.1 a ha b (by rw [hclosed]; rfl)
          have hne : d ≠ b := by
            rintro rfl
            simp [hb] at hjoins
          simp [List.isPrefixOf?, hne]
      | some e =>
        by_cases he : d = e
        · subst he
          have hcons (t : Text) : (d :: word).isPrefixOf? (d :: t) = word.isPrefixOf? t := by
            simp [List.isPrefixOf?]
          have hnext : ∀ x ∈ word.head?, Text.joins d x := fun x hx =>
            (List.isChain_cons.mp hchain).1 x hx
          have hrest : ApartFrom (some d) rest := hapart
          rw [closed_some, filled_some, hcons, hcons]
          obtain hnone | ⟨left, rfl, hread⟩ := ih hrest hchain.tail (.inr ⟨d, rfl, hnext⟩)
          · exact .inl hnone
          · exact .inr ⟨left, rfl, hread⟩
        · exact .inl ⟨by simp [List.isPrefixOf?, he], by simp [List.isPrefixOf?, he]⟩

/-- Names are words whose characters join. -/
theorem isChain_of_name {name : Text} (hname : name.all Text.isNameChar) :
    name.IsChain fun a b => Text.joins a b := by
  refine (List.pairwise_of_forall_mem_list fun a ha b hb => ?_).isChain
  exact Text.joins_of_names (List.all_eq_true.mp hname a ha) (List.all_eq_true.mp hname b hb)

namespace Agrees

theorem literal {word : Text} (hapart : ApartFrom before g) (hflush : Flush g)
    (hchain : word.IsChain fun a b => Text.joins a b) :
    Agrees (Reader.literal word) g fun _ front _ => front = word.map some := by
  obtain ⟨hclosed, hfilled⟩ | ⟨rest, hsplit, hclosed, hfilled⟩ :=
    isPrefixOf?_of_chain hapart hchain (.inl hflush)
  · exact .refused (by rw [Reader.literal, hclosed]; rfl) (by rw [Reader.literal, hfilled]; rfl)
  · exact .read () _ rest hsplit rfl (by rw [Reader.literal, hclosed]; rfl)
      (by rw [Reader.literal, hfilled]; rfl)

theorem oneOf {words : List Text} (hapart : ApartFrom before g) (hflush : Flush g)
    (hchain : ∀ word ∈ words, word.IsChain fun a b => Text.joins a b) :
    Agrees (Reader.oneOf words) g fun word front _ => word ∈ words ∧ front = word.map some := by
  induction words with
  | nil => exact .refused rfl rfl
  | cons word words ih =>
    obtain ⟨hword, hwords⟩ := List.forall_mem_cons.mp hchain
    obtain ⟨hclosed, hfilled⟩ | ⟨rest, hsplit, hclosed, hfilled⟩ :=
      isPrefixOf?_of_chain hapart hword (.inl hflush)
    · have hnext {t : Text} (h : word.isPrefixOf? t = none) :
          Reader.oneOf (word :: words) t = Reader.oneOf words t := by
        simp [Reader.oneOf, h]
      cases ih hwords with
      | refused hclosed' hfilled' =>
        exact .refused (by rw [hnext hclosed, hclosed']) (by rw [hnext hfilled, hfilled'])
      | read value front rest hsplit hpost hclosed' hfilled' =>
        exact .read value front rest hsplit ⟨List.mem_cons_of_mem _ hpost.1, hpost.2⟩
          (by rw [hnext hclosed, hclosed']) (by rw [hnext hfilled, hfilled'])
    · exact .read word _ rest hsplit ⟨List.mem_cons_self .., rfl⟩ (by simp [Reader.oneOf, hclosed])
        (by simp [Reader.oneOf, hfilled])

/-- After a name, a text goes on with no character of that name, whether a gap follows or not. -/
theorem notBefore (hapart : ApartFrom before g) (hbefore : Flush g ∨ before.any Text.isNameChar) :
    Agrees (Reader.notBefore Text.isNameChar) g fun _ _ _ => True := by
  have hnone {t : Text} (h : t.head?.any Text.isNameChar) :
      Reader.notBefore Text.isNameChar t = none := by
    simp [Reader.notBefore, h]
  have hsome {t : Text} (h : t.head?.any Text.isNameChar = false) :
      Reader.notBefore Text.isNameChar t = some ((), t) := by
    simp [Reader.notBefore, h]
  cases g with
  | nil => exact .read () [] [] rfl trivial rfl rfl
  | cons place rest =>
    cases place with
    | none =>
      obtain hflush | hname := hbefore
      · exact absurd rfl hflush
      obtain ⟨a, rfl, ha⟩ := (Option.any_eq_true ..).mp hname
      refine .read () [] (none :: rest) rfl trivial (hsome ?_) (hsome rfl)
      rw [closed_none]
      cases hhead : (closed rest).head? with
      | none => rfl
      | some b =>
        by_contra hb
        simpa [Text.joins_of_names ha (by simpa using hb)] using hapart.joins_gap hhead
    | some c =>
      by_cases hc : Text.isNameChar c
      · exact .refused (hnone (by simpa using hc)) (hnone (by simpa using hc))
      · exact .read () [] (some c :: rest) rfl trivial (hsome (by simpa using hc))
          (hsome (by simpa using hc))

end Agrees

/-! ## Declarations -/

/-- The two texts begin alike where no gap does. -/
theorem head?_of_flush (hflush : Flush g) : (filled g).head? = (closed g).head? := by
  cases g with
  | nil => rfl
  | cons place rest =>
    cases place with
    | none => exact absurd rfl hflush
    | some c => rfl

/-- A character that may stand first in what a word declares. -/
def isTargetStart (c : Char) : Bool := Text.isNameChar c || c == '{' || c == '['

/-- Every character that a target starts with joins with the last letter of a word that declares. -/
theorem joins_targetStart {e : Char} (he : e = 't' ∨ e = 'r') {b : Char} (hb : isTargetStart b) :
    Text.joins e b := by
  have hname : Text.isNameChar e := by rcases he with rfl | rfl <;> decide
  simp only [isTargetStart, Bool.or_eq_true, beq_iff_eq] at hb
  obtain (hb | rfl) | rfl := hb
  · exact Text.joins_of_names hname hb
  · rcases he with rfl | rfl <;> decide
  · rcases he with rfl | rfl <;> decide

/-- At least one blank is read where a text begins with a blank. -/
theorem blanks1_eq (t : Text) :
    Reader.blanks1 t = if t.head?.any Text.isBlank then some ((), t.dropWhile Text.isBlank) else none := by
  change ((Reader.many1 Text.isBlank t).bind fun p => some ((), p.2)) = _
  cases t with
  | nil => rfl
  | cons c rest => cases hc : Text.isBlank c <;> simp [Reader.many1, hc]

/-- A gap after a word that declares counts as a blank, unless a target follows right after it: and
then the gap would stand between two characters that join. -/
theorem Agrees.blanks1_target {second : Reader α} {post : α → Gapped → Gapped → Prop} {e : Char}
    (he : e = 't' ∨ e = 'r') (hapart : ApartFrom (some e) g)
    (hrefuses : ∀ t : Text, t.head?.any isTargetStart = false → second t = none)
    (hsecond : ∀ front rest, g = front ++ rest → Flush rest →
      Agrees second rest fun value front' rest' => post value (front ++ front') rest') :
    Agrees (Reader.blanks1 >>= fun _ => second) g post := by
  have hrest := dropWhile_isOpen g
  have hflush := flush_dropWhile g
  by_cases hblank : (closed g).head?.any Text.isBlank
  · have hfilled : (filled g).head?.any Text.isBlank := by
      cases g with
      | nil => exact absurd hblank (by decide)
      | cons place rest =>
        cases place with
        | none => rfl
        | some c => exact hblank
    have hblanks : Agrees Reader.blanks1 g fun _ _ rest => Flush rest :=
      .read () _ _ List.takeWhile_append_dropWhile.symm hflush
        (by rw [blanks1_eq, if_pos hblank, hrest.1]) (by rw [blanks1_eq, if_pos hfilled, hrest.2])
    exact hblanks.bind fun _ front rest hsplit hrest => hsecond front rest hsplit hrest
  · have hclosed : Reader.blanks1 (closed g) = none := by rw [blanks1_eq, if_neg hblank]
    have hstays : (closed g).dropWhile Text.isBlank = closed g := by
      cases hcases : closed g with
      | nil => rfl
      | cons b more =>
        rw [hcases] at hblank
        rw [List.dropWhile_cons_of_neg (by simpa using hblank)]
    refine .refused (by change (Reader.blanks1 (closed g)).bind _ = none; rw [hclosed]; rfl) ?_
    change (Reader.blanks1 (filled g)).bind _ = none
    rw [blanks1_eq]
    split
    · next hfilled =>
      refine hrefuses _ ?_
      rw [← hrest.2, head?_of_flush hflush, hrest.1, hstays]
      -- The filled text begins with the space of a gap, so what comes after joins not with `e`.
      cases g with
      | nil => rfl
      | cons place rest =>
        cases place with
        | some c => exact absurd hfilled hblank
        | none =>
          cases hhead : (closed rest).head? with
          | none => rw [closed_none, hhead]; rfl
          | some b =>
            by_contra hb
            rw [closed_none, hhead] at hb
            simpa [joins_targetStart he (by simpa using hb)] using hapart.joins_gap hhead
    · rfl

/-- The words that start a declaration are words whose characters join. -/
theorem isChain_declarationWords :
    ∀ word ∈ (["const", "let", "var"] : List Text), word.IsChain fun a b => Text.joins a b := by
  intro word hword
  refine isChain_of_name ?_
  revert word
  decide

/-- A declaration is read off both texts alike if its target is. -/
theorem Agrees.declaration {second : Reader α} {post : α → Gapped → Gapped → Prop}
    (hapart : ApartFrom before g) (hflush : Flush g)
    (hrefuses : ∀ t : Text, t.head?.any isTargetStart = false → second t = none)
    (hsecond : ∀ front rest, g = front ++ rest → Flush rest →
      Agrees second rest fun value front' rest' => post value (front ++ front') rest') :
    Agrees (Reader.declarationWord >>= fun _ => second) g post := by
  rw [Reader.declarationWord, bind_assoc]
  refine (Agrees.oneOf hapart hflush isChain_declarationWords).bind fun word front rest hsplit hword => ?_
  obtain ⟨hword, rfl⟩ := hword
  subst hsplit
  obtain ⟨e, he, hlast⟩ : ∃ e, (e = 't' ∨ e = 'r') ∧ word.getLast? = some e := by
    simp only [List.mem_cons, List.not_mem_nil, or_false] at hword
    rcases hword with rfl | rfl | rfl
    · exact ⟨'t', .inl rfl, rfl⟩
    · exact ⟨'t', .inl rfl, rfl⟩
    · exact ⟨'r', .inr rfl, rfl⟩
  have hrest : ApartFrom (some e) rest := by
    have hrest := hapart.append.2
    rwa [closed_map_some, hlast, Option.some_or] at hrest
  refine .blanks1_target he hrest hrefuses fun front' rest' hsplit hflush' => ?_
  refine (hsecond (word.map some ++ front') rest' (by rw [hsplit, List.append_assoc]) hflush').imp ?_
  intro value front'' rest'' hpost
  rwa [List.append_assoc] at hpost

/-- The last place of a text holds a character. -/
def EndsKept (g : Gapped) : Prop := ∃ c, g.getLast? = some (some c)

theorem endsKept_append {front : Gapped} (h : EndsKept g) : EndsKept (front ++ g) := by
  obtain ⟨c, hc⟩ := h
  exact ⟨c, by rw [List.getLast?_append, hc, Option.some_or]⟩

/-- A character is refused that stands not first in a text. -/
theorem char_bind_eq_none {p : Char → Bool} {second : Char → Reader α} {t : Text}
    (hp : ∀ c, p c → isTargetStart c) (ht : t.head?.any isTargetStart = false) :
    (Reader.char p >>= second) t = none := by
  have hchar : Reader.char p t = none := by
    cases t with
    | nil => rfl
    | cons c rest =>
      have hc : p c = false := by
        by_contra hc
        simp [hp c (by simpa using hc)] at ht
      simp [Reader.char, hc]
  change (Reader.char p t).bind _ = none
  rw [hchar]
  rfl

/-- A declaration of a plain name is read off both texts alike. -/
theorem Agrees.nameDeclaration (hapart : ApartFrom before g) (hflush : Flush g) :
    Agrees Reader.nameDeclaration g fun _ front _ => EndsKept front := by
  refine .declaration hapart hflush (fun t ht => ?_) fun front rest hsplit hrest => ?_
  · rw [Reader.identifier, bind_assoc]
    refine char_bind_eq_none (fun c hc => ?_) ht
    simp [isTargetStart, Text.isNameChar_of_isNameStart hc]
  subst hsplit
  refine (Agrees.identifier hapart.append.2 hrest).bind fun name front₁ rest₁ hsplit _ => ?_
  subst hsplit
  refine (Agrees.blanks rest₁).bind fun _ front₂ rest₂ hsplit hflush₂ => ?_
  subst hsplit
  have hrest₂ := hapart.append.2.append.2.append.2
  refine (Agrees.literal hrest₂ hflush₂ (.singleton '=')).bind fun _ front₃ rest₃ _ hfront₃ => ?_
  refine (Agrees.pure name).imp fun _ front₄ _ hfront₄ => ?_
  obtain ⟨-, rfl, -⟩ := hfront₄
  subst hfront₃
  exact endsKept_append (endsKept_append (endsKept_append ⟨'=', rfl⟩))

/-- The start of a declaration of a pattern is read off both texts alike. -/
theorem Agrees.patternDeclaration (hapart : ApartFrom before g) (hflush : Flush g) :
    Agrees Reader.patternDeclaration g fun opener front _ => front.getLast? = some (some opener) := by
  refine .declaration hapart hflush (fun t ht => ?_) fun front rest hsplit hrest => ?_
  · rw [← bind_pure (Reader.char _)]
    refine char_bind_eq_none (fun c hc => ?_) ht
    simp only [Bool.or_eq_true, beq_iff_eq] at hc
    rcases hc with rfl | rfl <;> decide
  refine (Agrees.char _ hrest).imp fun opener front' _ hfront => ?_
  rw [hfront.2, List.getLast?_append]
  rfl

/-- A function declaration is read off both texts alike. -/
theorem Agrees.functionDeclaration (hapart : ApartFrom before g) (hflush : Flush g) :
    Agrees Reader.functionDeclaration g fun _ front _ => EndsKept front := by
  refine (Agrees.literal hapart hflush (isChain_of_name (by decide))).bind fun _ front rest hsplit _ => ?_
  subst hsplit
  refine (Agrees.blanks rest).bind fun _ front₁ rest₁ hsplit hflush₁ => ?_
  subst hsplit
  refine (Agrees.skipOne _ hflush₁).bind fun _ front₂ rest₂ hsplit _ => ?_
  subst hsplit
  refine (Agrees.blanks rest₂).bind fun _ front₃ rest₃ hsplit hflush₃ => ?_
  subst hsplit
  have hrest₃ := hapart.append.2.append.2.append.2.append.2
  refine (Agrees.identifier hrest₃ hflush₃).bind fun name front₄ rest₄ hsplit _ => ?_
  subst hsplit
  refine (Agrees.blanks rest₄).bind fun _ front₅ rest₅ hsplit hflush₅ => ?_
  subst hsplit
  have hrest₅ := hrest₃.append.2.append.2
  refine (Agrees.literal hrest₅ hflush₅ (.singleton '(')).bind fun _ front₆ rest₆ _ hfront₆ => ?_
  refine (Agrees.pure name).imp fun _ front₇ _ hfront₇ => ?_
  obtain ⟨-, rfl, -⟩ := hfront₇
  subst hfront₆
  iterate 6 refine endsKept_append ?_
  exact ⟨'(', rfl⟩

/-- An equals sign is read off both texts alike. -/
theorem Agrees.assignment (hapart : ApartFrom before g) :
    Agrees Reader.assignment g fun _ _ rest => Flush rest := by
  refine (Agrees.blanks g).bind fun _ front rest hsplit hflush => ?_
  subst hsplit
  refine (Agrees.literal hapart.append.2 hflush (.singleton '=')).bind fun _ front₁ rest₁ _ _ => ?_
  exact Agrees.blanks rest₁

/-- An assignment of a name is read off both texts alike. -/
theorem Agrees.assignmentOf {name : Text} (hname : name.all Text.isNameChar)
    (hapart : ApartFrom before g) : Agrees (Reader.assignmentOf name) g fun _ _ _ => True := by
  refine (Agrees.assignment hapart).bind fun _ front rest hsplit hflush => ?_
  subst hsplit
  have hrest := hapart.append.2
  refine (Agrees.literal hrest hflush (isChain_of_name hname)).bind fun _ front₁ rest₁ hsplit hfront₁ => ?_
  subst hsplit hfront₁
  refine .notBefore hrest.append.2 ?_
  cases hlast : name.getLast? with
  | none => exact .inl (by simpa [List.getLast?_eq_none_iff.mp hlast] using hflush)
  | some c =>
    refine .inr ?_
    rw [closed_map_some, hlast]
    exact List.all_eq_true.mp hname c (List.mem_of_getLast? hlast)

/-- Whether a reader that agrees reads anything is the same for both texts. -/
theorem Agrees.isSome_eq {reader : Reader α} {post : α → Gapped → Gapped → Prop}
    (hagrees : Agrees reader g post) :
    (reader (closed g)).isSome = (reader (filled g)).isSome := by
  cases hagrees with
  | refused hclosed hfilled => rw [hclosed, hfilled]
  | read value front rest _ _ hclosed hfilled => rw [hclosed, hfilled]; rfl

end Gapped

end SetupScript
