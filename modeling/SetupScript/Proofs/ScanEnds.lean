import SetupScript.Proofs.ScanComposition

/-!
# Texts whose end changes nothing

A scan looks one character ahead for two characters only, the slash and the star, and only from one
of the two. So a text may be cut after any other character, except in the middle of an escape, in
whatever context the scan is there. White space is never looked for, and it keeps every context but
that of a line comment.
-/

namespace SetupScript

/-- The next character that a step looks at is not one that it looks for. -/
def isUnsought (next : Option Char) : Bool := next != some '/' && next != some '*'

/-- What a step does not look for makes no difference to it. -/
theorem Context.step_of_isUnsought (context : Context) (c : Char) {d e : Option Char}
    (hd : isUnsought d) (he : isUnsought e) : context.step c d = context.step c e := by
  simp only [isUnsought, Bool.and_eq_true, bne_iff_ne] at hd he
  cases context <;> simp only [step] <;> grind

/-- A character that starts no pair is read alike whatever follows. -/
theorem Context.step_of_ne (context : Context) {c : Char} (hslash : c ≠ '/') (hstar : c ≠ '*')
    (d e : Option Char) : context.step c d = context.step c e := by
  cases context <;> simp only [step] <;> grind

/-- Only an escape reaches past the end of a text. -/
theorem Context.eq_backslash_of_cut {context next : Context} {c : Char}
    (h : context.step c none = (next, 2)) : c = '\\' := by
  cases context <;> simp only [step] at h <;> grind

/-- A text that ends with a character that starts no pair is followed by a scan from the context in
which it ends. -/
theorem labelFrom_append_of_last {context : Context} {a : Text} {c : Char}
    (hlast : a.getLast? = some c) (hslash : c ≠ '/') (hstar : c ≠ '*') (hescape : c ≠ '\\') (b : Text) :
    labelFrom context (a ++ b) = labelFrom context a ++ labelFrom (context.after a) b ∧
      context.after (a ++ b) = (context.after a).after b := by
  induction context, a using Context.scan_induction with
  | nil context => simp at hlast
  | single context d rest next hstep ih =>
    cases rest with
    | nil =>
      obtain rfl : d = c := by simpa using hlast
      have hstep' : context.step d b.head? = (next, 1) := by
        rw [context.step_of_ne hslash hstar b.head? none]
        exact hstep
      rw [List.singleton_append, labelFrom_single hstep', Context.after_single hstep',
        labelFrom_single hstep, Context.after_single hstep]
      simp
    | cons e tail =>
      obtain ⟨hcells, hafter⟩ := ih (by simpa using hlast)
      have hstep' : context.step d ((e :: tail) ++ b).head? = (next, 1) := hstep
      rw [List.cons_append, labelFrom_single hstep', Context.after_single hstep', hcells, hafter,
        labelFrom_single hstep, Context.after_single hstep]
      exact ⟨rfl, rfl⟩
  | pair context d e tail next hstep ih =>
    rw [List.cons_append, List.cons_append, labelFrom_pair hstep, Context.after_pair hstep,
      labelFrom_pair hstep, Context.after_pair hstep]
    cases tail with
    | nil => simp
    | cons f tail =>
      obtain ⟨hcells, hafter⟩ := ih (by simpa using hlast)
      rw [hcells, hafter]
      exact ⟨rfl, rfl⟩
  | cut context d next hstep =>
    obtain rfl : d = c := by simpa using hlast
    exact absurd (Context.eq_backslash_of_cut hstep) hescape

/-- A scan that ends in a line comment goes on in it. -/
theorem labelFrom_append_of_lineComment {context : Context} {a : Text}
    (h : context.after a = .lineComment) (b : Text) :
    labelFrom context (a ++ b) = labelFrom context a ++ labelFrom .lineComment b ∧
      context.after (a ++ b) = Context.lineComment.after b := by
  induction context, a using Context.scan_induction with
  | nil context =>
    obtain rfl : context = .lineComment := by simpa using h
    simp
  | single context c rest next hstep ih =>
    rw [Context.after_single hstep] at h
    have hstep' : context.step c (rest ++ b).head? = (next, 1) := by
      cases rest with
      | cons d tail => exact hstep
      | nil =>
        -- a comment is opened by two characters, so this one stands in it already
        obtain rfl : next = .lineComment := by simpa using h
        cases context <;> simp only [Context.step] at hstep ⊢ <;> grind
    obtain ⟨hcells, hafter⟩ := ih h
    rw [List.cons_append, labelFrom_single hstep', Context.after_single hstep', hcells, hafter,
      labelFrom_single hstep]
    exact ⟨rfl, rfl⟩
  | pair context c d tail next hstep ih =>
    rw [Context.after_pair hstep] at h
    obtain ⟨hcells, hafter⟩ := ih h
    rw [List.cons_append, List.cons_append, labelFrom_pair hstep, Context.after_pair hstep, hcells,
      hafter, labelFrom_pair hstep]
    exact ⟨rfl, rfl⟩
  | cut context c next hstep =>
    rw [Context.after_cut hstep] at h
    subst h
    cases context <;> simp only [Context.step] at hstep <;> grind

/-! ## White space at the ends -/

/-- White space is none of the characters that mean something to a scan. -/
theorem special_of_isBlank {c : Char} (h : Text.isBlank c) :
    c ∉ ['/', '*', '\\', '\x60', '\x27', '\x22'] := by
  intro hmem
  have hnone : ['/', '*', '\\', '\x60', '\x27', '\x22'].all (!Text.isBlank ·) := by decide
  have hblank := List.all_eq_true.mp hnone c hmem
  rw [h] at hblank
  cases hblank

/-- One more blank at the end adds one more cell. -/
theorem labelFrom_concat_blank (context : Context) (a : Text) {b : Char} (hb : Text.isBlank b) :
    ∃ mode, labelFrom context (a ++ [b]) = labelFrom context a ++ [⟨b, mode⟩] := by
  have hspecial := special_of_isBlank hb
  simp only [List.mem_cons, List.not_mem_nil, or_false, not_or] at hspecial
  have hunsought : isUnsought (some b) := by simp [isUnsought, hspecial]
  induction context, a using Context.scan_induction with
  | nil context =>
    have hwidth : (context.step b none).2 = 1 := by
      cases context <;> simp only [Context.step] <;> grind
    have hstep : context.step b ([] : Text).head? = ((context.step b none).1, 1) :=
      Prod.ext rfl hwidth
    exact ⟨_, by rw [List.nil_append, labelFrom_single hstep, labelFrom_nil, labelFrom_nil]; rfl⟩
  | single context c rest next hstep ih =>
    have hstep' : context.step c (rest ++ [b]).head? = (next, 1) := by
      cases rest with
      | cons d tail => exact hstep
      | nil => rw [← hstep]; exact context.step_of_isUnsought c hunsought rfl
    obtain ⟨mode, hcells⟩ := ih
    exact ⟨mode, by rw [List.cons_append, labelFrom_single hstep', hcells, labelFrom_single hstep]; rfl⟩
  | pair context c d tail next hstep ih =>
    obtain ⟨mode, hcells⟩ := ih
    exact ⟨mode, by
      rw [List.cons_append, List.cons_append, labelFrom_pair hstep, hcells, labelFrom_pair hstep]; rfl⟩
  | cut context c next hstep =>
    have hstep' : context.step c (some b) = (next, 2) := by
      rw [← hstep]
      exact context.step_of_isUnsought c hunsought rfl
    exact ⟨_, by
      rw [List.singleton_append, labelFrom_pair hstep', labelFrom_nil, labelFrom_cut hstep]; rfl⟩

/-- The context is one that a scan from code gets to: strings are closed by a quote. -/
def Context.isProper : Context → Bool
  | quoted quote => quote == '\x27' || quote == '\x22'
  | _ => true

/-- A step leads from a proper context to a proper one. -/
theorem Context.isProper_of_step {context next : Context} {c : Char} {d : Option Char} {width : Nat}
    (h : context.isProper) (hstep : context.step c d = (next, width)) : next.isProper := by
  cases context <;> simp only [step] at hstep <;> grind [isProper]

/-- One more blank at the end ends nothing but a line comment. -/
theorem Context.after_concat_blank {context : Context} (hproper : context.isProper) (a : Text) {b : Char}
    (hb : Text.isBlank b) :
    context.after (a ++ [b]) = context.after a ∨ context.after a = .lineComment := by
  have hspecial := special_of_isBlank hb
  simp only [List.mem_cons, List.not_mem_nil, or_false, not_or] at hspecial
  have hunsought : isUnsought (some b) := by simp [isUnsought, hspecial]
  induction context, a using Context.scan_induction with
  | nil context =>
    have hstays : context.step b none = (context, 1) ∨ context = .lineComment := by
      cases context <;> simp only [step] <;> grind [isProper]
    rcases hstays with hstep | hcomment
    · have hlast : context.after [b] = context.after [] := after_single hstep
      exact .inl hlast
    · exact .inr hcomment
  | single context c rest next hstep ih =>
    have hstep' : context.step c (rest ++ [b]).head? = (next, 1) := by
      cases rest with
      | cons d tail => exact hstep
      | nil => rw [← hstep]; exact context.step_of_isUnsought c hunsought rfl
    rw [List.cons_append, after_single hstep', after_single hstep]
    exact ih (isProper_of_step hproper hstep)
  | pair context c d tail next hstep ih =>
    rw [List.cons_append, List.cons_append, after_pair hstep, after_pair hstep]
    exact ih (isProper_of_step hproper hstep)
  | cut context c next hstep =>
    have hstep' : context.step c (some b) = (next, 2) := by
      rw [← hstep]
      exact context.step_of_isUnsought c hunsought rfl
    rw [List.singleton_append, after_pair hstep', after_cut hstep, after_nil]
    exact .inl rfl

/-- White space is plain. -/
theorem all_isPlain_of_blanks {blanks : Text} (h : blanks.all Text.isBlank) : blanks.all isPlain := by
  refine List.all_eq_true.mpr fun b hb => ?_
  have hspecial := special_of_isBlank (List.all_eq_true.mp h b hb)
  simp only [List.mem_cons, List.not_mem_nil, or_false, not_or] at hspecial
  simp [isPlain, hspecial]

/-- White space at the end ends nothing but a line comment. -/
theorem Context.after_append_blanks {context : Context} (hproper : context.isProper) (t : Text)
    {blanks : Text} (h : blanks.all Text.isBlank) :
    context.after (t ++ blanks) = context.after t ∨ context.after t = .lineComment := by
  induction blanks generalizing t with
  | nil => exact .inl (by rw [List.append_nil])
  | cons b rest ih =>
    simp only [List.all_cons, Bool.and_eq_true] at h
    rw [List.append_cons]
    rcases after_concat_blank hproper t h.1 with hsame | hcomment
    · rw [← hsame]
      exact ih (t ++ [b]) h.2
    · exact .inr hcomment

end SetupScript
