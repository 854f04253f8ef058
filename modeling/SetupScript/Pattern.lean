import SetupScript.Text.Word

/-!
# Destructuring patterns

The names that an object or array pattern binds, read off its text: renamed keys, defaults, rest
elements, holes and nested patterns. Only quoted strings and brackets are followed; patterns hold
no comments. Text that is no pattern binds nothing, and what is not a name is passed over.

Each nested pattern is strictly shorter than the pattern around it, which is why reading ends.
-/

namespace SetupScript.Pattern

/-- Opens one of the three kinds of bracket. -/
def isOpener (c : Char) : Bool := c == '{' || c == '[' || c == '('

/-- Closes one of the three kinds of bracket. -/
def isCloser (c : Char) : Bool := c == '}' || c == ']' || c == ')'

/-- What a character adds to the bracket depth. -/
def depthStep (c : Char) : Int := if isOpener c then 1 else if isCloser c then -1 else 0

/-- Every character with the bracket depth before it, or with none when it belongs to a quoted
string. A quote closes its string unless the character `before` it is a backslash. -/
def walkFrom (quote : Option Char) (before : Char) (depth : Int) : Text → List (Char × Option Int)
  | [] => []
  | c :: rest =>
    match quote with
    | some q =>
      (c, none) :: walkFrom (if c = q ∧ before ≠ '\\' then none else some q) c depth rest
    | none =>
      if c = '\x27' ∨ c = '\x22' then (c, none) :: walkFrom (some c) c depth rest
      else (c, some depth) :: walkFrom none c (depth + depthStep c) rest

/-- Every character of a pattern with its bracket depth, strings marked. -/
def walk (t : Text) : List (Char × Option Int) := walkFrom none ' ' 0 t

/-- The characters outside strings with their offsets and depths. -/
def positions (t : Text) : List (Nat × Char × Int) :=
  (walk t).zipIdx.filterMap fun ((c, depth), offset) => depth.map fun d => (offset, c, d)

/-- The elements between the commas outside brackets and strings, trimmed. -/
def elements (t : Text) : List Text :=
  Text.trimItems (Text.cutMarked ((walk t).map fun (c, depth) => (c, c == ',' && depth == some 0)))

/-- Where the target of an object element starts: past the first colon outside brackets and
strings, unless an equals sign there comes first, since the colon is then part of the default. -/
def colonFrom (offset : Nat) : List (Char × Option Int) → Option Nat
  | [] => none
  | (c, depth) :: rest =>
    if depth = some 0 then
      if c = '=' then none else if c = ':' then some offset else colonFrom (offset + 1) rest
    else colonFrom (offset + 1) rest

/-- The offset of the colon between key and target. -/
def colon? (element : Text) : Option Nat := colonFrom 0 (walk element)

/-- How many characters the region takes that closes `depth` open delimiters. -/
def closeLength (opener closer : Char) (depth : Int) (length : Nat) :
    List (Char × Option Int) → Option Nat
  | [] => none
  | (c, inCode) :: rest =>
    if inCode.isNone then closeLength opener closer depth (length + 1) rest
    else if c = opener then closeLength opener closer (depth + 1) (length + 1) rest
    else if c = closer then
      if depth - 1 = 0 then some (length + 1)
      else closeLength opener closer (depth - 1) (length + 1) rest
    else closeLength opener closer depth (length + 1) rest

/-- The leading balanced pattern of a trimmed text; what follows it, such as a default, is dropped.
Text that never balances is given whole, and blank text has no leading pattern. -/
def leading? (t : Text) : Option Text :=
  let body := Text.trim t
  body.head?.map fun opener =>
    match closeLength opener (if opener = '{' then '}' else ']') 0 0 (walk body) with
    | some length => body.take length
    | none => body

/-- The name of a target without its default. -/
def nameOf (target : Text) : Text := Text.trim (target.takeWhile (· != '='))

/-- The name of a plain target, when it is one. -/
def plainName (target : Text) : List Text :=
  if Text.isIdentifier (nameOf target) then [nameOf target] else []

/-- The text is a pattern within braces. -/
def isObject (t : Text) : Bool := t.head? == some '{' && t.getLast? == some '}'

/-- The text is a pattern within brackets. -/
def isArray (t : Text) : Bool := t.head? == some '[' && t.getLast? == some ']'

/-- What an element binds to: a name, or the text of a target that may be a nested pattern. -/
inductive Element where
  | name (text : Text)
  | target (text : Text)

/-- Read one element of an object or array pattern. -/
def readElement (inArray : Bool) (element : Text) : Element :=
  match ("..." : Text).isPrefixOf? element with
  | some rest => .name rest
  | none =>
    if inArray then .target element
    else match colon? element with
      | some offset => .target (element.drop (offset + 1))
      | none => .name element

/-- The nested pattern that a target is, if it is one. -/
def nested? (target : Text) : Option Text :=
  let body := Text.trim target
  if body.head? = some '{' ∨ body.head? = some '[' then leading? body else none

/-! ## Lengths

Reading a pattern apart never lengthens it, and its delimiters are lost. -/

theorem length_trim_le (t : Text) : (Text.trim t).length ≤ t.length := by
  unfold Text.trim Text.trimEnd Text.trimStart
  have hstart := (List.dropWhile_sublist Text.isBlank (l := t)).length_le
  refine Nat.le_trans ?_ hstart
  simpa using (List.dropWhile_sublist Text.isBlank (l := (t.dropWhile Text.isBlank).reverse)).length_le

theorem length_walkFrom (quote : Option Char) (before : Char) (depth : Int) (t : Text) :
    (walkFrom quote before depth t).length = t.length := by
  induction t generalizing quote before depth with
  | nil => rfl
  | cons c rest ih =>
    cases quote with
    | some q => simp [walkFrom, ih]
    | none =>
      simp only [walkFrom]
      split <;> simp [ih]

theorem length_le_of_mem_consFirst {c : Char} {pieces : List Text} {piece : Text} {n : Nat}
    (h : ∀ p ∈ pieces, p.length ≤ n) (hmem : piece ∈ Text.consFirst c pieces) :
    piece.length ≤ n + 1 := by
  cases pieces with
  | nil =>
    simp only [Text.consFirst, List.mem_singleton] at hmem
    simp [hmem]
  | cons first rest =>
    simp only [Text.consFirst, List.mem_cons] at hmem
    rcases hmem with rfl | hmem
    · simpa using h first (by simp)
    · exact Nat.le_succ_of_le (h piece (by simp [hmem]))

theorem length_le_of_mem_cutMarked {marked : List (Char × Bool)} {piece : Text}
    (h : piece ∈ Text.cutMarked marked) : piece.length ≤ marked.length := by
  induction marked generalizing piece with
  | nil => simp_all [Text.cutMarked]
  | cons head rest ih =>
    obtain ⟨c, cut⟩ := head
    cases cut with
    | true =>
      simp only [Text.cutMarked, ↓reduceIte, List.mem_cons] at h
      rcases h with rfl | h
      · simp
      · exact Nat.le_succ_of_le (ih h)
    | false =>
      simp only [Text.cutMarked, Bool.false_eq_true, ↓reduceIte] at h
      exact length_le_of_mem_consFirst (fun p hp => ih hp) h

theorem length_le_of_mem_trimItems {pieces : List Text} {item : Text} {n : Nat}
    (h : ∀ p ∈ pieces, p.length ≤ n) (hmem : item ∈ Text.trimItems pieces) : item.length ≤ n := by
  induction pieces with
  | nil => simp [Text.trimItems] at hmem
  | cons first rest ih =>
    have hfirst := Nat.le_trans (length_trim_le first) (h first (by simp))
    cases rest with
    | nil =>
      simp only [Text.trimItems] at hmem
      split at hmem
      · simp at hmem
      · simp only [List.mem_singleton] at hmem
        exact hmem ▸ hfirst
    | cons second rest =>
      simp only [Text.trimItems, List.mem_cons] at hmem
      rcases hmem with rfl | hmem
      · exact hfirst
      · exact ih (fun p hp => h p (by simp [hp])) hmem

theorem length_le_of_mem_elements {t element : Text} (h : element ∈ elements t) :
    element.length ≤ t.length := by
  refine length_le_of_mem_trimItems (fun p hp => ?_) h
  have := length_le_of_mem_cutMarked hp
  simpa [walk, length_walkFrom] using this

theorem length_readElement_target {inArray : Bool} {element target : Text}
    (h : readElement inArray element = .target target) : target.length ≤ element.length := by
  unfold readElement at h
  split at h
  · cases h
  · split at h
    · cases h
      exact Nat.le_refl _
    · split at h
      · cases h
        simp
      · cases h

theorem length_leading {t body : Text} (h : leading? t = some body) : body.length ≤ t.length := by
  simp only [leading?, Option.map_eq_some_iff] at h
  obtain ⟨opener, _, h⟩ := h
  refine Nat.le_trans ?_ (length_trim_le t)
  split at h
  · exact h ▸ List.length_take_le' _ _
  · exact h ▸ Nat.le_refl _

theorem length_nested {target body : Text} (h : nested? target = some body) :
    body.length ≤ target.length := by
  unfold nested? at h
  dsimp only at h
  split at h
  · exact Nat.le_trans (length_leading h) (length_trim_le target)
  · cases h

theorem length_lt_of_nested {body element target inner : Text} {inArray : Bool}
    (hbody : isObject body || isArray body) (hmem : element ∈ elements (body.drop 1).dropLast)
    (hread : readElement inArray element = .target target) (hnested : nested? target = some inner) :
    inner.length < body.length := by
  have hinner := length_nested hnested
  have htarget := length_readElement_target hread
  have helement := length_le_of_mem_elements hmem
  have hnonempty : body ≠ [] := by
    rintro rfl
    simp [isObject, isArray] at hbody
  have hpos := List.length_pos_iff.mpr hnonempty
  simp only [List.length_dropLast, List.length_drop] at helement
  omega

/-! ## Bound names -/

/-- The names that a pattern binds, from left to right. -/
def names (pattern : Text) : List Text :=
  if hbody : isObject (Text.trim pattern) || isArray (Text.trim pattern) then
    (elements ((Text.trim pattern).drop 1).dropLast).attach.flatMap fun ⟨element, hmem⟩ =>
      match hread : readElement (isArray (Text.trim pattern)) element with
      | .name text => plainName text
      | .target target =>
        match hnested : nested? target with
        | some inner =>
          have : inner.length < pattern.length :=
            Nat.lt_of_lt_of_le (length_lt_of_nested hbody hmem hread hnested) (length_trim_le pattern)
          names inner
        | none => plainName (Text.trim target)
  else []
termination_by pattern.length

/-- The names bound by a single target: a nested pattern or a plain name. -/
def targetNames (target : Text) : List Text :=
  match nested? target with
  | some inner => names inner
  | none => plainName (Text.trim target)

/-- The names bound by one element. -/
def elementNames (inArray : Bool) (element : Text) : List Text :=
  match readElement inArray element with
  | .name text => plainName text
  | .target target => targetNames target

/-- A pattern binds what its elements bind, in their order. -/
theorem names_eq (pattern : Text) :
    names pattern =
      if isObject (Text.trim pattern) || isArray (Text.trim pattern) then
        (elements ((Text.trim pattern).drop 1).dropLast).flatMap
          (elementNames (isArray (Text.trim pattern)))
      else [] := by
  rw [names]
  split
  · conv => rhs; rw [← List.attach_map_subtype_val (elements _), List.flatMap_map]
    refine congrArg (List.flatMap · _) ?_
    funext ⟨element, hmem⟩
    simp only [elementNames]
    split
    · next h => rw [h]
    · next h =>
      rw [h]
      simp only [targetNames]
      split
      · next h => rw [h]
      · next h => rw [h]
  · rfl

end SetupScript.Pattern
