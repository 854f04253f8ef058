import SetupScript.Proofs.NestedText

/-!
# Names bound by pattern trees

A destructuring pattern as a tree: object patterns with shorthand names, keyed targets and rest names,
array patterns with holes, targets and rest names, where a target is a name or again a pattern and most
members may have a default. A tree holds its layout, the white space between its tokens, so that its
text is decided. The names that are read off this text are the names in the tree, from left to right.

Defaults and keys are texts of their own. Their commas, colons, equals signs and brackets are never
taken for those of the pattern, because they are nested text that holds no comma outside brackets and
strings.
-/

namespace SetupScript.Pattern

/-! ## Trees -/

/-- White space between two tokens. -/
abbrev Gap := { t : Text // t.all Text.isBlank }

/-- A name. -/
abbrev Name := { t : Text // Text.isIdentifier t }

/-- A default. -/
abbrev Default := { t : Text // isPiece t }

/-- A character of a number. -/
def isNumeralChar (c : Char) : Bool := Text.isNameChar c || c == '.' || c == '+' || c == '-'

/-- A number: it starts with a digit, or with a dot and a digit. -/
def isNumeral (t : Text) : Bool :=
  t.all isNumeralChar &&
    (t.head?.any Char.isDigit || t.head? == some '.' && (t.drop 1).head?.any Char.isDigit)

/-- A closed string, and nothing outside it. -/
def isQuoted (t : Text) : Bool := !t.isEmpty && isNested t && (walk t).all (·.2.isNone)

/-- The key of an object member. -/
inductive Key where
  | name (name : Name)
  | numeral (number : { t : Text // isNumeral t })
  | quoted (string : { t : Text // isQuoted t })
  | computed (inner : { t : Text // isNested t })

/-- The text of a key. -/
def Key.text : Key → Text
  | .name word => word.1
  | .numeral number => number.1
  | .quoted string => string.1
  | .computed inner => '[' :: inner.1 ++ [']']

/-- The text of a default, if there is one, with the white space before its equals sign. -/
def defaultText : Option (Gap × Default) → Text
  | none => []
  | some (gap, default) => gap.1 ++ '=' :: default.1

mutual

/-- What a position binds: a name, or what a pattern in it binds. The last member of a pattern may be
followed by a comma, and then by white space. -/
inductive Target where
  | name (name : Name)
  | pattern (inArray : Bool) (members : Members inArray) (last : Option Gap)

/-- A member of an object pattern or of an array pattern. -/
inductive Member : Bool → Type where
  | shorthand (name : Name) (default : Option (Gap × Default)) : Member false
  | keyed (key : Key) (before after : Gap) (target : Target) (default : Option (Gap × Default)) :
    Member false
  | hole : Member true
  | item (target : Target) (default : Option (Gap × Default)) : Member true
  | rest {inArray : Bool} (gap : Gap) (name : Name) : Member inArray

/-- The members of a pattern with the white space around each. -/
inductive Members : Bool → Type where
  | nil {inArray : Bool} : Members inArray
  | cons {inArray : Bool} (lead : Gap) (first : Member inArray) (trail : Gap)
    (others : Members inArray) : Members inArray

end

/-- The bracket that opens a pattern. -/
def opener (inArray : Bool) : Char := if inArray then '[' else '{'

/-- The text of a pattern around its members. -/
def patternText (inArray : Bool) (texts : List Text) (last : Option Gap) : Text :=
  opener inArray :: Text.joinWith "," (texts ++ last.toList.map (·.1)) ++ [closerOf (opener inArray)]

mutual

/-- The text of a target. -/
def Target.text : Target → Text
  | .name word => word.1
  | .pattern inArray members last => patternText inArray members.texts last

/-- The text of a member. -/
def Member.text {inArray : Bool} : Member inArray → Text
  | .shorthand name default => name.1 ++ defaultText default
  | .keyed key before after target default =>
    key.text ++ before.1 ++ ':' :: (after.1 ++ target.text ++ defaultText default)
  | .hole => []
  | .item target default => target.text ++ defaultText default
  | .rest gap name => "..." ++ gap.1 ++ name.1

/-- The texts of members, each with its white space. -/
def Members.texts {inArray : Bool} : Members inArray → List Text
  | .nil => []
  | .cons lead first trail others => (lead.1 ++ first.text ++ trail.1) :: others.texts

end

mutual

/-- The names that a target binds, from left to right. -/
def Target.bound : Target → List Text
  | .name word => [word.1]
  | .pattern _ members _ => members.bound

/-- The names that a member binds. -/
def Member.bound {inArray : Bool} : Member inArray → List Text
  | .shorthand name _ => [name.1]
  | .keyed _ _ _ target _ => target.bound
  | .hole => []
  | .item target _ => target.bound
  | .rest _ name => [name.1]

/-- The names that members bind. -/
def Members.bound {inArray : Bool} : Members inArray → List Text
  | .nil => []
  | .cons _ first _ others => first.bound ++ others.bound

end

/-! ## Texts of trees -/

/-- White space holds no punctuation. -/
theorem Gap.unmarked (gap : Gap) : Unmarked gap.1 := unmarked_of_class (by decide) gap.2

/-- A name holds no punctuation. -/
theorem Name.unmarked (name : Name) : Unmarked name.1 :=
  unmarked_of_class (by decide) (Text.word_of_isIdentifier name.2).1

/-- A name has no white space at its ends. -/
theorem Name.edged (name : Name) : Text.Edged name.1 := by
  obtain ⟨hword, hne⟩ := Text.word_of_isIdentifier name.2
  exact Text.edged_of_solid hne (Text.all_solid_of_word hword)

/-- A name starts with neither a bracket nor a dot. -/
theorem Name.first (name : Name) : ∃ c rest, name.1 = c :: rest ∧ c ≠ '{' ∧ c ≠ '[' ∧ c ≠ '.' := by
  obtain ⟨t, ht⟩ := name
  cases t with
  | nil => cases ht
  | cons c rest =>
    rw [Text.isIdentifier, Bool.and_eq_true] at ht
    refine ⟨c, rest, rfl, ?_, ?_, ?_⟩ <;>
    · rintro rfl
      exact absurd ht.1 (by decide)

/-- A number holds no punctuation. -/
theorem unmarked_of_isNumeral {t : Text} (h : isNumeral t) : Unmarked t := by
  rw [isNumeral, Bool.and_eq_true] at h
  exact unmarked_of_class (by decide) h.1

/-- A string is a piece. -/
theorem isPiece_of_isQuoted {t : Text} (h : isQuoted t) : IsPiece t := by
  simp only [isQuoted, Bool.and_eq_true] at h
  refine ⟨nested_of_isNestedFrom h.1.2, fun cell hcell hcomma => ?_⟩
  have hstring := List.all_eq_true.mp h.2 cell hcell
  rw [hcomma] at hstring
  cases hstring

/-- A key is a piece. -/
theorem Key.isPiece (key : Key) : IsPiece key.text := by
  cases key with
  | name word => exact word.unmarked.isPiece
  | numeral number => exact (unmarked_of_isNumeral number.2).isPiece
  | quoted string => exact isPiece_of_isQuoted string.2
  | computed inner => exact (nested_of_isNestedFrom inner.2).isPiece (o := '[') rfl

/-- A default is a piece together with its equals sign. -/
theorem isPiece_defaultText (default : Option (Gap × Default)) : IsPiece (defaultText default) := by
  cases default with
  | none => exact Unmarked.isPiece fun c hc => by cases hc
  | some given =>
    obtain ⟨gap, value⟩ := given
    have hequals : IsPiece ['='] := isPiece_of_check rfl
    exact gap.unmarked.isPiece.append (hequals.append (isPiece_of_check value.2))

/-- Both kinds of pattern are opened by a bracket. -/
theorem isOpener_opener (inArray : Bool) : isOpener (opener inArray) := by
  cases inArray <;> rfl

/-- What stands after a last comma is a piece as well. -/
theorem isPiece_of_mem {texts : List Text} (h : ∀ t ∈ texts, IsPiece t) (last : Option Gap) :
    ∀ t ∈ texts ++ last.toList.map (·.1), IsPiece t := by
  intro t ht
  rcases List.mem_append.mp ht with htext | hlast
  · exact h t htext
  · obtain ⟨gap, -, rfl⟩ := List.mem_map.mp hlast
    exact gap.unmarked.isPiece

/-- A pattern of pieces is a piece. -/
theorem isPiece_patternText (inArray : Bool) {texts : List Text} (h : ∀ t ∈ texts, IsPiece t)
    (last : Option Gap) : IsPiece (patternText inArray texts last) :=
  (nested_joinWith fun t ht => (isPiece_of_mem h last t ht).nested).isPiece (isOpener_opener inArray)

mutual

/-- A target is a piece. -/
theorem Target.isPiece : (target : Target) → IsPiece target.text
  | .name word => word.unmarked.isPiece
  | .pattern inArray members last => isPiece_patternText inArray members.isPiece last

/-- A member is a piece. -/
theorem Member.isPiece {inArray : Bool} : (member : Member inArray) → IsPiece member.text
  | .shorthand name default => name.unmarked.isPiece.append (isPiece_defaultText default)
  | .keyed key before after target default => by
    have hcolon : IsPiece [':'] := isPiece_of_check rfl
    have htarget := (after.unmarked.isPiece.append target.isPiece).append (isPiece_defaultText default)
    exact (key.isPiece.append before.unmarked.isPiece).append (hcolon.append htarget)
  | .hole => Unmarked.isPiece fun c hc => by cases hc
  | .item target default => target.isPiece.append (isPiece_defaultText default)
  | .rest gap name => by
    have hdots : IsPiece "...".toList := isPiece_of_check rfl
    exact (hdots.append gap.unmarked.isPiece).append name.unmarked.isPiece

/-- So are members with white space around them. -/
theorem Members.isPiece {inArray : Bool} : (members : Members inArray) → ∀ t ∈ members.texts, IsPiece t
  | .nil => fun t ht => by cases ht
  | .cons lead first trail others => by
    have hfirst := (lead.unmarked.isPiece.append first.isPiece).append trail.unmarked.isPiece
    exact List.forall_mem_cons.mpr ⟨hfirst, others.isPiece⟩

end

/-! ## Names of targets -/

/-- What may follow a target: white space, or a default. -/
def IsTail (tail : Text) : Prop :=
  -- Trimming may cut off the end of a default, so nothing is said of what its equals sign leads to.
  tail.all Text.isBlank ∨ ∃ gap value, gap.all Text.isBlank ∧ tail = gap ++ '=' :: value

/-- A default and white space may follow a target. -/
theorem isTail_defaultText (default : Option (Gap × Default)) (gap : Gap) :
    IsTail (defaultText default ++ gap.1) := by
  cases default with
  | none => exact .inl gap.2
  | some given =>
    obtain ⟨before, value⟩ := given
    exact .inr ⟨before.1, value.1 ++ gap.1, before.2, by simp [defaultText]⟩

/-- What may follow a target still may when it is trimmed. -/
theorem IsTail.trimEnd {tail : Text} (h : IsTail tail) : IsTail (Text.trimEnd tail) := by
  rcases h with hblank | ⟨gap, value, hgap, rfl⟩
  · rw [Text.trimEnd_blanks hblank]
    exact .inl rfl
  · rw [Text.trimEnd_append_cons (by decide)]
    exact .inr ⟨gap, _, hgap, rfl⟩

/-- Up to an equals sign nothing but white space follows a target. -/
theorem IsTail.blanks {tail : Text} (h : IsTail tail) :
    (tail.takeWhile (· != '=')).all Text.isBlank := by
  rcases h with hblank | ⟨gap, value, hgap, rfl⟩
  · exact List.all_eq_true.mpr fun c hc =>
      List.all_eq_true.mp hblank c ((List.takeWhile_sublist _).subset hc)
  · have hfree : ∀ c ∈ gap, (c != '=') = true := by
      intro c hc
      refine bne_iff_ne.mpr ?_
      rintro rfl
      exact Gap.unmarked ⟨gap, hgap⟩ '=' hc (by decide)
    rw [List.takeWhile_append_of_pos hfree, List.takeWhile_cons_of_neg (by decide), List.append_nil]
    exact hgap

/-- A name is found before what follows it. -/
theorem Name.plainName (name : Name) {gap tail : Text} (hgap : gap.all Text.isBlank)
    (htail : IsTail tail) : plainName (gap ++ name.1 ++ tail) = [name.1] := by
  have hfree : ∀ c ∈ gap ++ name.1, (c != '=') = true := by
    intro c hc
    refine bne_iff_ne.mpr ?_
    rintro rfl
    rcases List.mem_append.mp hc with hblank | hname
    · exact Gap.unmarked ⟨gap, hgap⟩ '=' hblank (by decide)
    · exact name.unmarked '=' hname (by decide)
  have hname : nameOf (gap ++ name.1 ++ tail) = name.1 := by
    rw [nameOf, List.takeWhile_append_of_pos hfree, name.edged.trim hgap,
      Text.trimEnd_blanks htail.blanks, List.append_nil]
  rw [Pattern.plainName, hname, if_pos name.2]

/-- A pattern starts and ends with its brackets. -/
theorem edged_patternText (inArray : Bool) (texts : List Text) (last : Option Gap) :
    Text.Edged (patternText inArray texts last) := by
  refine ⟨⟨opener inArray, _, List.cons_append, ?_⟩, ⟨_, closerOf (opener inArray), rfl, ?_⟩⟩
  · cases inArray <;> rfl
  · cases inArray <;> rfl

/-- A pattern is the leading pattern of what starts with it. -/
theorem leading?_patternText (inArray : Bool) {texts : List Text} (h : ∀ t ∈ texts, IsPiece t)
    (last : Option Gap) (tail : Text) :
    leading? (patternText inArray texts last ++ tail) = some (patternText inArray texts last) := by
  have hnested := nested_joinWith fun t ht => (isPiece_of_mem h last t ht).nested
  have hcloser : (if opener inArray = '{' then '}' else ']') = closerOf (opener inArray) := by
    cases inArray <;> rfl
  have htrim : Text.trim (patternText inArray texts last ++ tail) =
      patternText inArray texts last ++ Text.trimEnd tail :=
    (edged_patternText inArray texts last).trim (List.all_nil) tail
  have hclose := hnested.closeLength_enclosed (isOpener_opener inArray) (Text.trimEnd tail)
  have hhead : (patternText inArray texts last ++ Text.trimEnd tail).head? =
      some (opener inArray) := rfl
  rw [leading?, htrim, hhead]
  simp only [Option.map_some, hcloser]
  rw [patternText, hclose]
  simp only [List.take_left]

/-- The names of a pattern are those of its members. -/
theorem names_patternText (inArray : Bool) {texts : List Text} (h : ∀ t ∈ texts, IsPiece t)
    (last : Option Gap) (lead trail : Gap) :
    names (lead.1 ++ patternText inArray texts last ++ trail.1) =
      texts.flatMap fun t => elementNames inArray (Text.trim t) := by
  have htrim : Text.trim (lead.1 ++ patternText inArray texts last ++ trail.1) =
      patternText inArray texts last := by
    rw [(edged_patternText inArray texts last).trim lead.2, Text.trimEnd_blanks trail.2,
      List.append_nil]
  have hhead : (patternText inArray texts last).head? = some (opener inArray) := rfl
  have hlast : (patternText inArray texts last).getLast? = some (closerOf (opener inArray)) :=
    List.getLast?_concat
  have hkind : (isObject (patternText inArray texts last) || isArray (patternText inArray texts last)) ∧
      isArray (patternText inArray texts last) = inArray := by
    rw [isObject, isArray, hhead, hlast]
    cases inArray <;> exact ⟨rfl, rfl⟩
  have hinside : ((patternText inArray texts last).drop 1).dropLast =
      Text.joinWith "," (texts ++ last.toList.map (·.1)) := List.dropLast_concat
  -- A last comma leaves a blank piece, which is dropped or read as nothing.
  have hlastGap :
      (last.toList.map (·.1)).flatMap (fun t => elementNames inArray (Text.trim t)) = [] := by
    cases last with
    | none => rfl
    | some gap =>
      rw [Option.toList_some, List.map_singleton, List.flatMap_singleton, Text.trim_blanks gap.2,
        elementNames_nil]
  rw [names_eq, htrim, if_pos hkind.1, hkind.2, hinside, elements_joinWith (isPiece_of_mem h last),
    flatMap_trimItems (elementNames_nil inArray), List.flatMap_append, hlastGap, List.append_nil]

/-- A name is a target of its own. -/
theorem Name.targetNames (name : Name) {gap tail : Text} (hgap : gap.all Text.isBlank)
    (htail : IsTail tail) : targetNames (gap ++ name.1 ++ tail) = [name.1] := by
  have htrim := name.edged.trim hgap tail
  have hnested : nested? (gap ++ name.1 ++ tail) = none := by
    obtain ⟨c, rest, hname, hbrace, hbracket, -⟩ := name.first
    rw [nested?, htrim, hname]
    exact if_neg (by simp [hbrace, hbracket])
  rw [Pattern.targetNames, hnested]
  dsimp only
  rw [htrim]
  exact name.plainName List.all_nil htail.trimEnd

/-- The names of a pattern as a target are its names. -/
theorem targetNames_patternText (inArray : Bool) {texts : List Text} (h : ∀ t ∈ texts, IsPiece t)
    (last : Option Gap) {gap : Text} (hgap : gap.all Text.isBlank) (tail : Text) :
    targetNames (gap ++ patternText inArray texts last ++ tail) =
      names (patternText inArray texts last) := by
  have htrim := (edged_patternText inArray texts last).trim hgap tail
  have hnested : nested? (gap ++ patternText inArray texts last ++ tail) =
      some (patternText inArray texts last) := by
    rw [nested?, htrim, if_pos, leading?_patternText inArray h last]
    cases inArray
    · exact .inl rfl
    · exact .inr rfl
  rw [Pattern.targetNames, hnested]

/-! ## Names of members -/

/-- The walk over the text meets neither a colon nor an equals sign outside brackets and strings. -/
def NoColon (t : Text) : Prop := ∀ cell ∈ walk t, cell.2 = some 0 → cell.1 ≠ '=' ∧ cell.1 ≠ ':'

/-- Such texts may stand next to each other. -/
theorem NoColon.append {s t : Text} (hs : NoColon s) (hnested : Nested none ' ' [] s) (ht : NoColon t) :
    NoColon (s ++ t) := by
  intro cell hcell
  rw [hnested.walk_append] at hcell
  exact (List.mem_append.mp hcell).elim (hs cell) (ht cell)

/-- The walk over text without punctuation meets neither. -/
theorem Unmarked.noColon {t : Text} (h : Unmarked t) : NoColon t := by
  intro cell hcell hdepth
  rw [walk, h.walkFrom] at hcell
  obtain ⟨c, hc, rfl⟩ := List.mem_map.mp hcell
  have hmark := h c hc
  simp only [marks, List.mem_cons, List.not_mem_nil, or_false, not_or] at hmark
  exact ⟨hmark.2.2.2.2.2.2.2.2.2.2, hmark.2.2.2.2.2.2.2.2.2.1⟩

/-- Nor does the walk over a key. -/
theorem Key.noColon (key : Key) : NoColon key.text := by
  cases key with
  | name word => exact word.unmarked.noColon
  | numeral number => exact (unmarked_of_isNumeral number.2).noColon
  | quoted string =>
    have hstring := string.2
    simp only [isQuoted, Bool.and_eq_true] at hstring
    intro cell hcell hdepth
    have hnone := List.all_eq_true.mp hstring.2 cell hcell
    rw [hdepth] at hnone
    cases hnone
  | computed inner =>
    have hnested : Nested none ' ' [] inner.1 := nested_of_isNestedFrom inner.2
    have hwalk := hnested.walk_enclosed (o := '[') rfl
    intro cell hcell hdepth
    rw [Key.text, show [']'] = [closerOf '['] from rfl, hwalk] at hcell
    rcases List.mem_append.mp hcell with hfront | hlast
    · rcases List.mem_cons.mp hfront with rfl | hinner
      · decide
      · exact absurd hdepth (hnested.ne_zero_of_mem hinner)
    · rw [List.mem_singleton.mp hlast] at hdepth
      cases hdepth

/-- The colon of a member is looked for past text that holds none. -/
theorem NoColon.colon?_append {t : Text} (h : NoColon t) (hnested : Nested none ' ' [] t)
    (more : Text) : colon? (t ++ more) = colonFrom t.length (walk more) := by
  have hskip (cells more : List (Char × Option Int)) (offset : Nat)
      (h : ∀ cell ∈ cells, cell.2 = some 0 → cell.1 ≠ '=' ∧ cell.1 ≠ ':') :
      colonFrom offset (cells ++ more) = colonFrom (offset + cells.length) more := by
    induction cells generalizing offset with
    | nil => rfl
    | cons cell cells ih =>
      obtain ⟨hcell, hcells⟩ := List.forall_mem_cons.mp h
      have hstep : colonFrom offset (cell :: (cells ++ more)) =
          colonFrom (offset + 1) (cells ++ more) := by
        rw [colonFrom]
        split
        · next hdepth => rw [if_neg (hcell hdepth).1, if_neg (hcell hdepth).2]
        · rfl
      rw [List.cons_append, hstep, ih _ hcells, List.length_cons, Nat.add_right_comm, Nat.add_assoc]
  rw [Pattern.colon?, hnested.walk_append, hskip _ _ _ h, walk, length_walkFrom, Nat.zero_add]

/-- A character outside strings comes before the walk over the rest. -/
theorem walk_cons {c : Char} (hcode : ¬ (c = '\x27' ∨ c = '\x22')) (hopener : isOpener c = false)
    (hcloser : isCloser c = false) (t : Text) : walk (c :: t) = (c, some 0) :: walk t := by
  rw [walk, walkFrom_code hcode, walkFrom_none, depthStep, if_neg (by simp [hopener]),
    if_neg (by simp [hcloser])]
  rfl

/-- The colon stands after the key. -/
theorem Key.colon? (key : Key) (gap : Gap) (more : Text) :
    colon? (key.text ++ gap.1 ++ ':' :: more) = some (key.text ++ gap.1).length := by
  have hcolon := key.noColon.append key.isPiece.nested gap.unmarked.noColon
  have hnested := (key.isPiece.append gap.unmarked.isPiece).nested
  rw [hcolon.colon?_append hnested, walk_cons (by decide) rfl rfl, colonFrom, if_pos rfl,
    if_neg (by decide), if_pos rfl]

/-- A shorthand name has no colon, whatever its default holds. -/
theorem Name.colon? (name : Name) {tail : Text} (htail : IsTail tail) :
    colon? (name.1 ++ tail) = none := by
  have hblanks (gap : Gap) (more : Text) :
      Pattern.colon? (name.1 ++ gap.1 ++ more) = colonFrom (name.1 ++ gap.1).length (walk more) := by
    have hcolon := name.unmarked.noColon.append name.unmarked.isPiece.nested gap.unmarked.noColon
    exact hcolon.colon?_append (name.unmarked.isPiece.append gap.unmarked.isPiece).nested more
  rcases htail with hblank | ⟨gap, value, hgap, rfl⟩
  · have hnone := hblanks ⟨tail, hblank⟩ []
    rwa [List.append_nil] at hnone
  · have hequals := hblanks ⟨gap, hgap⟩ ('=' :: value)
    rw [walk_cons (by decide) rfl rfl, colonFrom, if_pos rfl, if_pos rfl, List.append_assoc] at hequals
    exact hequals

/-- Text that starts with another character does not start with dots. -/
theorem isPrefixOf?_dots {c : Char} (hc : c ≠ '.') (t : Text) :
    ("..." : Text).isPrefixOf? (c :: t) = none := by
  have hdot : ('.' == c) = false := beq_eq_false_iff_ne.mpr hc.symm
  simp [List.isPrefixOf?, hdot]

/-- What a text has to start with for a member. -/
def StartsMember (t : Text) : Prop :=
  (∃ c rest, t = c :: rest ∧ Text.isBlank c = false) ∧
    ∀ more, ("..." : Text).isPrefixOf? (t ++ more) = none

/-- It starts so with any character that is neither blank nor a dot. -/
theorem startsMember_cons {c : Char} (hblank : Text.isBlank c = false) (hdot : c ≠ '.') (t : Text) :
    StartsMember (c :: t) :=
  ⟨⟨c, t, rfl, hblank⟩, fun more => isPrefixOf?_dots hdot (t ++ more)⟩

/-- A name starts so. -/
theorem Name.startsMember (name : Name) : StartsMember name.1 := by
  obtain ⟨c, rest, hname, -, -, hdot⟩ := name.first
  obtain ⟨d, rest', hname', hblank⟩ := name.edged.first
  rw [hname] at hname' ⊢
  obtain ⟨rfl, rfl⟩ := List.cons.inj hname'
  exact startsMember_cons hblank hdot rest

/-- A number starts so. -/
theorem startsMember_of_isNumeral {t : Text} (h : isNumeral t) : StartsMember t := by
  rw [isNumeral, Bool.and_eq_true, Bool.or_eq_true, Bool.and_eq_true, beq_iff_eq] at h
  have hdigit (c : Char) (hc : c.isDigit) : c ≠ '.' := by
    rintro rfl
    cases hc
  cases t with
  | nil => simp at h
  | cons c rest =>
    rcases h.2 with hfirst | ⟨hfirst, hsecond⟩
    · exact startsMember_cons (Text.isBlank_of_isDigit hfirst) (hdigit c hfirst) rest
    · obtain rfl : c = '.' := Option.some.inj hfirst
      cases rest with
      | nil => cases hsecond
      | cons d rest =>
        refine ⟨⟨'.', d :: rest, rfl, by decide⟩, fun more => ?_⟩
        have hdot : ('.' == d) = false := beq_eq_false_iff_ne.mpr (hdigit d hsecond).symm
        simp [List.isPrefixOf?, hdot]

/-- A string starts so. -/
theorem startsMember_of_isQuoted {t : Text} (h : isQuoted t) : StartsMember t := by
  simp only [isQuoted, Bool.and_eq_true] at h
  cases t with
  | nil => simp at h
  | cons c rest =>
    have hquote : c = '\x27' ∨ c = '\x22' := by
      by_contra hcode
      rw [walk, walkFrom_code hcode] at h
      simp at h
    rcases hquote with rfl | rfl
    · exact startsMember_cons (by decide) (by decide) rest
    · exact startsMember_cons (by decide) (by decide) rest

/-- A key starts so. -/
theorem Key.startsMember (key : Key) : StartsMember key.text := by
  cases key with
  | name word => exact word.startsMember
  | numeral number => exact startsMember_of_isNumeral number.2
  | quoted string => exact startsMember_of_isQuoted string.2
  | computed inner => exact startsMember_cons (by decide) (by decide) _

/-- A target starts so, and it ends with a character that is not blank. -/
theorem Target.startsMember (target : Target) : StartsMember target.text ∧ Text.Edged target.text := by
  cases target with
  | name word => exact ⟨word.startsMember, word.edged⟩
  | pattern inArray members last =>
    refine ⟨?_, edged_patternText inArray members.texts last⟩
    cases inArray
    · exact startsMember_cons (by decide) (by decide) _
    · exact startsMember_cons (by decide) (by decide) _

/-- A shorthand name is bound. -/
theorem Name.elementNames (name : Name) {tail : Text} (htail : IsTail tail) :
    elementNames false (name.1 ++ tail) = [name.1] := by
  rw [Pattern.elementNames, readElement, name.startsMember.2]
  simp only [Bool.false_eq_true, if_false, name.colon? htail]
  exact name.plainName List.all_nil htail

/-- A rest name is bound. -/
theorem elementNames_rest (inArray : Bool) (gap : Gap) (name : Name) {tail : Text}
    (htail : IsTail tail) : elementNames inArray ("..." ++ gap.1 ++ name.1 ++ tail) = [name.1] := by
  have hdots : ("..." : Text).isPrefixOf? ("..." ++ gap.1 ++ name.1 ++ tail) =
      some (gap.1 ++ name.1 ++ tail) := by
    rw [List.isPrefixOf?_eq_some_iff_append_eq]
    simp only [List.append_assoc]
  rw [Pattern.elementNames, readElement, hdots]
  exact name.plainName gap.2 htail

/-- A member with a key binds what its target binds. -/
theorem Key.elementNames (key : Key) (gap : Gap) (target : Text) :
    elementNames false (key.text ++ gap.1 ++ ':' :: target) = targetNames target := by
  have hdots : ("..." : Text).isPrefixOf? (key.text ++ gap.1 ++ ':' :: target) = none := by
    rw [List.append_assoc]
    exact key.startsMember.2 _
  have hdrop : (key.text ++ gap.1 ++ ':' :: target).drop ((key.text ++ gap.1).length + 1) = target := by
    rw [← List.drop_drop, List.drop_left]
    rfl
  rw [Pattern.elementNames, readElement, hdots]
  simp only [Bool.false_eq_true, if_false, key.colon?, hdrop]

/-- A member of an array binds what its target binds. -/
theorem StartsMember.elementNames {target : Text} (h : StartsMember target) (more : Text) :
    elementNames true (target ++ more) = targetNames (target ++ more) := by
  rw [Pattern.elementNames, readElement, h.2]
  rfl

/-- White space around a member is trimmed away, and what is blank at the end of its default. -/
theorem trim_member {core : Text} (h : Text.Edged core) (default : Option (Gap × Default))
    (lead trail : Gap) : Text.trim (lead.1 ++ (core ++ defaultText default) ++ trail.1) =
      core ++ Text.trimEnd (defaultText default ++ trail.1) := by
  rw [← h.trim lead.2, List.append_assoc, List.append_assoc, List.append_assoc]

mutual

/-- The names of a target are read off its text, whatever default follows it. -/
theorem Target.targetNames_text : (target : Target) → {gap tail : Text} → gap.all Text.isBlank →
    IsTail tail → targetNames (gap ++ target.text ++ tail) = target.bound
  | .name word, _, _, hgap, htail => word.targetNames hgap htail
  | .pattern inArray members last, _, tail, hgap, _ => by
    have hnames := names_patternText inArray members.isPiece last ⟨[], List.all_nil⟩ ⟨[], List.all_nil⟩
    rw [List.nil_append, List.append_nil, members.elementNames_texts] at hnames
    rw [Target.text, targetNames_patternText inArray members.isPiece last hgap]
    exact hnames

/-- The names of a member are read off its text. -/
theorem Member.elementNames_text {inArray : Bool} : (member : Member inArray) → (lead trail : Gap) →
    elementNames inArray (Text.trim (lead.1 ++ member.text ++ trail.1)) = member.bound
  | .shorthand name default, lead, trail => by
    rw [Member.text, trim_member name.edged]
    exact name.elementNames (isTail_defaultText default trail).trimEnd
  | .keyed key before after target default, lead, trail => by
    have hedged := target.startsMember.2.append key.startsMember.1 (before.1 ++ ':' :: after.1)
    have htext : (Member.keyed key before after target default).text =
        key.text ++ (before.1 ++ ':' :: after.1) ++ target.text ++ defaultText default := by
      simp [Member.text]
    rw [htext, trim_member hedged]
    -- The same text again, cut at its colon this time and not at the target.
    have hsplit (tail : Text) : key.text ++ (before.1 ++ ':' :: after.1) ++ target.text ++ tail =
        key.text ++ before.1 ++ ':' :: (after.1 ++ target.text ++ tail) := by simp
    rw [hsplit, key.elementNames]
    exact target.targetNames_text after.2 (isTail_defaultText default trail).trimEnd
  | .hole, lead, trail => by
    have hblank : (lead.1 ++ [] ++ trail.1).all Text.isBlank := by simp [lead.2, trail.2]
    rw [Member.text, Text.trim_blanks hblank]
    rfl
  | .item target default, lead, trail => by
    rw [Member.text, trim_member target.startsMember.2, target.startsMember.1.elementNames]
    exact target.targetNames_text List.all_nil (isTail_defaultText default trail).trimEnd
  | .rest gap name, lead, trail => by
    have hedged : Text.Edged ("..." ++ gap.1 ++ name.1) :=
      name.edged.append ⟨'.', ['.', '.'], rfl, by decide⟩ gap.1
    rw [Member.text, hedged.trim lead.2]
    exact elementNames_rest inArray gap name (IsTail.trimEnd (.inl trail.2))

/-- The names of members are read off their texts. -/
theorem Members.elementNames_texts {inArray : Bool} : (members : Members inArray) →
    members.texts.flatMap (fun t => elementNames inArray (Text.trim t)) = members.bound
  | .nil => rfl
  | .cons lead first trail others => by
    rw [Members.texts, List.flatMap_cons, first.elementNames_text, others.elementNames_texts,
      Members.bound]

end

/-- The names that are read off the text of a pattern tree, with any layout and with white space
around it, are the names in the tree, from left to right. -/
theorem names_of_pattern_tree (inArray : Bool) (members : Members inArray) (last : Option Gap)
    (lead trail : Gap) :
    names (lead.1 ++ (Target.pattern inArray members last).text ++ trail.1) =
      (Target.pattern inArray members last).bound := by
  rw [Target.text, names_patternText inArray members.isPiece, members.elementNames_texts, Target.bound]

example :
    let items : Members true := .cons ⟨[], rfl⟩ (.item (.name ⟨"x", rfl⟩) none) ⟨[], rfl⟩
      (.cons ⟨" ", rfl⟩ .hole ⟨[], rfl⟩ (.cons ⟨[], rfl⟩ (.rest ⟨" ", rfl⟩ ⟨"xs", rfl⟩) ⟨[], rfl⟩ .nil))
    let fields : Members false :=
      .cons ⟨" ", rfl⟩ (.shorthand ⟨"a", rfl⟩ (some (⟨" ", rfl⟩, ⟨" f(1, 'b:')", rfl⟩))) ⟨[], rfl⟩
        (.cons ⟨" ", rfl⟩ (.keyed (.quoted ⟨"'b, c'", rfl⟩) ⟨[], rfl⟩ ⟨" ", rfl⟩
          (.pattern true items none) none) ⟨[], rfl⟩ .nil)
    let tree : Target := .pattern false fields (some ⟨" ", rfl⟩)
    tree.text = "\x7b a = f(1, 'b:'), 'b, c': [x, ,... xs], \x7d".toList ∧
      tree.bound = ["a".toList, "x".toList, "xs".toList] := by
  decide

end SetupScript.Pattern
