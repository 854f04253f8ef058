import SetupScript.Lexical.Region
import SetupScript.MacroKind

/-!
# Calls of macros

Where a macro is called: its name as a word of its own, in code, with an opening parenthesis or an
opening angle bracket after it. The extent of a call runs from its name to the parenthesis that
closes its arguments; a call may have type arguments between the two.
-/

namespace SetupScript

/-- The cells after `name`, when they spell it from the first one on. -/
def spelled? : Text → List Cell → Option (List Cell)
  | [], cells => some cells
  | _ :: _, [] => none
  | c :: name, cell :: rest => if cell.char = c then spelled? name rest else none

/-- What follows a name starts an argument list, possibly after white space. -/
def startsArguments (cells : List Cell) : Bool :=
  (cells.dropWhile fun cell => Text.isBlank cell.char).head?.any fun cell =>
    cell.char == '(' || cell.char == '<'

/-- The cells spell `name` from the first one on, in code as far as the first character goes, not
inside a longer name, and what follows starts an argument list. -/
def callHere (name : Text) (before : Option Char) : List Cell → Bool
  | [] => false
  | cell :: rest =>
    cell.isCode &&
      match spelled? name (cell :: rest) with
      | none => false
      | some after =>
        !before.any Text.isNameChar && !after.head?.any (Text.isNameChar ·.char) &&
          startsArguments after

/-- The offsets at which `name` is called, in cells that start at offset `pos`. -/
def callOffsetsFrom (name : Text) (before : Option Char) (pos : Nat) : List Cell → List Nat
  | [] => []
  | cell :: rest =>
    let later := callOffsetsFrom name (some cell.char) (pos + 1) rest
    if callHere name before (cell :: rest) then pos :: later else later

namespace Scan

/-- Every offset at which `name` is called, in increasing order. -/
def callOffsets (scan : Scan) (name : Text) : List Nat := callOffsetsFrom name none 0 scan.cells

/-- The first call of `name` at or after an offset. -/
def findCall? (scan : Scan) (name : Text) (offset : Int) : Option Nat :=
  (scan.callOffsets name).find? (offset ≤ ·)

end Scan

/-- One call of a macro: the offset of its name, the offset of the closing parenthesis, the text
between the parentheses, and that between the angle brackets if there are any. -/
structure MacroCall where
  kind : MacroKind
  start : Int
  stop : Nat
  arguments : Text
  typeArguments : Option Text

/-- Why there is no well-formed call at an offset. -/
inductive CallFault where
  | unterminatedTypes (kind : MacroKind)
  | unbalancedArguments (kind : MacroKind)

/-- The wording of a fault. -/
def CallFault.message : CallFault → Text
  | unterminatedTypes kind => "Unterminated type arguments for " ++ kind.name
  | unbalancedArguments kind => "Unbalanced arguments for " ++ kind.name

namespace Text

/-- The first offset from `pos` on that holds no blank. A negative offset counts from the end and
goes on at the beginning; there must be a character under it. -/
def pastBlanks (t : Text) (pos : Int) : Except OffsetFault Int :=
  if 0 ≤ pos then .ok (pos + ((t.drop pos.toNat).takeWhile isBlank).length)
  else (charAt t pos).map fun _ =>
    let tail := t.drop (pos + t.length).toNat
    let run := (tail.takeWhile isBlank).length
    if run < tail.length then pos + run else (t.takeWhile isBlank).length

end Text

namespace Scan

/-- The end of type arguments after `offset`: the first code `>` with an opening parenthesis after
it. Gives its offset and that of the parenthesis. -/
def typesEnd? (scan : Scan) (offset : Nat) : Option (Nat × Nat) :=
  let ends := Text.findAll Text.anywhere
    (do Reader.literal ">"; Reader.blanks; Reader.literal "(") (scan.text.drop offset)
  (ends.find? fun found => scan.isCode (offset + found.start)).map fun found =>
    (offset + found.start, offset + found.stop - 1)

/-- The arguments of a call in the parentheses that open at `position`. -/
def callArguments (scan : Scan) (kind : MacroKind) (position : Int) : Except CallFault Span :=
  match scan.balanced? position "(" ")" with
  | some span =>
    if span.start = position then .ok span else .error (.unbalancedArguments kind)
  | none => .error (.unbalancedArguments kind)

/-- The call of a macro whose name starts at `index` and whose argument list is expected at
`position`. Type arguments end at the first code `>` that an opening parenthesis follows, so arrows
and nested angle brackets inside them are passed over. -/
def callFrom (scan : Scan) (index : Int) (kind : MacroKind) (position : Int) :
    Except CallFault MacroCall :=
  if scan.text.at? position = some '<' then
    match scan.typesEnd? (position + 1).toNat with
    | none => .error (.unterminatedTypes kind)
    | some (angle, paren) =>
      (scan.callArguments kind paren).map fun span =>
        ⟨kind, index, span.stop, span.inner, some (Text.trim (scan.text.slice (position + 1) angle))⟩
  else
    (scan.callArguments kind position).map fun span => ⟨kind, index, span.stop, span.inner, none⟩

/-- The call of a macro whose name stands at `index`. -/
def callAt (scan : Scan) (index : Nat) (kind : MacroKind) : Except CallFault MacroCall :=
  let past := index + kind.name.length
  scan.callFrom index kind (past + ((scan.text.drop past).takeWhile Text.isBlank).length : Nat)

/-- As `callAt` for any index that a caller gives; a negative one counts from the end. -/
def callAtOffset (scan : Scan) (index : Int) (kind : MacroKind) :
    Except OffsetFault (Except CallFault MacroCall) :=
  (scan.text.pastBlanks (index + kind.name.length)).map (scan.callFrom index kind)

end Scan

/-- What a declaring call defines: its trimmed arguments, or `blank` when there are none. -/
def MacroCall.definition (call : MacroCall) (blank : Text) : Text :=
  if (Text.trim call.arguments).isEmpty then blank else Text.trim call.arguments

/-- The props definition carried by an argument: that of its first `defineProps` call. -/
def propsDefinition? (argument : Text) : Option Text :=
  let scan := Scan.ofText argument
  (scan.findCall? MacroKind.defineProps.name 0).bind fun index =>
    match scan.callAt index .defineProps with
    | .ok call => some (call.definition "\x7b\x7d")
    | .error _ => none

end SetupScript
