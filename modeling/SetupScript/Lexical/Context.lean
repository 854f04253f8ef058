import SetupScript.Text.Basic

/-!
# Lexical contexts

Between two characters the scanner is in one context: plain code, a quoted string, a template
literal or one of the two kinds of comment. A step reads one character, or two where the second
cannot be read on its own: a comment opener, the closer of a block comment, and an escape.

Interpolations inside a template literal are not followed, and a slash that opens no comment is
plain code, so regular expression literals have no context of their own.
-/

namespace SetupScript

/-- What a character belongs to. Delimiters belong to the literal or comment that they delimit. -/
inductive Mode where
  | code
  | string
  | template
  | lineComment
  | blockComment
  deriving DecidableEq

/-- The mode is one of the two kinds of comment. -/
def Mode.isComment : Mode → Bool
  | .lineComment | .blockComment => true
  | _ => false

/-- What the scanner is inside of between two characters. -/
inductive Context where
  | code
  | quoted (quote : Char)
  | template
  | lineComment
  | blockComment
  deriving DecidableEq

namespace Context

/-- The mode of the characters read inside a context. -/
def mode : Context → Mode
  | code => .code
  | quoted _ => .string
  | template => .template
  | lineComment => .lineComment
  | blockComment => .blockComment

/-- Read the character `c`, followed by `next`: the context after it, and how many characters were
read. -/
def step (context : Context) (c : Char) (next : Option Char) : Context × Nat :=
  match context with
  | lineComment => if c = '\n' then (code, 1) else (lineComment, 1)
  | blockComment => if c = '*' ∧ next = some '/' then (code, 2) else (blockComment, 1)
  | quoted quote =>
    if c = '\\' then (quoted quote, 2) else if c = quote then (code, 1) else (quoted quote, 1)
  | template =>
    if c = '\\' then (template, 2) else if c = '\x60' then (code, 1) else (template, 1)
  | code =>
    if c = '/' ∧ next = some '/' then (lineComment, 2)
    else if c = '/' ∧ next = some '*' then (blockComment, 2)
    else if c = '\x60' then (template, 1)
    else if c = '\x27' ∨ c = '\x22' then (quoted c, 1)
    else (code, 1)

end Context

/-- A scanner state kept as separate flags, from which a scan can be taken up again. In a state the
scanner itself reaches at most one flag is set. -/
structure ScanFlags where
  inString : Bool := false
  delimiter : Option Text := none
  inTemplate : Bool := false
  inBlockComment : Bool := false
  inLineComment : Bool := false

namespace ScanFlags

/-- The flags of a context. -/
def ofContext : Context → ScanFlags
  | .code => {}
  | .quoted quote => { inString := true, delimiter := some [quote] }
  | .template => { inTemplate := true }
  | .lineComment => { inLineComment := true }
  | .blockComment => { inBlockComment := true }

/-- The mode of a state: a literal counts before a comment. -/
def mode (flags : ScanFlags) : Mode :=
  if flags.inString then .string
  else if flags.inTemplate then .template
  else if flags.inBlockComment then .blockComment
  else if flags.inLineComment then .lineComment
  else .code

/-- The context whose rules the next step follows: a comment counts before a literal. A string
without a one-character delimiter has none, since no character closes it. -/
def context? (flags : ScanFlags) : Option Context :=
  if flags.inLineComment then some .lineComment
  else if flags.inBlockComment then some .blockComment
  else if flags.inString then
    match flags.delimiter with
    | some [quote] => some (.quoted quote)
    | _ => none
  else if flags.inTemplate then some .template
  else some .code

/-- One step on flags. A step that leaves the context as it was leaves every flag as it was. -/
def step (flags : ScanFlags) (c : Char) (next : Option Char) : ScanFlags × Nat :=
  match flags.context? with
  | some context =>
    let (after, width) := context.step c next
    (if after = context then flags else ofContext after, width)
  | none => (flags, if c = '\\' then 2 else 1)

/-- One step at an offset of a text, provided that there is a character. A negative offset counts
from the end, and its next character is looked up one offset on. -/
def stepAt (t : Text) (position : Int) (flags : ScanFlags) : Except OffsetFault (ScanFlags × Nat) :=
  (Text.charAt t position).map fun c =>
    flags.step c (if position + 1 < t.length then Text.at? t (position + 1) else none)

end ScanFlags

end SetupScript
