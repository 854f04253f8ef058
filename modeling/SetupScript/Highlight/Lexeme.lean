import SetupScript.Text.Identifier
import SetupScript.Text.Reader

/-!
# Lexemes of a previewed script

How far the comments, literals, names and operators reach that a script is divided into where it is
previewed. Each function looks at the front of a text and answers with the width of the lexeme
there, or with `none` where there is no such lexeme. A literal or block comment that is not closed
is no lexeme at all; its first character then stands for itself.

The division only serves to tell where a word stands on its own, so kinds of lexemes that are
treated alike are not told apart.
-/

namespace SetupScript.Highlight

/-- The width of what a reader takes off the front of a text. -/
def widthOf? (reader : Reader Text) (t : Text) : Option Nat :=
  (reader t).map fun (taken, _) => taken.length

/-! ## Blanks and comments -/

/-- The width up to and including the next closer of a block comment. -/
def blockWidth? : Text → Option Nat
  | [] => none
  | '*' :: '/' :: _ => some 2
  | _ :: rest => (blockWidth? rest).map (· + 1)

/-- The width of a line up to its line feed. -/
def lineWidth (t : Text) : Nat := (t.takeWhile (· != '\n')).length

/-- A run of blanks, an opener of a markup comment, a line comment or a block comment. -/
def gapWidth? : Text → Option Nat
  | '<' :: '!' :: '-' :: '-' :: _ => some 4
  | '/' :: '/' :: rest => some (2 + lineWidth rest)
  | '/' :: '*' :: rest => (blockWidth? rest).map (2 + ·)
  | t => widthOf? (Reader.many1 Text.isBlank) t

/-- The first line of an executable script, which names its interpreter. -/
def interpreterWidth? (t : Text) : Option Nat :=
  if (["#!/", "#! /"] : List Text).any (·.isPrefixOf t) then some (lineWidth t) else none

/-! ## Literals -/

/-- The width of a quoted string after its opening quote. A backslash takes the character after it
along, and line breaks are ordinary characters. -/
def quotedWidth? (quote : Char) : Text → Option Nat
  | [] => none
  | '\\' :: _ :: rest => (quotedWidth? quote rest).map (· + 2)
  | c :: rest =>
    if c = quote then some 1
    else if c = '\\' then none
    else (quotedWidth? quote rest).map (· + 1)

/-- The width of a pattern after its opening slash, up to and including the closing one. A slash
between brackets does not close it, and a line feed may only stand after a backslash. -/
def patternWidth? (bracketed : Bool) : Text → Option Nat
  | [] => none
  | '\\' :: _ :: rest => (patternWidth? bracketed rest).map (· + 2)
  | c :: rest =>
    if c = '\\' ∨ c = '\n' then none
    else if bracketed then (patternWidth? (c != ']') rest).map (· + 1)
    else if c = '/' then some 1
    else (patternWidth? (c == '[') rest).map (· + 1)

/-- The letters that may follow the closing slash of a regular expression. -/
def isPatternFlag (c : Char) : Bool := "gimuysd".toList.contains c

/-- A regular expression after its opening slash. The word after its closing slash, if there is one,
consists of flags. -/
def regexWidth? (t : Text) : Option Nat := do
  let width ← patternWidth? false t
  let flags := (t.drop width).takeWhile Text.isWordChar
  if flags.all isPatternFlag then some (width + flags.length) else none

/-- What several readers take, one after the other. -/
def joined (parts : List (Reader Text)) : Reader Text := do
  return (← parts.mapM id).flatten

/-- What a reader takes, or nothing. -/
def perhaps (reader : Reader Text) : Reader Text := reader <|> pure []

/-- A hexadecimal digit. -/
def isHexDigit (c : Char) : Bool := c.isDigit || "abcdefABCDEF".toList.contains c

/-- A whole number in another base: a mark, digits, and perhaps a suffix for a large one. -/
def basedNumber (marks : List Text) (digit : Char → Bool) : Reader Text :=
  joined [.oneOf marks, .many1 digit, perhaps (.oneOf ["n"])]

/-- A decimal number with its fraction and exponent. -/
def decimalNumber : Reader Text :=
  joined [
    joined [.oneOf ["."], .many1 Char.isDigit] <|>
      joined [.many1 Char.isDigit, perhaps (joined [.oneOf ["."], .many Char.isDigit])],
    perhaps (joined [.oneOf ["e", "E"], perhaps (.oneOf ["-", "+"]), .many1 Char.isDigit])]

/-- A number, in the first of its forms that fits. -/
def number : Reader Text :=
  basedNumber ["0b", "0B"] (fun c => c == '0' || c == '1') <|>
  basedNumber ["0o", "0O", "0"] (fun c => '0' ≤ c && c ≤ '7') <|>
  basedNumber ["0x", "0X"] isHexDigit <|>
  joined [.many1 Char.isDigit, .oneOf ["n"]] <|>
  decimalNumber

/-! ## Operators -/

/-- The operators, each before those that it starts with. -/
def operators : List Text :=
  List.map String.toList [
    "++", "--", "~", "??=", "??", "?", ":", "<<=", "<<", ">>>=", ">>>", ">>=", ">>", "===", "==",
    "=", "!==", "!=", "!", "**=", "**", "||=", "||", "&&=", "&&", "-=", "-", "<=", "<", ">=",
    ">", "+=", "+", "*=", "*", "%=", "%", "&=", "&", "|=", "|", "^=", "^", "/=", "/"]

/-- An operator, an opening bracket or a separator; a backslash before a line feed counts too. An
operand follows. -/
def operatorWidth? : Text → Option Nat
  | '\\' :: '\n' :: _ => some 1
  | t => widthOf? (.oneOf operators <|> .oneOf ["\x7b", "(", "[", ";", ","]) t

/-- Punctuation after which a slash divides. -/
def punctuationWidth? (t : Text) : Option Nat :=
  widthOf? (.oneOf ["...", "=>", "\x7d", ")", "]", "."]) t

/-! ## Names -/

/-- The words that an operand follows. -/
def operandWords : List Text :=
  List.map String.toList [
    "typeof", "instanceof", "in", "void", "delete", "new",
    "for", "while", "do", "break", "return", "continue", "switch", "case", "default", "if",
    "else", "throw", "try", "catch", "finally", "yield", "await", "async", "this", "of",
    "static", "export", "import", "debugger", "extends", "super",
    "var", "let", "const", "with", "function", "class"]

/-- The words that stand for themselves, unless they go on from the character before them. -/
def separateWords : List Text := ["constructor", "from", "as"]

/-- The words that stand for themselves: reserved words, constants, and what a function and its
environment provide. Such a word is no part of a longer path. -/
def standingWords : List Text :=
  List.map String.toList [
    "abstract", "boolean", "byte", "char", "double", "enum", "final", "float", "goto",
    "implements", "int", "interface", "long", "native", "package", "private", "protected",
    "public", "short", "synchronized", "throws", "transient", "volatile",
    "true", "false", "null", "NaN", "Infinity", "undefined",
    "arguments",
    "Array", "Boolean", "Date", "BigInt", "Function", "Math", "ArrayBuffer", "Number", "Object",
    "RegExp", "String", "Promise", "Proxy", "decodeURI", "decodeURIComponent", "encodeURI",
    "encodeURIComponent", "eval", "isFinite", "isNaN", "parseFloat", "parseInt", "DataView",
    "document", "window", "globalThis", "global", "Symbol", "Intl", "WeakSet", "WeakMap", "Set",
    "Map", "Reflect", "JSON", "Atomics", "Int8Array", "Int16Array", "Int32Array",
    "BigInt64Array", "Float32Array", "Float64Array", "Uint8ClampedArray", "Uint8Array",
    "Uint16Array", "Uint32Array", "BigUint64Array",
    "Error", "EvalError", "InternalError", "RangeError", "ReferenceError", "SyntaxError",
    "TypeError", "URIError"]

/-- One of the listed words, whole: the longest run of word characters is the word. -/
def wordWidth? (listed : List Text) (t : Text) : Option Nat :=
  let word := t.takeWhile Text.isWordChar
  if listed.contains word then some word.length else none

/-- The name or member path of a method that takes no arguments, in front of its empty argument list
and its body. -/
def methodWidth? (t : Text) : Option Nat :=
  let path := t.takeWhile fun c => c == '?' || c == '.' || Text.isNameChar c
  if path.head?.any Text.isNameStart && ("() \x7b" : Text).isPrefixOf (t.drop path.length) then
    some path.length
  else none

/-- The width of the part of an identifier after its start. A character may be given by its four
hexadecimal digits. -/
def identifierRest : Text → Nat
  | [] => 0
  | '\\' :: 'u' :: a :: b :: c :: d :: rest =>
    if [a, b, c, d].all isHexDigit then identifierRest rest + 6 else 0
  | c :: rest => if Text.continuesIdentifier c then identifierRest rest + 1 else 0

/-- An identifier. -/
def identifierWidth? : Text → Option Nat
  | [] => none
  | c :: rest =>
    if c = '\\' then
      match identifierRest (c :: rest) with
      | 0 => none
      | width => some width
    else if Text.startsIdentifier c then some (identifierRest rest + 1)
    else none

/-- A private name after its number sign. -/
def privateWidth? (t : Text) : Option Nat :=
  if t.head?.any fun c => c == '_' || c.isAlpha then some (t.takeWhile Text.isWordChar).length
  else none

end SetupScript.Highlight
