import SetupScript.Highlight.Lexeme
import SetupScript.Highlight.Mark

/-!
# A lexer of scripts

One lexer for previews. The text inside an interpolation of a template literal is code again; its first
closing brace ends it. A slash that opens no comment either divides or opens a regular expression, by
what stands before it. Only previews are made with this lexer.
-/

namespace SetupScript.Highlight

/-- What the text between two lexemes belongs to. -/
inductive Place where
  /-- Code in which a slash divides. -/
  | afterOperand
  /-- Code in which a slash opens a regular expression. -/
  | beforeOperand
  /-- The text of a template literal. -/
  | template
  /-- The rest of a line on which a slash opened a regular expression that does not end. -/
  | spoiled
  deriving DecidableEq

/-- The place is code. -/
def Place.isCode : Place → Bool
  | .afterOperand | .beforeOperand => true
  | _ => false

/-- A place, and how many interpolations stand around it. -/
structure State where
  place : Place
  nesting : Nat

/-- The text starts with a blank or slash, or opens a markup comment: at the start of a line, an
operand may follow. -/
def opensLine (t : Text) : Bool :=
  t.head?.any (fun c => c == '/' || Text.isBlank c) || ("<!--" : Text).isPrefixOf t

/-- A quoted string or a private name, by its first character. -/
def delimitedWidth? (c : Char) (rest : Text) : Option Nat :=
  if c = '\x22' ∨ c = '\x27' then (quotedWidth? c rest).map (· + 1)
  else if c = '#' then (privateWidth? rest).map (· + 1)
  else none

/-- The lexeme of code at the front of a text after the character `before`, other than blanks and
comments: its width, and the place after it. A character that starts no lexeme stands for itself. -/
def tokenHere (place : Place) (before : Option Char) (t : Text) : Nat × Place :=
  match t with
  | '/' :: rest =>
    if place = .beforeOperand then
      match regexWidth? rest with
      | some width => (width + 1, .afterOperand)
      | none => (1, .spoiled)
    else ((operatorWidth? t).getD 1, .beforeOperand)
  | '\x60' :: _ => (1, .template)
  | c :: rest =>
    let found : Option (Nat × Place) :=
      (widthOf? number t).map (·, .afterOperand) <|>
      (punctuationWidth? t).map (·, .afterOperand) <|>
      (operatorWidth? t).map (·, .beforeOperand) <|>
      (wordWidth? operandWords t).map (·, .beforeOperand) <|>
      (if before.any Text.isWordChar then none
        else (wordWidth? separateWords t).map (·, .afterOperand)) <|>
      (wordWidth? standingWords t).map (·, .afterOperand) <|>
      (methodWidth? t).map (·, .beforeOperand) <|>
      (identifierWidth? t).map (·, .afterOperand) <|>
      (delimitedWidth? c rest).map (·, .afterOperand)
    found.getD (1, .afterOperand)
  | [] => (1, place)

/-- The lexeme at the front of a text after the character `before`, unless it is a marked word: its
width, and the state after it. -/
def State.step (state : State) (before : Option Char) (t : Text) : Nat × State :=
  match state.place with
  | .spoiled =>
    (1, if t.head? = some '\n' then { state with place := .afterOperand } else state)
  | .template =>
    match t with
    | '\x60' :: _ => (1, { state with place := .afterOperand })
    | '\\' :: _ => (2, state)
    | '$' :: '\x7b' :: _ => (2, { place := .afterOperand, nesting := state.nesting + 1 })
    | _ => (1, state)
  | code =>
    if state.nesting ≠ 0 ∧ t.head? = some '\x7d' then
      (1, { place := .template, nesting := state.nesting - 1 })
    else
      match (if before.isNone then interpreterWidth? t else none) with
      | some width => (width, state)
      | none =>
        let place := if before.all (· == '\n') && opensLine t then .beforeOperand else code
        match gapWidth? t with
        | some width => (width, { state with place })
        | none =>
          let (width, after) := tokenHere place before t
          (width, { state with place := after })

/-- The lexer of scripts. -/
def scriptLexer : Lexer where
  State := State
  start := ⟨.afterOperand, 0⟩
  admitsWord state := state.place.isCode
  afterWord state := { state with place := .afterOperand }
  step := State.step

end SetupScript.Highlight
