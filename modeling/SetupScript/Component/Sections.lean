import SetupScript.Import
import SetupScript.Journal

/-!
# Sections of a component file

A component file holds a template, a script and styles, each in a tag of its own. The template runs
from the first opening tag to the last closing one, so markup inside it may hold template tags of
its own; script and styles are looked for outside it. Tag names are read without regard to case.
-/

namespace SetupScript

/-- The script of a component file. -/
structure ScriptBlock where
  content : Text
  isSetup : Bool := false
  lang : Option Text := none

/-- One style of a component file. -/
structure StyleBlock where
  content : Text
  isScoped : Bool := false

/-- The sections of a component file. -/
structure Sections where
  template : Option Text := none
  script : Option ScriptBlock := none
  styles : List StyleBlock := []

/-- The characters beyond ASCII that case folding identifies with a lower-case ASCII letter. -/
def foldedWith (letter : Char) : List Char :=
  match letter with
  | 'i' => ['\u0130', '\u0131']
  | 'k' => ['\u212a']
  | 's' => ['\u017f']
  | _ => []

/-- The character is the lower-case letter, or differs from it in case only. -/
def sameLetter (letter c : Char) : Bool := c.toLower == letter || (foldedWith letter).contains c

namespace Reader

/-- Read a word without regard to case; `word` is given in lower case. -/
def folded : Text → Reader Unit
  | [], t => some ((), t)
  | _ :: _, [] => none
  | letter :: word, c :: rest => if sameLetter letter c then folded word rest else none

/-- Read an opening tag: its attribute text, which starts with a blank, if there is any. -/
def openTag (name : Text) : Reader (Option Text) := do
  literal "<"
  folded name
  fun t =>
    match t with
    | [] => none
    | c :: rest =>
      if c = '>' then some (none, rest)
      else if Text.isBlank c then
        match rest.dropWhile (· != '>') with
        | [] => none
        | _ :: left => some (some (c :: rest.takeWhile (· != '>')), left)
      else none

/-- Read a closing tag. -/
def closeTag (name : Text) : Reader Unit := do
  literal "</"
  folded name
  blanks
  literal ">"

/-- Read up to the first place where `last` can be read, and that too. -/
def upTo (last : Reader Unit) : Text → Option (Text × Text)
  | [] => (last []).map fun (_, left) => ([], left)
  | c :: rest =>
    match last (c :: rest) with
    | some (_, left) => some ([], left)
    | none => (upTo last rest).map fun (body, left) => (c :: body, left)

/-- Read a whole section: its attributes and its content up to the first closing tag. -/
def block (name : Text) : Reader (Option Text × Text) := do
  let attributes ← openTag name
  let content ← upTo (closeTag name)
  return (attributes, content)

/-- Read a `lang` attribute and give its value. -/
def langAttribute : Reader Text := do
  literal "lang"
  blanks
  literal "="
  blanks
  fun t => (many1 fun c => c == '-' || Text.isWordChar c)
    (match t with
    | [] => []
    | c :: rest => if isPathQuote c then rest else c :: rest)

end Reader

/-- An attribute may start here, given the character before. -/
def attributeMayStart (before : Option Char) : Bool := before.all Text.isBlank

/-- The attribute stands at the front of the text: its name, and then a blank, an equals sign or
the end. -/
def attributeHere (name t : Text) : Bool :=
  match name.isPrefixOf? t with
  | none => false
  | some after => after.head?.all fun c => c == '=' || Text.isBlank c

/-- The attribute stands somewhere in the text, after the character `before`. -/
def hasAttributeFrom (name : Text) (before : Option Char) : Text → Bool
  | [] => attributeMayStart before && attributeHere name []
  | c :: rest =>
    (attributeMayStart before && attributeHere name (c :: rest)) ||
      hasAttributeFrom name (some c) rest

/-- The attribute text of a tag has the attribute, with or without a value. -/
def hasAttribute (attributes : Option Text) (name : Text) : Bool :=
  match attributes with
  | some (c :: rest) => hasAttributeFrom name none (c :: rest)
  | _ => false

/-! ## Self-closing tags -/

/-- The name of a component tag at the front of a text: a capital with letters and digits after it,
or lower-case letters with a dash and then dashes or lower-case letters. Empty when there is none. -/
def componentTagName (t : Text) : Text :=
  match t with
  | [] => []
  | c :: rest =>
    if c.isUpper then c :: rest.takeWhile Char.isAlphanum
    else
      let lead := t.takeWhile Char.isLower
      match t.drop lead.length with
      | '-' :: after =>
        if lead.isEmpty then []
        else lead ++ '-' :: after.takeWhile fun d => d == '-' || d.isLower
      | _ => []

/-- Read a self-closing component tag and give the opening and closing tags that stand for it. -/
def Reader.selfClosing : Reader Text := do
  Reader.literal "<"
  fun t =>
    let name := componentTagName t
    let after := t.drop name.length
    let inside := after.takeWhile (· != '>')
    match after.drop inside.length with
    | _ :: rest =>
      if !name.isEmpty && inside.getLast? == some '/' then
        some ("<" ++ name ++ Text.trimEnd inside.dropLast ++ "></" ++ name ++ ">", rest)
      else none
    | [] => none

/-- Write self-closing component tags out as an opening and a closing one. -/
def expandSelfClosing (markup : Text) : Text := Text.replaceAll Reader.selfClosing markup

/-! ## Splitting -/

/-- Where the template section lies: from its opening tag, past it, to its closing tag, past it. -/
structure TemplateExtent where
  start : Nat
  innerStart : Nat
  innerStop : Nat
  stop : Nat

/-- The template section from the first opening tag to the last closing one after it. -/
def templateExtent? (source : Text) : Option TemplateExtent := do
  let opening ← (Text.findAll Text.anywhere (Reader.openTag "template") source).head?
  let closing ← (Text.findAll Text.anywhere (Reader.closeTag "template")
    (source.drop opening.stop)).getLast?
  return ⟨opening.start, opening.stop, opening.stop + closing.start, opening.stop + closing.stop⟩

namespace Sections

/-- The script block with the attributes and content of a script section. -/
def scriptBlock (attributes : Option Text) (content : Text) : ScriptBlock where
  content := content
  isSetup := hasAttribute attributes "setup"
  lang := (Text.findAll (fun before => !before.any Text.isWordChar) Reader.langAttribute
    (attributes.getD [])).head?.map (·.value)

/-- The sections of a component file. Of several scripts the first counts. -/
def ofSource (source : Text) : Sections :=
  let extent := templateExtent? source
  let outside := match extent with
    | some e => source.take e.start ++ source.drop e.stop
    | none => source
  { template := extent.map fun e => expandSelfClosing (source.slice e.innerStart e.innerStop)
    script := (Text.findAll Text.anywhere (Reader.block "script") outside).head?.map
      fun found => scriptBlock found.value.1 found.value.2
    styles := (Text.findAll Text.anywhere (Reader.block "style") outside).map
      fun found => ⟨found.value.2, hasAttribute found.value.1 "scoped"⟩ }

/-- What is logged when a file has been split. -/
def entry (sections : Sections) : Entry :=
  let script : Text := match sections.script with
    | some block => if block.isSetup then "setup" else "plain"
    | none => "no"
  let template : Text := if sections.template.isSome then "yes" else "no"
  ⟨2, "Sections: template=" ++ template ++ ", script=" ++ script ++ ", styles=" ++
    Text.ofNat sections.styles.length⟩

end Sections

end SetupScript
