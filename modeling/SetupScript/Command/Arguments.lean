import SetupScript.Text.Decimal
import SetupScript.Text.Quoted

/-!
# Command line arguments

The options of the command and how arguments are read. Options may stand anywhere before a double
dash, take their value from the next argument or after an equals sign, and may be shortened as long
as that is unambiguous; short options may be written together. Reading stops at the first fault, and
what is missing is reported before what is not recognised. A double dash that is itself given as a
value counts as no value. Whoever starts the command may add flags to its options; they are told which
of them were given.
-/

namespace SetupScript.Command

/-- What an option does. -/
inductive Action where
  | help
  | inputFile
  | componentName
  | outputSubdir
  | preview
  | verbosity
  | version
  /-- Pass on that an added flag was given. -/
  | pass (flag : Text)
  deriving DecidableEq

/-- The spellings of an option. -/
def Action.spellings : Action → List Text
  | help => ["-h", "--help"]
  | inputFile => ["--inputFile"]
  | componentName => ["--componentName"]
  | outputSubdir => ["--outputSubdir"]
  | preview => ["--preview"]
  | verbosity => ["-v", "--verbosity"]
  | version => ["-V", "--version"]
  | pass flag => [flag]

/-- The option takes a value. -/
def Action.takesValue : Action → Bool
  | inputFile | componentName | outputSubdir => true
  | _ => false

/-- The name of an option in messages. -/
def Action.title (action : Action) : Text := Text.joinWith "/" action.spellings

/-- Every spelling with its option, the added flags last. -/
def spelledOptions (flags : List Text) : List (Text × Action) :=
  let own : List Action :=
    [.help, .inputFile, .componentName, .outputSubdir, .preview, .verbosity, .version]
  (own ++ flags.map Action.pass).flatMap fun action => action.spellings.map (·, action)

/-- The option of exactly this spelling. -/
def optionOf? (flags : List Text) (spelling : Text) : Option Action :=
  ((spelledOptions flags).find? (·.1 == spelling)).map (·.2)

/-- What is wrong with the arguments. -/
inductive UsageError where
  | ambiguous (argument : Text) (candidates : List Text)
  | expectedValue (action : Action)
  | ignoredValue (action : Action) (value : Text)
  | missing (names : List Text)
  | unrecognized (arguments : List Text)
  deriving DecidableEq

/-- The wording of a usage error. -/
def UsageError.message : UsageError → Text
  | ambiguous argument candidates =>
    "ambiguous option: " ++ argument ++ " could match " ++ Text.joinWith ", " candidates
  | expectedValue action => "argument " ++ action.title ++ ": expected one argument"
  | ignoredValue action value =>
    "argument " ++ action.title ++ ": ignored explicit argument " ++ Text.quoted value
  | missing names => "the following arguments are required: " ++ Text.joinWith ", " names
  | unrecognized arguments => "unrecognized arguments: " ++ Text.joinWith " " arguments

/-- An option as it was written: what it is, unless it is unknown, and the text written with it. -/
structure WrittenOption where
  argument : Text
  action : Option Action
  isShort : Bool := false
  value : Option Text := none

/-- An argument by its form. -/
inductive Item where
  | plain (argument : Text)
  | dashes
  | option (written : WrittenOption)

/-- The argument behind an item. -/
def Item.argument : Item → Text
  | plain argument => argument
  | dashes => "--"
  | option written => written.argument

/-- A minus sign and a decimal number, possibly with a line feed at its end: such an argument is a
plain one. -/
def isNegativeNumber (t : Text) : Bool :=
  match t with
  | '-' :: number =>
    let digits := if number.getLast? == some '\n' then number.dropLast else number
    let whole := digits.takeWhile Text.isDecimal
    match digits.drop whole.length with
    | [] => !whole.isEmpty
    | '.' :: places => !places.isEmpty && places.all Text.isDecimal
    | _ => false
  | _ => false

/-- What stands before the first equals sign, and what stands after it if there is one. -/
def atEquals (t : Text) : Text × Option Text :=
  let name := t.takeWhile (· != '=')
  (name, match t.drop name.length with | _ :: value => some value | [] => none)

/-- The ways to read an argument that is not the spelling of an option: a shortened long option, or
a short option with text right after it. -/
def readings (flags : List Text) (argument : Text) : List (Text × WrittenOption) :=
  match argument with
  | '-' :: '-' :: _ =>
    let (name, value) := atEquals argument
    ((spelledOptions flags).filter fun item => name.isPrefixOf item.1).map fun item =>
      (item.1, ⟨argument, some item.2, false, value⟩)
  | _ =>
    (spelledOptions flags).filterMap fun (spelling, action) =>
      if spelling == argument.take 2 then
        some (spelling, ⟨argument, some action, true, some (argument.drop 2)⟩)
      else if argument.isPrefixOf spelling then
        some (spelling, ⟨argument, some action, false, none⟩)
      else none

/-- The spelling is that of a short option. -/
def isShortSpelling (spelling : Text) : Bool := (spelling.drop 1).head? != some '-'

/-- Tell the form of one argument. -/
def classify (flags : List Text) (argument : Text) : Except UsageError Item :=
  if argument.head? != some '-' then .ok (.plain argument)
  else
    match optionOf? flags argument with
    | some action => .ok (.option ⟨argument, some action, isShortSpelling argument, none⟩)
    | none =>
      if argument.length = 1 then .ok (.plain argument)
      else
        let (name, value) := atEquals argument
        match optionOf? flags name, value with
        | some action, some value =>
          .ok (.option ⟨argument, some action, isShortSpelling name, some value⟩)
        | _, _ =>
          match readings flags argument with
          | [reading] => .ok (.option reading.2)
          | [] =>
            if isNegativeNumber argument || argument.contains ' ' then .ok (.plain argument)
            else .ok (.option ⟨argument, none, false, none⟩)
          | several => .error (.ambiguous argument (several.map (·.1)))

/-- Tell the forms of all arguments; after a double dash every argument is a plain one. -/
def classifyAll (flags : List Text) : List Text → Except UsageError (List Item)
  | [] => .ok []
  | argument :: rest =>
    if argument = "--" then .ok (.dashes :: rest.map .plain)
    else do
      let item ← classify flags argument
      let items ← classifyAll flags rest
      return item :: items

/-- What stands where a path is expected. -/
inductive Operand where
  | text (t : Text)
  /-- Nothing was given. -/
  | absent
  /-- A double dash was given, which leaves an empty list of values. -/
  | void
  deriving DecidableEq

/-- The operand that a value of an option gives. -/
def Operand.ofValue (value : Text) : Operand := if value = "--" then .void else .text value

/-- The text of an operand, if it is one. -/
def Operand.text? : Operand → Option Text
  | text t => some t
  | _ => none

/-- What has been read so far. -/
structure Reading where
  inputFile : Option Operand := none
  componentName : Option Text := none
  outputSubdir : Operand := .text "."
  preview : Bool := false
  verbosity : Nat := 1
  passed : List Text := []
  directories : List Operand := []
  extras : List Text := []

/-- How reading stops early. -/
inductive Stop where
  | usage (error : UsageError)
  | help
  | version
  deriving DecidableEq

/-- Apply an option, with its value if it takes one. -/
def Reading.apply (reading : Reading) (action : Action) (value : Text) : Except Stop Reading :=
  match action with
  | .help => .error .help
  | .version => .error .version
  | .inputFile => .ok { reading with inputFile := some (.ofValue value) }
  | .componentName => .ok { reading with componentName := (Operand.ofValue value).text? }
  | .outputSubdir => .ok { reading with outputSubdir := .ofValue value }
  | .preview => .ok { reading with preview := true }
  | .verbosity => .ok { reading with verbosity := reading.verbosity + 1 }
  | .pass flag => .ok { reading with passed := reading.passed ++ [flag] }

/-- Take a plain argument: the two directories first, the rest is not recognised. -/
def Reading.take (reading : Reading) (argument : Text) : Reading :=
  if reading.directories.length < 2 then
    { reading with directories := reading.directories ++ [.text argument] }
  else { reading with extras := reading.extras ++ [argument] }

/-- The first short option and those that are written right after it. -/
def shortOptions (flags : List Text) (first : Action) : Text → Except UsageError (List Action)
  | [] => .ok [first]
  | c :: rest =>
    match optionOf? flags ['-', c] with
    | none => .error (.ignoredValue first (c :: rest))
    | some action => (shortOptions flags action rest).map (first :: ·)

/-- Apply options that take no value, in order. -/
def Reading.applyAll (reading : Reading) : List Action → Except Stop Reading
  | [] => .ok reading
  | action :: rest => do (← reading.apply action []).applyAll rest

/-- Apply an option that has text written with it. -/
def Reading.applyWritten (flags : List Text) (reading : Reading) (written : WrittenOption)
    (action : Action) (value : Text) : Except Stop Reading :=
  if action.takesValue then reading.apply action value
  else if written.isShort && !value.isEmpty then
    match shortOptions flags action value with
    | .error error => .error (.usage error)
    | .ok actions => reading.applyAll actions
  else .error (.usage (.ignoredValue action value))

/-- Some item is an option. -/
def hasOption (items : List Item) : Bool :=
  items.any fun item => match item with | .option _ => true | _ => false

/-- Read items up to the last option, and give what is left after it. -/
def readOptions (flags : List Text) (reading : Reading) : List Item → Except Stop (Reading × List Item)
  | [] => .ok (reading, [])
  | item :: rest =>
    if !hasOption (item :: rest) then .ok (reading, item :: rest)
    else
      match item with
      | .option written =>
        match written.action, written.value with
        | none, _ =>
          readOptions flags { reading with extras := reading.extras ++ [written.argument] } rest
        | some action, some value =>
          match reading.applyWritten flags written action value with
          | .error stop => .error stop
          | .ok next => readOptions flags next rest
        | some action, none =>
          if action.takesValue then
            match rest with
            | .plain value :: after =>
              match reading.apply action value with
              | .error stop => .error stop
              | .ok next => readOptions flags next after
            | _ => .error (.usage (.expectedValue action))
          else
            match reading.apply action [] with
            | .error stop => .error stop
            | .ok next => readOptions flags next rest
      | other => readOptions flags (reading.take other.argument) rest

/-- The item is a double dash. -/
def Item.isDashes : Item → Bool
  | dashes => true
  | _ => false

/-- Take directories from the items after the last option, each with the double dashes around it. A
later double dash that stands alone in the place of a directory gives none. -/
def readDirectories (reading : Reading) (items : List Item) : Nat → Reading × List Item
  | 0 => (reading, items)
  | count + 1 =>
    match items.dropWhile Item.isDashes with
    | .plain argument :: rest =>
      let left := rest.dropWhile Item.isDashes
      let isAlone := items.length = left.length + 1
      let operand := if isAlone then Operand.ofValue argument else .text argument
      readDirectories { reading with directories := reading.directories ++ [operand] } left count
    | _ => (reading, items)

/-- What a run is asked to do. -/
structure Request where
  inputDir : Operand
  outputDir : Operand
  inputFile : Operand
  componentName : Option Text
  outputSubdir : Operand
  preview : Bool
  verbosity : Nat
  /-- The added flags that were given, in their order. -/
  passed : List Text
  deriving DecidableEq

/-- Check that nothing is missing and nothing is left over. -/
def Reading.request (reading : Reading) : Except Stop Request :=
  match reading.inputFile, reading.directories, reading.extras with
  | some inputFile, [inputDir, outputDir], [] =>
    .ok ⟨inputDir, outputDir, inputFile, reading.componentName, reading.outputSubdir,
      reading.preview, reading.verbosity, reading.passed⟩
  | inputFile, directories, extras =>
    let names : List Text := (if inputFile.isNone then ["--inputFile"] else [] : List Text) ++
      (["inputdir", "outputdir"] : List Text).drop directories.length
    .error (.usage (if names.isEmpty then .unrecognized extras else .missing names))

/-- Read what is left after the last option. -/
def Reading.finish (reading : Reading) (left : List Item) : Except Stop Request :=
  let (last, surplus) := readDirectories reading left (2 - reading.directories.length)
  { last with extras := last.extras ++ surplus.map Item.argument }.request

/-- Read the arguments of a command line to which these flags were added. -/
def readArguments (flags : List Text) (arguments : List Text) : Except Stop Request :=
  match classifyAll flags arguments with
  | .error error => .error (.usage error)
  | .ok items => do
    let (reading, left) ← readOptions flags {} items
    reading.finish left

/-- The name under which the command speaks. -/
def programName : Text := "setupmini"

/-- The version of the command. -/
def versionText : Text := programName ++ " 1.0.0"

end SetupScript.Command
