import SetupScript.Settings.Basic
import SetupScript.Text.LowerCase

/-!
# Settings from the environment

Every setting can be given by a variable, in the environment or in a `.env` file; the environment
wins. Names are read without regard to case. Variables of the environment that name no setting are
ignored, but an unknown name in the file is an error, as is a switch with no readable value.
-/

namespace SetupScript.Settings

/-- What is wrong with one of the variables. -/
inductive Problem where
  | unreadableSwitch (field : Text)
  | unknownVariable (name : Text)

/-- The wording of a problem. -/
def Problem.message : Problem → Text
  | unreadableSwitch field => field ++ ": bool_parsing"
  | unknownVariable name => name ++ ": extra_forbidden"

/-- Variables with their values, which may be left out. Of two whose names differ in case only the
later counts. -/
abbrev Variables := List (Text × Option Text)

/-- The names of the settings that are texts, each with the way to set it. -/
def textFields : List (Text × (Settings → Text → Settings)) :=
  [("component_name", fun s v => { s with componentName := v }),
   ("export_prefix", fun s v => { s with exportLead := v }),
   ("props_param", fun s v => { s with propsParam := v }),
   ("ctx_param", fun s v => { s with contextParam := v }),
   ("emit_param", fun s v => { s with emitParam := v }),
   ("defaults_helper", fun s v => { s with defaultsHelper := v }),
   ("marker_prefix", fun s v => { s with markerLead := v }),
   ("framework_module", fun s v => { s with frameworkModule := v }),
   ("component_extension", fun s v => { s with componentExtension := v }),
   ("runtime_loader", fun s v => { s with runtimeLoader := v }),
   ("suspend_keyword", fun s v => { s with suspendKeyword := v })]

/-- The names of the settings that are switches, each with the way to set it. -/
def switchFields : List (Text × (Settings → Bool → Settings)) :=
  [("debug_mode", fun s v => { s with debugMode := v }),
   ("strict_mode", fun s v => { s with strictMode := v })]

/-- The value of a switch. White space is not trimmed. -/
def readSwitch? (value : Text) : Option Bool :=
  let word := value.map Char.toLower
  if (["1", "true", "t", "yes", "y", "on"] : List Text).contains word then some true
  else if (["0", "false", "f", "no", "n", "off"] : List Text).contains word then some false
  else none

/-- What the names of variables start with, in lower case. -/
def variableLead : Text := "setupmini_"

/-- The value of the last variable of this name, which is given in lower case. -/
def value? (given : Variables) (name : Text) : Option Text :=
  (given.reverse.find? fun item => Text.lower item.1 == name).bind (·.2)

/-- The value of a setting: from the environment, or else from the file. -/
def fieldValue? (environment file : Variables) (field : Text) : Option Text :=
  (value? environment (variableLead ++ field)).or (value? file (variableLead ++ field))

/-- The variables of the file that name no setting, in lower case and without repetitions. A bare
setting name is passed over, and so is a variable with an empty value or none. -/
def unknownNames (file : Variables) : List Text :=
  let fields := textFields.map (·.1) ++ switchFields.map (·.1)
  let known := fields ++ fields.map (variableLead ++ ·)
  let names := (file.map fun item => Text.lower item.1).eraseDups
  names.filter fun name => !known.contains name && (value? file name).any (!·.isEmpty)

/-- Settings under an environment and the variables of a file, or all that is wrong with them. -/
def ofVariables (environment file : Variables) : Except (List Problem) Settings :=
  let value? := fieldValue? environment file
  let texts := textFields.foldl (fun s (field, set) => (value? field).elim s (set s)) {}
  let settings := switchFields.foldl
    (fun s (field, set) => ((value? field).bind readSwitch?).elim s (set s)) texts
  let unreadable := (switchFields.map (·.1)).filter fun field =>
    (value? field).any fun value => (readSwitch? value).isNone
  let problems := unreadable.map Problem.unreadableSwitch ++
    (unknownNames file).map Problem.unknownVariable
  if problems.isEmpty then .ok settings else .error problems

/-! ## The file -/

/-- A value up to a comment, which starts at a number sign after white space. -/
def fileValue : Text → Text
  | [] => []
  | c :: rest =>
    if Text.isBlank c && (Text.trimStart rest).head? == some '#' then [] else c :: fileValue rest

/-- The name that a line gives a value to: one word, which `export` may precede. -/
def readName? (t : Text) : Option Text :=
  let line := Text.trimStart t
  let named := match ("export" : Text).isPrefixOf? line with
    | some (c :: rest) => if Text.isBlank c then rest else line
    | _ => line
  match Text.words named with
  | [name] => some name
  | _ => none

/-- The variable of one line; a line with a comment or nothing where the equals sign is expected
names a variable without a value. -/
def readLine? (line : Text) : Option (Text × Option Text) :=
  let name := line.takeWhile fun c => c != '=' && c != '#'
  let value := match line.drop name.length with
    | '=' :: rest => some (Text.trimEnd (fileValue (Text.trimStart rest)))
    | _ => none
  (readName? name).map (·, value)

/-- Set a variable: in the place of the one that is spelled alike, or at the end. -/
def Variables.put (given : Variables) (item : Text × Option Text) : Variables :=
  if given.any (·.1 == item.1) then given.map fun other => if other.1 == item.1 then item else other
  else given ++ [item]

/-- The variables of a `.env` file. -/
def fileVariables (t : Text) : Variables :=
  ((Text.lines (Text.unifyBreaks (Text.withoutMark t))).filterMap readLine?).foldl Variables.put []

end SetupScript.Settings
