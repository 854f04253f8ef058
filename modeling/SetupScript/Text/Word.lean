import SetupScript.Text.Alphanumeric

/-!
# Words and names

A word character is an alphanumeric one or an underscore; names may also hold the dollar sign.
-/

namespace SetupScript.Text

/-- An alphanumeric character or the underscore. -/
def isWordChar (c : Char) : Bool := c == '_' || isAlphanumeric c

/-- A character that continues a name. -/
def isNameChar (c : Char) : Bool := c == '$' || isWordChar c

/-- A character that starts a declared name: an ASCII letter, an underscore or a dollar sign. -/
def isNameStart (c : Char) : Bool := c == '$' || c == '_' || c.isAlpha

/-- A declared name: a name start followed by name characters. -/
def isIdentifier : Text → Bool
  | [] => false
  | c :: rest => isNameStart c && rest.all isNameChar

end SetupScript.Text
