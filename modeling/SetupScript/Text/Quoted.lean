import SetupScript.Text.Printable

/-!
# Quoted texts

How a message shows a text: in single quotes, or in double quotes when the text holds a single
quote and no double one. The backslash, the quote in use, line breaks and tabs are escaped, and
what is not printable is written as its code point in hexadecimal.
-/

namespace SetupScript.Text

/-- The low `width` hexadecimal digits of a number. -/
def hexDigits (width n : Nat) : Text :=
  let digits := Nat.toDigits 16 n
  List.replicate (width - digits.length) '0' ++ digits

/-- One character inside quotes. -/
def quotedChar (quote c : Char) : Text :=
  if c = quote || c = '\\' then ['\\', c]
  else if c = '\n' then "\\n"
  else if c = '\r' then "\\r"
  else if c = '\t' then "\\t"
  else if isPrintable c then [c]
  else if c.toNat < 0x100 then "\\x" ++ hexDigits 2 c.toNat
  else if c.toNat < 0x10000 then "\\u" ++ hexDigits 4 c.toNat
  else "\\U" ++ hexDigits 8 c.toNat

/-- The text in quotes, as messages show it. -/
def quoted (t : Text) : Text :=
  let quote := if '\x27' ∈ t && '\x22' ∉ t then '\x22' else '\x27'
  [quote] ++ t.flatMap (quotedChar quote) ++ [quote]

end SetupScript.Text
