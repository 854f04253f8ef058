import SetupScript.Highlight.Script

/-!
# Previews

What a preview of a module shows: its text between its first and last lines that are not empty, and
the same text as a page on which the marked words stand out.
-/

namespace SetupScript.Highlight

/-- The text that a preview shows: without a byte order mark, with line feeds only, without blank
lines at either end, and with a line feed at its end. -/
def shown (t : Text) : Text :=
  let broken := (Text.unifyBreaks (Text.withoutMark t)).dropWhile (· == '\n')
  (broken.reverse.dropWhile (· == '\n')).reverse ++ ['\n']

/-- How many lines a preview shows. -/
def lineCount (t : Text) : Nat := (shown t).count '\n'

/-- A character of the text in markup. -/
def escaped (c : Char) : Text :=
  match c with
  | '&' => "&amp;"
  | '<' => "&lt;"
  | '>' => "&gt;"
  | '\x22' => "&quot;"
  | '\x27' => "&#39;"
  | _ => [c]

/-- The style class of a marked word. -/
def Kind.styleClass : Kind → Text
  | supported => "bp"
  | unsupported => "gr"
  | reserved => "vm"

/-- The text from offset `pos` on in markup, with its marked words. -/
def markupFrom (t : Text) (pos : Nat) : List Mark → Text
  | [] => (t.drop pos).flatMap escaped
  | mark :: rest =>
    ((t.drop pos).take (mark.offset - pos)).flatMap escaped ++
      "<span class=\"" ++ mark.kind.styleClass ++ "\">" ++ mark.word ++ "</span>" ++
      markupFrom t (mark.offset + mark.word.length) rest

/-- A page that shows a module with its marked words. -/
def page (t : Text) : Text :=
  let text := shown t
  "<!DOCTYPE html>\n<html>\n<head>\n<meta charset=\"utf-8\">\n<style>\n" ++
    ".bp \x7b color: #66d9ef \x7d\n.gr \x7b color: #ed007e \x7d\n.vm \x7b color: #fd971f \x7d\n" ++
    "</style>\n</head>\n<body>\n<pre>" ++ markupFrom text 0 (marks scriptLexer text) ++
    "</pre>\n</body>\n</html>\n"

end SetupScript.Highlight
