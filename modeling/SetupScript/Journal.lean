import SetupScript.Text.Basic

/-!
# Journals

What a run has to say, in order, each message with the verbosity it needs. Nothing is printed here:
a journal is data, and a reader of verbosity `v` sees the messages of level at most `v`.
-/

namespace SetupScript

/-- A message and the least verbosity at which it shows: 1 is normal, 2 verbose, 3 for debugging. -/
structure Entry where
  level : Int
  message : Text

/-- Messages in the order in which they were logged. -/
abbrev Journal := List Entry

/-- The messages that show at a verbosity. -/
def Journal.shownAt (journal : Journal) (verbosity : Int) : List Text :=
  (journal.filter (·.level ≤ verbosity)).map Entry.message

/-- Where the verbosity comes from: the debugging switch as long as nothing is connected, and then
the connected program, which may state none. -/
structure Logger where
  debug : Bool := false
  connected : Option (Option Int) := none

/-- The verbosity in force. A connected program that states none has verbosity 0. -/
def Logger.verbosity (logger : Logger) : Int :=
  match logger.connected with
  | some stated => stated.getD 0
  | none => if logger.debug then 3 else 0

/-- The logger lets a message of this level through. -/
def Logger.shows (logger : Logger) (level : Int) : Bool := level ≤ logger.verbosity

end SetupScript
