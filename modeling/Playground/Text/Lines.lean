/-!
# Lines

A text given line by line.
-/

namespace Playground.Text

/-- The text whose lines are `ls`, each ended by a newline. -/
def unlines (ls : List String) : String :=
  String.ofList (ls.flatMap fun l => l.toList ++ ['\n'])

/-- The number of newlines in a text. -/
def newlines (s : List Char) : Nat := s.count '\n'

end Playground.Text
