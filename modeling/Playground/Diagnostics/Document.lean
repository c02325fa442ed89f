import Playground.Text.Search
import Playground.Text.Space

/-!
# Documents

The lines of the user's text.  Lines and columns are counted from 1, in
characters.  A newline ends a line, and one carriage return before it belongs to
the line end.  An empty text has one empty line.
-/

namespace Playground

open Text

/-- The line without a carriage return at its end. -/
def dropReturn (line : List Char) : List Char :=
  if line.getLast? = some '\r' then line.dropLast else line

/-- The lines of a text. -/
structure Document where
  /-- The lines, without their ends. -/
  lines : List (List Char)
deriving DecidableEq, Repr

namespace Document

/-- The lines of `text`. -/
def ofText (text : String) : Document := ⟨(splitOn '\n' text.toList).map dropReturn⟩

/-- The number of lines. -/
def lineCount (d : Document) : Nat := d.lines.length

/-- The text of a line, if there is such a line. -/
def line? (d : Document) : Nat → Option (List Char)
  | 0 => none
  | n + 1 => d.lines[n]?

/-- The column of the first character of `line` that is no white space, or 0. -/
def firstInk (line : List Char) : Nat :=
  match line.findIdx? (fun c => !isSpace c) with
  | some i => i + 1
  | none => 0

/-- The column behind the last character of `line` that is no white space, or 0. -/
def lastInk (line : List Char) : Nat :=
  match trimEnd line with
  | [] => 0
  | c :: cs => (c :: cs).length + 1

/-- The column of the first character of a line that is no white space, or 0. -/
def firstColumn (d : Document) (n : Nat) : Nat := (d.line? n).elim 0 firstInk

/-- The column behind the last character of a line that is no white space, or 0. -/
def lastColumn (d : Document) (n : Nat) : Nat := (d.line? n).elim 0 lastInk

end Document

end Playground
