import Playground.Text.Digit

/-!
# Line offsets

The compiler sees the user's text with a header in place of its include
directive, so every line after the directive is shifted by the newlines of the
header.  A line offset says by how much, and `correct` maps a line of the compiled
text back to a line of the user's text.

    compiled                      user's text
    1 .. includeLine              the same line
    the next headerLines lines    includeLine, since they are inside the header
    beyond                        the line minus headerLines

Where the header ends has to be a line number too.  If it is not,
`correct` fails with `overflow` for every line that needs it
(`correct_eq_overflow_iff`).
-/

namespace Playground

/-- How far an included header shifts the lines after it. -/
structure LineOffset where
  /-- The newlines that the header brings in. -/
  headerLines : Nat
  /-- The line of the include directive, from 1, or 0 if there is none. -/
  includeLine : Nat
deriving DecidableEq, Repr, Inhabited

namespace LineOffset

/-- Why a line number is not corrected. -/
inductive Failure where
  /-- The line after the header is no line number. -/
  | overflow
  /-- The corrected number is to be set flush right in too many columns. -/
  | tooWide
deriving DecidableEq, Repr

/-- The text shown for a failure. -/
def Failure.message : Failure → String
  | .overflow => "attempt to add with overflow"
  | .tooWide => "Formatting argument out of range"

/-- The offset of a text without an include directive. -/
def identity : LineOffset := ⟨0, 0⟩

/-- The offset moves no line. -/
def isIdentity (o : LineOffset) : Bool := o.headerLines == 0

/-- The line of the user's text from which a line of the compiled text comes. -/
def correct (o : LineOffset) (line : Nat) : Except Failure Nat :=
  if line ≤ o.includeLine then .ok line
  else if Text.wordBound ≤ o.includeLine + o.headerLines then .error .overflow
  else if line ≤ o.includeLine + o.headerLines then .ok o.includeLine
  else .ok (line - o.headerLines)

theorem correct_eq_overflow_iff (o : LineOffset) (line : Nat) :
    o.correct line = .error .overflow ↔
      o.includeLine < line ∧ Text.wordBound ≤ o.includeLine + o.headerLines := by
  unfold correct
  split
  · next h => simp; omega
  · next h =>
    split
    · next h' => simp; omega
    · next h' => split <;> simp <;> omega

end LineOffset

end Playground
