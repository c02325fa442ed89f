import Playground.Diagnostics.Document
import Playground.Diagnostics.Entry

/-!
# Inline markers

A marker anchors a diagnostic to the line of the document that it names.  It spans
that line from its first to its last character that is no white space.  A message
gives a marker if it holds a headline `<source>:L:C: WORD:`, white space and a
text, and if the document has the line `L`.  Of several places that match, the
leftmost counts.
-/

namespace Playground

open Text

/-- How bad a diagnostic is.  Only a warning is below an error. -/
inductive Severity where
  | warning
  | error
deriving DecidableEq, Repr, Inhabited

namespace Severity

/-- The severity of a severity word.  Every word but `warning` means an error. -/
def ofWord (word : String) : Severity := if word = "warning" then .warning else .error

/-- The name of a severity. -/
def name : Severity → String
  | .warning => "warning"
  | .error => "error"

/-- The rank of a severity, the warning first. -/
def rank : Severity → Nat
  | .warning => 0
  | .error => 1

/-- The worse of two severities. -/
def max (a b : Severity) : Severity := if a.rank ≤ b.rank then b else a

/-- The milder of two severities. -/
def min (a b : Severity) : Severity := if a.rank ≤ b.rank then a else b

end Severity

/-- An annotation of one line of the document. -/
structure Marker where
  /-- The line, from 1. -/
  line : Nat
  /-- The column of the first character that is no white space, or 0. -/
  startCol : Nat
  /-- The column behind the last character that is no white space, or 0. -/
  endCol : Nat
  /-- The severity. -/
  severity : Severity
  /-- The severity word as the compiler printed it. -/
  source : String
  /-- The text of the diagnostic. -/
  message : String
deriving DecidableEq, Repr, Inhabited

/-- The text of a diagnostic, from what follows its headline: at least one
character of white space, and then a text up to the end of the line.  White space
alone counts as a text, so that it takes a second character of it. -/
def diagnosticText? (s : List Char) : Option (List Char) :=
  match s with
  | [] => none
  | c :: t =>
    if !isSpace c then none
    else
      match trimStart t with
      | d :: r => some (trimEnd ((d :: r).takeWhile (· ≠ '\n')))
      | [] => if t.all (· = '\n') then none else some []

/-- The headline of a diagnostic at the start of a message, and its text. -/
def diagnosticAt? (s : List Char) : Option (Headline × List Char) := do
  let h ← headlineAt? s
  return (h, ← diagnosticText? h.rest)

/-- The marker of a message, if it holds a diagnostic of a line of the document. -/
def Marker.ofMessage? (d : Document) (message : String) : Option Marker := do
  let (h, text) ← search? diagnosticAt? message.toList
  let line ← readWord? h.line
  if line = 0 ∨ d.lineCount < line then none
  let word := String.ofList h.word
  return {
    line
    startCol := d.firstColumn line
    endCol := d.lastColumn line
    severity := .ofWord word
    source := word
    message := String.ofList text }

/-- The markers of the compiler's entries, in order. -/
def markers (d : Document) (es : List Entry) : List Marker :=
  (es.filter (·.isCompilerOutput)).filterMap fun e => Marker.ofMessage? d e.message

end Playground
