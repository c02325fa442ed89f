import Playground.Diagnostics.LineOffset
import Playground.Text.Search

/-!
# Line references in a compiler message

A message refers to a line of the compiled text as `<source>:N`, at any place and
any number of times.  An excerpt of the source shows its line in the gutter, as in
`  12 |     code`.  `correctLineNumbers` moves the references to the user's text.
References win: the gutter is corrected only in a message without one, and the new
number is set flush right where the old one stood.  No more than `maxWidth` columns can be
filled like that, and a wider gutter is a failure.

A number is a run of decimal digits of any script.  Such a run that names no line
number (`Text.readWord?`) stays as it is.

A headline is a reference with a column and a severity word,
`<source>:L:C: error:`.  `isErrorOrWarning` finds one.
-/

namespace Playground

open Text

/-! ## References -/

/-- What stands before the number of a reference. -/
def sourceMark : List Char := ['<', 's', 'o', 'u', 'r', 'c', 'e', '>', ':']

/-- A piece of a message: a character, or the number of a reference. -/
inductive Piece where
  /-- A character that belongs to no number of a reference. -/
  | char (c : Char)
  /-- The digits of a reference. -/
  | number (digits : List Char)
deriving DecidableEq, Repr

/-- The digits of the reference at the start of a text, and what follows them. -/
def referenceAt? (s : List Char) : Option (List Char × List Char) :=
  match after? sourceMark s with
  | none => none
  | some r =>
    if r.takeWhile isDigit = [] then none
    else some (r.takeWhile isDigit, r.dropWhile isDigit)

theorem length_of_referenceAt? {s ds r : List Char} (h : referenceAt? s = some (ds, r)) :
    r.length < s.length := by
  unfold referenceAt? at h
  split at h
  · cases h
  · next t ht =>
    split at h
    · cases h
    · cases h
      have h1 := length_of_after? ht
      have h2 := (List.dropWhile_sublist isDigit (l := t)).length_le
      simp only [sourceMark, List.length_cons, List.length_nil] at h1
      omega

/-- The pieces of a message. -/
def pieces (s : List Char) : List Piece :=
  match s with
  | [] => []
  | c :: cs =>
    match h : referenceAt? (c :: cs) with
    | none => .char c :: pieces cs
    | some (ds, r) => sourceMark.map .char ++ .number ds :: pieces r
termination_by s.length
decreasing_by
  · simp
  · exact length_of_referenceAt? h

/-- The piece is the number of a reference. -/
def Piece.isNumber : Piece → Bool
  | .char _ => false
  | .number _ => true

/-- The text of a piece. -/
def Piece.text : Piece → List Char
  | .char c => [c]
  | .number ds => ds

/-- The number of a line of the compiled text, as the user's text has it. -/
def correctDigits (o : LineOffset) (ds : List Char) : Except LineOffset.Failure (List Char) :=
  match readWord? ds with
  | none => .ok ds
  | some line => (o.correct line).map wordDigits

/-- The corrected text of a piece. -/
def Piece.corrected (o : LineOffset) : Piece → Except LineOffset.Failure (List Char)
  | .char c => .ok [c]
  | .number ds => correctDigits o ds

/-! ## Gutters -/

/-- The gutter of a source excerpt and the line behind it. -/
structure Gutter where
  /-- The spaces before the number. -/
  indent : List Char
  /-- The digits of the number. -/
  number : List Char
  /-- The bar with its spaces, and the rest of the line. -/
  tail : List Char
deriving DecidableEq, Repr

/-- The columns up to the end of the number. -/
def Gutter.width (g : Gutter) : Nat := g.indent.length + g.number.length

/-- The text starts with spaces, a bar and a space. -/
def startsWithBar (s : List Char) : Bool :=
  match s.dropWhile (· = ' ') with
  | '|' :: ' ' :: _ => s.head? = some ' '
  | _ => false

/-- The gutter at the start of a message. -/
def gutter? (s : List Char) : Option Gutter :=
  let indent := s.takeWhile (· = ' ')
  let rest := s.dropWhile (· = ' ')
  let number := rest.takeWhile isDigit
  let tail := rest.dropWhile isDigit
  if indent ≠ [] ∧ number ≠ [] ∧ startsWithBar tail then some ⟨indent, number, tail⟩ else none

/-- The most columns in which a text can be set flush right. -/
def maxWidth : Nat := 65535

/-- The text, with spaces before it up to the given width. -/
def flushRight (width : Nat) (s : List Char) : Except LineOffset.Failure (List Char) :=
  if maxWidth < width then .error .tooWide else .ok (s.leftpad width ' ')

/-- The message with its gutter corrected, if it has one. -/
def correctGutter (o : LineOffset) (s : List Char) : Except LineOffset.Failure (List Char) :=
  match gutter? s with
  | none => .ok s
  | some g =>
    match readWord? g.number with
    | none => .ok s
    | some line => do
      let l ← o.correct line
      let number ← flushRight g.width (wordDigits l)
      return number ++ g.tail

/-! ## Correction -/

/-- The message with its line numbers moved to the user's text. -/
def correctLineNumbers (o : LineOffset) (s : List Char) : Except LineOffset.Failure (List Char) :=
  if o.isIdentity then .ok s
  else if (pieces s).any Piece.isNumber then
    ((pieces s).mapM (Piece.corrected o)).map List.flatten
  else correctGutter o s

/-! ## Headlines -/

/-- The start of a diagnostic, `<source>:L:C: WORD:`, and what follows it. -/
structure Headline where
  /-- The digits of the line. -/
  line : List Char
  /-- The digits of the column. -/
  column : List Char
  /-- The severity word. -/
  word : List Char
  /-- The text behind the last colon. -/
  rest : List Char
deriving DecidableEq, Repr

/-- The severity words of a headline. -/
def severityWords : List (List Char) :=
  [['f', 'a', 't', 'a', 'l', ' ', 'e', 'r', 'r', 'o', 'r'], ['e', 'r', 'r', 'o', 'r'],
    ['w', 'a', 'r', 'n', 'i', 'n', 'g']]

/-- The severity word at the start of a text, if a colon follows it, and the text
behind the colon. -/
def severityWordAt? (s : List Char) : Option (List Char × List Char) :=
  severityWords.findSome? fun w => (after? (w ++ [':']) s).map fun r => (w, r)

/-- The headline at the start of a text. -/
def headlineAt? (s : List Char) : Option Headline := do
  let (line, s) ← referenceAt? s
  let s ← after? [':'] s
  let column := s.takeWhile isDigit
  if column = [] then none
  let s ← after? [':', ' '] (s.dropWhile isDigit)
  let (word, rest) ← severityWordAt? s
  return ⟨line, column, word, rest⟩

/-- The message has the headline of an error or a warning. -/
def isErrorOrWarning (s : List Char) : Bool := (search? headlineAt? s).isSome

/-! ## Tests -/

example : (correctGutter ⟨100, 1⟩ "  120 | x".toList).toOption = some "   20 | x".toList := by
  decide +kernel
example : gutter? "      | ^".toList = none := by decide +kernel
example : isErrorOrWarning "x <source>:1:2: fatal error:".toList = true := by decide +kernel
example : isErrorOrWarning "<source>:1:2: note: a".toList = false := by decide +kernel

end Playground
