import Playground.Diagnostics.LineOffset
import Playground.Header.Bundled
import Playground.Text.Lines
import Playground.Text.Search
import Playground.Text.Space

/-!
# Header inlining

The compile service does not have the header of the compile-time printer, so an
include directive is replaced by the header's text before the code is sent.  The
directive is `#`, `include` and `<ctp/ctp.hpp>`, with white space allowed in
between.

`inlineHeader` puts the header in place of the first directive of the text and
takes out every other one.  The offset names the first line that holds a whole
directive.  Without such a line the code stays as it is: a directive that is
spread over two lines does not count on its own.
-/

namespace Playground

open Text

/-- What follows the include directive at the start of a text. -/
def directiveAt? (s : List Char) : Option (List Char) := do
  let s ← after? ['#'] s
  let s ← after? ['i', 'n', 'c', 'l', 'u', 'd', 'e'] (trimStart s)
  after? ['<', 'c', 't', 'p', '/', 'c', 't', 'p', '.', 'h', 'p', 'p', '>'] (trimStart s)

theorem length_trimStart_le (s : List Char) : (trimStart s).length ≤ s.length :=
  (List.dropWhile_sublist isSpace).length_le

theorem length_of_directiveAt? {s r : List Char} (h : directiveAt? s = some r) :
    r.length < s.length := by
  simp only [directiveAt?, Option.bind_eq_bind, Option.bind_eq_some_iff] at h
  obtain ⟨s1, h1, s2, h2, h3⟩ := h
  have e1 := length_of_after? h1
  have e2 := length_of_after? h2
  have e3 := length_of_after? h3
  have l1 := length_trimStart_le s1
  have l2 := length_trimStart_le s2
  simp only [List.length_cons, List.length_nil] at e1 e2 e3
  omega

/-- The text before and after the first include directive. -/
def splitDirective? : List Char → Option (List Char × List Char)
  | [] => none
  | c :: s =>
    match directiveAt? (c :: s) with
    | some r => some ([], r)
    | none => (splitDirective? s).map fun p => (c :: p.1, p.2)

/-- The text without its include directives, found from left to right. -/
def dropDirectives (s : List Char) : List Char :=
  match s with
  | [] => []
  | c :: cs =>
    match _h : directiveAt? (c :: cs) with
    | some r => dropDirectives r
    | none => c :: dropDirectives cs
termination_by s.length
decreasing_by
  · exact length_of_directiveAt? _h
  · simp

/-- The text has an include directive. -/
def hasDirective (s : List Char) : Bool := (search? directiveAt? s).isSome

/-- The line of the first whole include directive, from 1. -/
def includeLine? (code : List Char) : Option Nat :=
  ((splitOn '\n' code).findIdx? hasDirective).map (· + 1)

/-- The code with the first include directive replaced by `header` and the others
taken out, and the offset of its lines. -/
def inlineHeader (header code : String) : LineOffset × String :=
  match includeLine? code.toList, splitDirective? code.toList with
  | some line, some (before, behind) =>
    (⟨newlines header.toList, line⟩,
      String.ofList (dropDirectives (before ++ header.toList ++ behind)))
  | _, _ => (.identity, code)

/-- The code with the bundled header in place of its include directives. -/
def includeHeader (code : String) : LineOffset × String := inlineHeader bundledHeader code

end Playground
