import Playground.Share.Compress
import Playground.Share.Expand
import Playground.Share.Sextet
import Playground.State
import Playground.Text.Percent
import Playground.Text.Search
import Playground.Text.Space
import Playground.Text.Utf16
import Playground.Text.Utf8

/-!
# Share links

A link carries a state behind its `#`: the fields as `key=value` pairs joined with
`&`, values with percent signs, compressed and packed into letters.

    #MYewtgDglgNg...        compiler=g75&compiler_flags=-O2&code=int%20x%3B&...

A link without such a fragment shares nothing.  A fragment that is too long, that
does not expand, or that expands to too much shares nothing either.  A pair whose
value cannot be read is left out, and the others count.
-/

namespace Playground.Share

open Text

/-- The longest fragment that is read, in octets. -/
def maxFragment : Nat := 16 * 1024

/-- The longest expanded text that is read, in UTF-16 units. -/
def maxPayload : Nat := 1024 * 1024

/-! ## Writing -/

/-- The pairs of some texts under their keys. -/
def query (ps : List (String × String)) : List Char :=
  Text.join '&' (ps.map fun p => p.1.toList ++ '=' :: Percent.encode Percent.isUnreserved p.2.toList)

/-- A text, compressed and packed. -/
def pressed (s : List Char) : List Char := pack ((compress (Utf16.encode s)).flatMap Code.bits)

/-- The fragment of a state, with its `#`. -/
def fragment (s : State) : String := String.ofList ('#' :: pressed (query s.toPairs))

/-- The address without its fragment. -/
def withoutFragment (url : List Char) : List Char := url.takeWhile (· ≠ '#')

/-- The link that opens a page with a state. -/
def link (base : String) (s : State) : String :=
  String.ofList (withoutFragment base.toList) ++ fragment s

/-! ## Reading -/

/-- The text of a fragment, if it has at most `limit` units. -/
def payload? (limit : Nat) (letters : List Char) : Option (List Char) := do
  if maxFragment < Utf8.size letters then none
  let phrases ← (← unpack? letters) |> expand?
  if limit < phrasesSize phrases then none
  Utf16.decode? (phrasesUnits phrases)

/-- The key and the value of a pair, if it has both and the value can be read. -/
def pair? (s : List Char) : Option (String × String) := do
  let (key, value) ← splitFirst? '=' s
  return (String.ofList key, String.ofList (← Percent.decode? value))

/-- The fields that the pairs of a text give. -/
def fieldsOfQuery (s : List Char) : Fields := .ofList ((splitOn '&' s).filterMap pair?)

/-- The fields that a link carries, where the expanded text may have `limit` units. -/
def fieldsWithin? (limit : Nat) (url : String) : Option Fields := do
  let (_, letters) ← splitFirst? '#' url.toList
  if trim letters = [] then none
  return fieldsOfQuery (← payload? limit (trim letters))

/-- The fields that a link carries. -/
def fields? (url : String) : Option Fields := fieldsWithin? maxPayload url

end Playground.Share
