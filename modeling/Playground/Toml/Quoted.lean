import Playground.Text.Hex
import Playground.Text.Search

/-!
# Strings in TOML

A string stands in single or double quotes, on one line, or in three of them on
several.  Between double quotes a backslash escapes, and at the end of a line it takes
out the line end and the blanks behind it.  On several lines a line end right behind
the opening quotes does not count, every line end is a newline, and up to two quotes
may stand before the closing ones.
-/

namespace Playground.Toml

open Text

/-- A character that may stand in a string or a comment: no control but the tab. -/
def isPrintable (c : Char) : Bool := c = '\t' || (0x20 ≤ c.toNat && c.toNat ≠ 0x7F)

/-- What follows a line end. -/
def afterNewline? (s : List Char) : Option (List Char) :=
  match s with
  | '\n' :: s => some s
  | '\r' :: '\n' :: s => some s
  | _ => none

/-- The character of some hexadecimal digits. -/
def hexChar? (ds : List Char) : Option Char := do
  let vs ← ds.mapM fun c => if c.toNat < 128 then hexValue? (UInt8.ofNat c.toNat) else none
  let n := vs.foldl (fun n v => 16 * n + v) 0
  if n < 0xD800 ∨ (0xE000 ≤ n ∧ n < 0x110000) then some (Char.ofNat n) else none

/-- The character of an escape, by what stands behind the backslash, and what
follows. -/
def escape? (s : List Char) : Option (Char × List Char) :=
  match s with
  | 'b' :: s => some ('\x08', s)
  | 't' :: s => some ('\t', s)
  | 'n' :: s => some ('\n', s)
  | 'f' :: s => some ('\x0c', s)
  | 'r' :: s => some ('\r', s)
  | '"' :: s => some ('"', s)
  | '\\' :: s => some ('\\', s)
  | 'u' :: a :: b :: c :: d :: s => (hexChar? [a, b, c, d]).map fun x => (x, s)
  | 'U' :: a :: b :: c :: d :: e :: f :: g :: h :: s =>
    (hexChar? [a, b, c, d, e, f, g, h]).map fun x => (x, s)
  | _ => none

/-- What follows the blanks and line ends behind a backslash at the end of a line. -/
def skipBreaks : List Char → List Char
  | '\r' :: '\n' :: s => skipBreaks s
  | c :: s => if c = ' ' ∨ c = '\t' ∨ c = '\n' then skipBreaks s else c :: s
  | [] => []

/-- A backslash with a line end behind it, and what follows the break. -/
def lineBreak? (s : List Char) : Option (List Char) :=
  (afterNewline? (s.dropWhile fun c => c = ' ' || c = '\t')).map skipBreaks

/-- Reads a string on one line, behind the opening quote. -/
def readLine (quote : Char) (done : List Char) : Nat → List Char → Option (String × List Char)
  | 0, _ => none
  | _ + 1, [] => none
  | fuel + 1, c :: s =>
    if c = quote then some (String.ofList done.reverse, s)
    else if c = '\\' ∧ quote = '"' then
      match escape? s with
      | some (x, s) => readLine quote (x :: done) fuel s
      | none => none
    else if isPrintable c then readLine quote (c :: done) fuel s
    else none

/-- The number of quotes that close a string on several lines and those before them:
at most five, of which the first two may belong to the string. -/
def closing (quote : Char) (s : List Char) : Nat := ((s.take 5).takeWhile (· = quote)).length

/-- Reads a string on several lines, behind the opening quotes. -/
def readLines (quote : Char) (done : List Char) : Nat → List Char → Option (String × List Char)
  | 0, _ => none
  | _ + 1, [] => none
  | fuel + 1, c :: s =>
    let n := closing quote (c :: s)
    if 3 ≤ n then
      some (String.ofList (done.reverse ++ List.replicate (n - 3) quote), (c :: s).drop n)
    else if c = '\\' ∧ quote = '"' then
      match lineBreak? s with
      | some s => readLines quote done fuel s
      | none =>
        match escape? s with
        | some (x, s) => readLines quote (x :: done) fuel s
        | none => none
    else
      match afterNewline? (c :: s) with
      | some s => readLines quote ('\n' :: done) fuel s
      | none => if isPrintable c then readLines quote (c :: done) fuel s else none

/-- Reads a string of any kind, from its opening quotes. -/
def readQuoted (quote : Char) (s : List Char) : Option (String × List Char) :=
  match after? [quote, quote, quote] s with
  | some s => readLines quote [] (s.length + 1) ((afterNewline? s).getD s)
  | none => readLine quote [] (s.length + 1) (s.drop 1)

example : readQuoted '"' "\"a\\tb\" x".toList = some ("a\tb", " x".toList) := by decide +kernel
example : readQuoted '"' "\"\"\"\na\\\n  b\"\"\"\"\"".toList = some ("ab\"\"", []) := by
  decide +kernel

end Playground.Toml
