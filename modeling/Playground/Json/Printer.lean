import Playground.Json.Value
import Playground.Text.Hex

/-!
# Printing JSON

The compact text of a value, without blanks.  A string escapes quotes, backslashes
and control characters, with the short escape where there is one, and leaves every
other character as it is.
-/

namespace Playground.Json

open Text

/-- A character as it stands in a string. -/
def escapeChar (c : Char) : List Char :=
  if c = '"' then ['\\', '"']
  else if c = '\\' then ['\\', '\\']
  else if c = '\x08' then ['\\', 'b']
  else if c = '\x0c' then ['\\', 'f']
  else if c = '\n' then ['\\', 'n']
  else if c = '\r' then ['\\', 'r']
  else if c = '\t' then ['\\', 't']
  else if c.toNat < 0x20 then ['\\', 'u', '0', '0', lowerHex (c.toNat / 16), lowerHex (c.toNat % 16)]
  else [c]

/-- A text in quotes. -/
def quoted (s : List Char) : List Char := '"' :: (s.flatMap escapeChar ++ ['"'])

/-- The text of a number. -/
def Number.plain (n : Number) : List Char :=
  (if n.negative then ['-'] else []) ++ Nat.toDigits 10 n.digits ++
    (if n.isInteger then []
     else 'e' :: (if n.exponent < 0 then ['-'] else []) ++ Nat.toDigits 10 n.exponent.natAbs)

mutual

/-- The compact text of a value. -/
def compact : Json → List Char
  | .null => ['n', 'u', 'l', 'l']
  | .bool true => ['t', 'r', 'u', 'e']
  | .bool false => ['f', 'a', 'l', 's', 'e']
  | .number n => n.plain
  | .text s => quoted s.toList
  | .illFormed => quoted []
  | .array [] => ['[', ']']
  | .array (v :: vs) => '[' :: compact v ++ compactElements vs ++ [']']
  | .object [] => ['\x7b', '\x7d']
  | .object ((k, v) :: ms) =>
    '\x7b' :: quoted (k.getD "").toList ++ ':' :: compact v ++ compactMembers ms ++ ['\x7d']

/-- The elements behind the first one. -/
def compactElements : List Json → List Char
  | [] => []
  | v :: vs => ',' :: compact v ++ compactElements vs

/-- The members behind the first one. -/
def compactMembers : List (Option String × Json) → List Char
  | [] => []
  | (k, v) :: ms =>
    ',' :: quoted (k.getD "").toList ++ ':' :: compact v ++ compactMembers ms

end

/-- The compact text of a value. -/
def plain (v : Json) : String := String.ofList v.compact

end Playground.Json
