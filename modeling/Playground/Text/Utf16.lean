/-!
# UTF-16

A text as code units of sixteen bits, where a character above U+FFFF takes two.
`decode?` refuses a surrogate that stands alone.
-/

namespace Playground.Text.Utf16

/-- A high surrogate, the first unit of a pair. -/
def isHigh (u : Nat) : Bool := 0xD800 ≤ u && u < 0xDC00

/-- A low surrogate, the second unit of a pair. -/
def isLow (u : Nat) : Bool := 0xDC00 ≤ u && u < 0xE000

/-- The code point of a pair of surrogates. -/
def pairValue (high low : Nat) : Nat := 0x10000 + (high - 0xD800) * 0x400 + (low - 0xDC00)

/-- The units of a character. -/
def encodeChar (c : Char) : List UInt16 :=
  let n := c.toNat
  if n < 0x10000 then [UInt16.ofNat n]
  else
    [UInt16.ofNat (0xD800 + (n - 0x10000) / 0x400), UInt16.ofNat (0xDC00 + (n - 0x10000) % 0x400)]

/-- The units of a text. -/
def encode (s : List Char) : List UInt16 := s.flatMap encodeChar

/-- A reader of units: the text so far, last character first, and the high
surrogate that waits for its partner. -/
structure Reader where
  /-- The characters read, last first. -/
  text : List Char
  /-- The high surrogate read last, if its partner is still missing. -/
  high : Option Nat
deriving DecidableEq, Repr

/-- Reads one unit, unless it leaves a surrogate alone. -/
def Reader.step (r : Reader) (unit : UInt16) : Option Reader :=
  let u := unit.toNat
  match r.high with
  | some h => if isLow u then some ⟨Char.ofNat (pairValue h u) :: r.text, none⟩ else none
  | none =>
    if isHigh u then some ⟨r.text, some u⟩
    else if isLow u then none
    else some ⟨Char.ofNat u :: r.text, none⟩

/-- The text of well formed units. -/
def decode? (units : List UInt16) : Option (List Char) := do
  let r ← units.foldlM Reader.step ⟨[], none⟩
  if r.high.isSome then none else some r.text.reverse

example : decode? (encode ['a', 'é', '😀']) = some ['a', 'é', '😀'] := by decide
example : decode? [0xD83D] = none := by decide
example : decode? [0xD83D, 0x61] = none := by decide
example : decode? [0xDE00] = none := by decide

end Playground.Text.Utf16
