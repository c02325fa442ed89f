/-!
# Text of bits

Bits are written six at a time, the first bit most significant, as the 64 letters
of `alphabet`.  `pack` fills the last letter with zeros, of which there is always
at least one, and then rounds the length up with padding signs.  `unpack?` gives
the bits of a text without its very last bit: reading a bit means that one more
bit follows it.
-/

namespace Playground.Share

/-- The letters, in the order of their values. -/
def alphabet : List Char :=
  "ABCDEFGHIJKLMNOPQRSTUVWXYZabcdefghijklmnopqrstuvwxyz0123456789+/".toList

/-- The sign that pads a text. -/
def padding : Char := '='

/-- The letter of a value below 64. -/
def letter (value : Nat) : Char := alphabet[value]?.getD padding

/-- The value of a letter.  The padding sign counts as zero. -/
def letterValue? (c : Char) : Option Nat :=
  let n := c.toNat
  if 0x41 ≤ n ∧ n ≤ 0x5A then some (n - 0x41)
  else if 0x61 ≤ n ∧ n ≤ 0x7A then some (n - 0x61 + 26)
  else if 0x30 ≤ n ∧ n ≤ 0x39 then some (n - 0x30 + 52)
  else if c = '+' then some 62
  else if c = '/' then some 63
  else if c = padding then some 0
  else none

/-! ## Packing -/

/-- A writer of bits: the letters that are full, last first, and the one that is
being filled. -/
structure Packer where
  /-- The values of the full letters, last first. -/
  full : List Nat
  /-- The value of the bits of the open letter. -/
  value : Nat
  /-- The number of bits of the open letter, less than six. -/
  count : Nat
deriving DecidableEq, Repr

/-- Writes a bit. -/
def Packer.push (p : Packer) (bit : Bool) : Packer :=
  let value := 2 * p.value + bit.toNat
  if p.count = 5 then ⟨value :: p.full, 0, 0⟩ else ⟨p.full, value, p.count + 1⟩

/-- The values of all letters, with zeros after the last bit. -/
def Packer.finish (p : Packer) : List Nat :=
  (p.value <<< (6 - p.count) :: p.full).reverse

/-- How many padding signs follow so many letters.  A number that is no multiple
of four is rounded up to a multiple of four, and gets one sign more. -/
def paddingLength (letters : Nat) : Nat := if letters % 4 = 0 then 0 else 5 - letters % 4

/-- The text of bits. -/
def pack (bits : List Bool) : List Char :=
  let letters := ((bits.foldl Packer.push ⟨[], 0, 0⟩).finish).map letter
  letters ++ List.replicate (paddingLength letters.length) padding

/-! ## Unpacking -/

/-- The six bits of a value. -/
def sixBits (value : Nat) : List Bool :=
  [value.testBit 5, value.testBit 4, value.testBit 3, value.testBit 2, value.testBit 1,
    value.testBit 0]

/-- The bits of a text of letters that can be read. -/
def unpack? (text : List Char) : Option (List Bool) := do
  let values ← text.mapM letterValue?
  return (values.flatMap sixBits).dropLast

example : pack [false, true] = "Q====".toList := by decide +kernel
example : (unpack? "Q=".toList).map List.length = some 11 := by decide +kernel
example : alphabet.mapM letterValue? = some (List.range 64) := by decide +kernel

end Playground.Share
