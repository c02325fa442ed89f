import Playground.Text.Hex
import Playground.Text.Utf8

/-!
# Percent signs

The octets of a text in which some are written as a percent sign and two hexadecimal
digits.  Which octets stand for themselves depends on the place of the text, so
`encode` takes that as a parameter.  `decode?` leaves a percent sign alone that no two
hexadecimal digits follow, and refuses a text whose octets are not UTF-8.
-/

namespace Playground.Text.Percent

/-- A letter, a digit or one of `- . _ ~`. -/
def isUnreserved (b : UInt8) : Bool :=
  let n := b.toNat
  (0x30 ≤ n && n ≤ 0x39) || (0x41 ≤ n && n ≤ 0x5A) || (0x61 ≤ n && n ≤ 0x7A) || n == 0x2D ||
    n == 0x2E || n == 0x5F || n == 0x7E

/-- An octet as it is written. -/
def encodeOctet (keeps : UInt8 → Bool) (b : UInt8) : List Char :=
  if keeps b then [Char.ofNat b.toNat]
  else ['%', upperHex (b.toNat / 16), upperHex (b.toNat % 16)]

/-- A text as it is written where the octets that `keeps` names stand for
themselves. -/
def encode (keeps : UInt8 → Bool) (s : List Char) : List Char :=
  (Utf8.encode s).flatMap (encodeOctet keeps)

/-- The octets that a written text stands for, behind those in `done`, which has
the last one first. -/
def decodeOctets (done : List UInt8) : List UInt8 → List UInt8
  | [] => done.reverse
  | 0x25 :: a :: b :: s =>
    match hexPair? a b with
    | some x => decodeOctets (x :: done) s
    | none => decodeOctets (0x25 :: done) (a :: b :: s)
  | b :: s => decodeOctets (b :: done) s

/-- The octets that a written text stands for. -/
def decode (s : List Char) : List UInt8 := decodeOctets [] (Utf8.encode s)

/-- The text that a written text stands for. -/
def decode? (s : List Char) : Option (List Char) := Utf8.decode? (decode s)

example : encode isUnreserved "a b/é".toList = "a%20b%2F%C3%A9".toList := by decide +kernel
example : decode? "%4".toList = some "%4".toList := by decide +kernel
example : decode? "%41%zz".toList = some "A%zz".toList := by decide +kernel
example : decode? "%ff".toList = none := by decide +kernel

end Playground.Text.Percent
