/-!
# UTF-8

A machine that steps over octets.  It gives one item per well formed character and
one per ill formed part, where an ill formed part is the longest start of a
character that the next octet does not continue.  `decode?` refuses ill formed
input and `decodeLossy` writes the replacement character for each such part.
-/

namespace Playground.Text.Utf8

/-- One item of a decoded text. -/
inductive Item where
  /-- A well formed character. -/
  | char (c : Char)
  /-- An ill formed part. -/
  | bad
deriving DecidableEq, Repr

/-- A character of which some octets are still missing. -/
structure Partial where
  /-- The bits read so far. -/
  bits : Nat
  /-- The octets still missing, at least one. -/
  missing : Nat
  /-- The least next octet. -/
  low : Nat
  /-- The greatest next octet. -/
  high : Nat
deriving DecidableEq, Repr

/-- What the first octet of a character says. -/
inductive Lead where
  /-- An item of its own. -/
  | item (i : Item)
  /-- The start of a longer character. -/
  | open (p : Partial)
deriving DecidableEq, Repr

/-- Reads the first octet of a character.  The bounds on the second octet keep out
overlong forms, surrogates and everything above U+10FFFF. -/
def lead (b : Nat) : Lead :=
  if b < 0x80 then .item (.char (Char.ofNat b))
  else if b < 0xC2 then .item .bad
  else if b < 0xE0 then .open ⟨b - 0xC0, 1, 0x80, 0xBF⟩
  else if b = 0xE0 then .open ⟨0, 2, 0xA0, 0xBF⟩
  else if b = 0xED then .open ⟨0x0D, 2, 0x80, 0x9F⟩
  else if b < 0xF0 then .open ⟨b - 0xE0, 2, 0x80, 0xBF⟩
  else if b = 0xF0 then .open ⟨0, 3, 0x90, 0xBF⟩
  else if b < 0xF4 then .open ⟨b - 0xF0, 3, 0x80, 0xBF⟩
  else if b = 0xF4 then .open ⟨4, 3, 0x80, 0x8F⟩
  else .item .bad

/-- The machine: the items found so far, last first, and the character that is
being read. -/
structure State where
  /-- The items found, last first. -/
  found : List Item
  /-- The character that is being read. -/
  current : Option Partial
deriving DecidableEq, Repr

/-- Reads an octet that starts a character. -/
def State.start (found : List Item) (b : Nat) : State :=
  match lead b with
  | .item i => ⟨i :: found, none⟩
  | .open p => ⟨found, some p⟩

/-- Reads one octet. -/
def State.step (st : State) (octet : UInt8) : State :=
  match st.current with
  | none => .start st.found octet.toNat
  | some p =>
    if p.low ≤ octet.toNat ∧ octet.toNat ≤ p.high then
      let bits := p.bits * 64 + octet.toNat % 64
      if p.missing ≤ 1 then ⟨.char (Char.ofNat bits) :: st.found, none⟩
      else ⟨st.found, some ⟨bits, p.missing - 1, 0x80, 0xBF⟩⟩
    else .start (.bad :: st.found) octet.toNat

/-- The items of a text, in order.  A character cut off by the end is ill formed. -/
def items (bytes : List UInt8) : List Item :=
  let st := bytes.foldl State.step ⟨[], none⟩
  (if st.current.isSome then .bad :: st.found else st.found).reverse

/-- The character of an item, if it is well formed. -/
def Item.char? : Item → Option Char
  | .char c => some c
  | .bad => none

/-- The character shown for an item. -/
def Item.shown : Item → Char
  | .char c => c
  | .bad => '\ufffd'

/-- The text of well formed octets. -/
def decode? (bytes : List UInt8) : Option (List Char) := (items bytes).mapM Item.char?

/-- The text of any octets, with the replacement character for each ill formed
part. -/
def decodeLossy (bytes : List UInt8) : List Char := (items bytes).map Item.shown

/-- The octets of a character. -/
def encodeChar (c : Char) : List UInt8 :=
  let n := c.toNat
  if n < 0x80 then [UInt8.ofNat n]
  else if n < 0x800 then [UInt8.ofNat (0xC0 + n / 64), UInt8.ofNat (0x80 + n % 64)]
  else if n < 0x10000 then
    [UInt8.ofNat (0xE0 + n / 4096), UInt8.ofNat (0x80 + n / 64 % 64), UInt8.ofNat (0x80 + n % 64)]
  else
    [UInt8.ofNat (0xF0 + n / 262144), UInt8.ofNat (0x80 + n / 4096 % 64),
      UInt8.ofNat (0x80 + n / 64 % 64), UInt8.ofNat (0x80 + n % 64)]

/-- The octets of a text. -/
def encode (s : List Char) : List UInt8 := s.flatMap encodeChar

/-- The number of octets of a text. -/
def size (s : List Char) : Nat := s.foldr (fun c n => (encodeChar c).length + n) 0

theorem length_encode (s : List Char) : (encode s).length = size s := by
  induction s with
  | nil => rfl
  | cons c s ih =>
    rw [encode] at ih
    rw [encode, List.flatMap_cons, List.length_append, ih, size, size, List.foldr_cons]

/-! ## Tests -/

example : decode? [0x61, 0xC3, 0xA9] = some ['a', 'é'] := by decide
example : decode? [0xED, 0xA0, 0x80] = none := by decide
example : decodeLossy [0xE2, 0x99, 0x61] = ['\ufffd', 'a'] := by decide
example : encode ['é', '♞', '😀'] =
    [0xC3, 0xA9, 0xE2, 0x99, 0x9E, 0xF0, 0x9F, 0x98, 0x80] := by decide

end Playground.Text.Utf8
