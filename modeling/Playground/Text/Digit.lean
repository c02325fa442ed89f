/-!
# Decimal digits

The characters with the Unicode general category `Nd`, the decimal digits of
every script, and the reading of a run of them as a number.  A run may match as
digits and still name no number: only the ten ASCII digits have a value here, and
the value has to be smaller than `wordBound`.
-/

namespace Playground.Text

/-- The zero of each script.  Its digits are the ten code points from there. -/
def digitZeros : List Nat :=
  [0x30, 0x660, 0x6F0, 0x7C0, 0x966, 0x9E6, 0xA66, 0xAE6, 0xB66, 0xBE6, 0xC66, 0xCE6, 0xD66,
    0xDE6, 0xE50, 0xED0, 0xF20, 0x1040, 0x1090, 0x17E0, 0x1810, 0x1946, 0x19D0, 0x1A80, 0x1A90,
    0x1B50, 0x1BB0, 0x1C40, 0x1C50, 0xA620, 0xA8D0, 0xA900, 0xA9D0, 0xA9F0, 0xAA50, 0xABF0,
    0xFF10, 0x104A0, 0x10D30, 0x10D40, 0x11066, 0x110F0, 0x11136, 0x111D0, 0x112F0, 0x11450,
    0x114D0, 0x11650, 0x116C0, 0x116D0, 0x116DA, 0x11730, 0x118E0, 0x11950, 0x11BF0, 0x11C50,
    0x11D50, 0x11DA0, 0x11F50, 0x16130, 0x16A60, 0x16AC0, 0x16B50, 0x16D70, 0x1CCF0, 0x1D7CE,
    0x1D7D8, 0x1D7E2, 0x1D7EC, 0x1D7F6, 0x1E140, 0x1E2F0, 0x1E4F0, 0x1E5F1, 0x1E950, 0x1FBF0]

/-- The character is a decimal digit of some script. -/
def isDigit (c : Char) : Bool :=
  digitZeros.any fun z => z ≤ c.toNat && c.toNat < z + 10

/-- Line numbers, columns and counters are smaller than this. -/
def wordBound : Nat := 0x10000000000000000

/-- The number that a run of ASCII digits denotes, most significant digit first. -/
def digitsValue (ds : List Char) : Nat :=
  ds.foldl (fun n d => 10 * n + (d.toNat - '0'.toNat)) 0

/-- The number named by a run of digits, if all of them are ASCII digits and it is
smaller than `wordBound`. -/
def readWord? (ds : List Char) : Option Nat :=
  if ds ≠ [] ∧ ds.all Char.isDigit ∧ digitsValue ds < wordBound then some (digitsValue ds)
  else none

/-- The decimal digits of a number. -/
def wordDigits (n : Nat) : List Char := Nat.toDigits 10 n

theorem isDigit_of_ascii {c : Char} (h : c.isDigit = true) : isDigit c = true := by
  simp only [Char.isDigit, Bool.and_eq_true, decide_eq_true_eq, UInt32.le_iff_toNat_le] at h
  have h1 : 48 ≤ c.toNat := h.1
  have h2 : c.toNat ≤ 57 := h.2
  simp only [isDigit, digitZeros, List.any_cons, Bool.or_eq_true, Bool.and_eq_true,
    decide_eq_true_eq]
  exact Or.inl ⟨by omega, by omega⟩

theorem readWord?_lt {ds : List Char} {n : Nat} (h : readWord? ds = some n) : n < wordBound := by
  unfold readWord? at h
  split at h
  · next hc => cases h; exact hc.2.2
  · cases h

end Playground.Text
