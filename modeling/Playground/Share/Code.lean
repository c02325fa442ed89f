/-!
# Codes

A compressed text is a sequence of codes, numbers that are written with a given
number of bits.  The number of bits grows with the dictionary: `Width` counts down
the codes that still fit, and doubles the supply each time it takes one bit more.
The writer and the reader of a text keep the same `Width`.

    0        a unit of eight bits follows
    1        a unit of sixteen bits follows
    2        the text ends
    3, ...   a phrase of the dictionary
-/

namespace Playground.Share

/-- A number with the number of bits it takes. -/
structure Code where
  /-- The number of bits. -/
  width : Nat
  /-- The number, below `2 ^ width`. -/
  value : Nat
deriving DecidableEq, Repr

/-- The bits of a code, least significant first. -/
def Code.bits (c : Code) : List Bool := (List.range c.width).map c.value.testBit

/-- The number of some bits, least significant first. -/
def bitsValue : List Bool → Nat
  | [] => 0
  | b :: bs => b.toNat + 2 * bitsValue bs

/-- Reads a code of a width. -/
def readCode? (width : Nat) (bits : List Bool) : Option (Nat × List Bool) :=
  let code := bits.take width
  if code.length = width then some (bitsValue code, bits.drop width) else none

theorem length_of_readCode? {width n : Nat} {bits rest : List Bool}
    (h : readCode? width bits = some (n, rest)) : bits.length = width + rest.length := by
  unfold readCode? at h
  simp only at h
  split at h
  · next hw =>
    cases h
    rw [List.length_take] at hw
    rw [List.length_drop]
    omega
  · cases h

/-- The code that announces a unit of eight bits. -/
def narrowMark : Nat := 0

/-- The code that announces a unit of sixteen bits. -/
def wideMark : Nat := 1

/-- The code that ends a text. -/
def endMark : Nat := 2

/-- The code of the first phrase of the dictionary. -/
def firstPhrase : Nat := 3

/-- The number of bits of the next code. -/
structure Width where
  /-- The number of bits. -/
  bits : Nat
  /-- How many more entries there may be before a bit is added. -/
  room : Nat
  /-- A code takes at least one bit. -/
  bits_pos : 0 < bits
deriving DecidableEq, Repr

namespace Width

/-- The width at the start of a text. -/
def start : Width := ⟨2, 2, by decide⟩

/-- The width after one more entry. -/
def grow (w : Width) : Width :=
  if w.room ≤ 1 then ⟨w.bits + 1, 1 <<< w.bits, by omega⟩ else ⟨w.bits, w.room - 1, w.bits_pos⟩

theorem bits_le_bits_grow (w : Width) : w.bits ≤ w.grow.bits := by
  unfold grow
  split <;> simp

end Width

end Playground.Share
