/-!
# The shortest decimal of a double

A finite double is an exact fraction, and the reals that round to it are an
interval around it, with its ends if the significand is even.  `shortest` looks for
a decimal in that interval, with one digit first and then with one more each time.
With a given number of digits only the two neighbours of the double can be in the
interval.  If both are, the nearer one counts, and of two that are equally near the
larger one.
-/

namespace Playground.Decimal

/-- What a double is. -/
inductive Double where
  | nan
  | infinite (negative : Bool)
  /-- The number `± significand · 2 ^ exponent`. -/
  | finite (negative : Bool) (significand : Nat) (exponent : Int)
deriving DecidableEq, Repr

/-- The exponent of the least double above zero. -/
def leastExponent : Int := -1074

/-- The bit in front of the fraction, which is one and left out. -/
def hiddenBit : Nat := 0x10000000000000

/-- The double of 64 bits: a sign, eleven bits of exponent and 52 bits of
fraction. -/
def Double.ofBits (bits : Nat) : Double :=
  let negative := bits.testBit 63
  let biased := bits / hiddenBit % 2048
  let fraction := bits % hiddenBit
  if biased = 2047 then if fraction = 0 then .infinite negative else .nan
  else if biased = 0 then .finite negative fraction leastExponent
  else .finite negative (hiddenBit + fraction) (leastExponent + ((biased - 1 : Nat) : Int))

/-- The double of a machine number. -/
def Double.ofFloat (x : Float) : Double := .ofBits x.toBits.toNat

/-- A decimal, `digits · 10 ^ exponent`. -/
structure Numeral where
  /-- The digits. -/
  digits : Nat
  /-- The power of ten. -/
  exponent : Int
deriving DecidableEq, Repr

/-- A finite double above zero and the reals that round to it.  All of `low`,
`value` and `high` count quarters of the last place of the double, `2 ^ unit`. -/
structure Rounding where
  /-- The lower end. -/
  low : Nat
  /-- The double. -/
  value : Nat
  /-- The upper end. -/
  high : Nat
  /-- The unit. -/
  unit : Int
  /-- The ends round to the double too. -/
  closed : Bool
deriving DecidableEq, Repr

/-- The reals that round to a double.  Below a power of two the doubles are twice
as dense. -/
def Rounding.of (significand : Nat) (exponent : Int) : Rounding where
  low := if significand = hiddenBit ∧ leastExponent < exponent then 4 * significand - 1
    else 4 * significand - 2
  value := 4 * significand
  high := 4 * significand + 2
  unit := exponent - 2
  closed := significand % 2 = 0

/-- A grid of decimals with a fixed exponent.  One step of it is `step` and one unit
of the rounding is `unit`, measured in the same small amount. -/
structure Grid where
  /-- The power of ten of one step. -/
  exponent : Int
  /-- The size of a step. -/
  step : Nat
  /-- The size of a unit. -/
  unit : Nat
deriving DecidableEq, Repr

/-- The grid of a power of ten, for a rounding with a unit. -/
def Grid.of (unit exponent : Int) : Grid where
  exponent
  step := Nat.pow 2 (-unit).toNat * Nat.pow 10 exponent.toNat
  unit := Nat.pow 2 unit.toNat * Nat.pow 10 (-exponent).toNat

/-- The decimal of so many steps rounds to the double. -/
def Grid.hits (g : Grid) (r : Rounding) (steps : Nat) : Bool :=
  let d := steps * g.step
  (r.low * g.unit < d || (r.closed && r.low * g.unit = d)) &&
    (d < r.high * g.unit || (r.closed && d = r.high * g.unit))

/-- The neighbour of the double on the grid that rounds to it. -/
def Grid.nearest? (g : Grid) (r : Rounding) : Option Nat :=
  let below := r.value * g.unit / g.step
  let past := r.value * g.unit % g.step
  if g.hits r below && g.hits r (below + 1) then
    some (if 2 * past < g.step then below else below + 1)
  else if g.hits r below then some below
  else if g.hits r (below + 1) then some (below + 1)
  else none

/-- The power of ten just above a double. -/
def Rounding.magnitude (r : Rounding) : Int :=
  let g := Grid.of r.unit 0
  if g.step ≤ r.value * g.unit then ((Nat.toDigits 10 (r.value * g.unit / g.step)).length : Int)
  else
    let shift := (List.range 400).find? fun k => g.step ≤ r.value * g.unit * Nat.pow 10 (k + 1)
    Int.negOfNat (shift.getD 400)

/-- The most digits that a double can need. -/
def maxDigits : Nat := 17

/-- The shortest decimal that rounds to a finite double above zero. -/
def shortest (significand : Nat) (exponent : Int) : Numeral :=
  let r := Rounding.of significand exponent
  let top := r.magnitude
  let found := (List.range maxDigits).findSome? fun n =>
    let g := Grid.of r.unit (top - (n + 1 : Nat))
    (g.nearest? r).map fun steps => (⟨steps, g.exponent⟩ : Numeral)
  found.getD ⟨0, 0⟩

example : shortest 1 leastExponent = ⟨5, -324⟩ := by decide +kernel
example : shortest (2 ^ 52 + 2 ^ 51) (-52) = ⟨15, -1⟩ := by decide +kernel
example : Double.ofBits 0x4059000000000000 = .finite false (100 * 2 ^ 46) (-46) := by decide +kernel

end Playground.Decimal
