import Playground.Text.Digit

/-!
# JSON values

A value as it is written: numbers keep their sign and whether they are integers,
and objects keep the order and the repetition of their keys.  A string may be
written correctly and still be no text, since an escape can stand for half of a
surrogate pair and the octets between the quotes need not be UTF-8.  Such a string
is `illFormed`, and such a key is `none`.
-/

namespace Playground

namespace Json

/-- A number as it is written, `± digits · 10 ^ exponent`. -/
structure Number where
  /-- It has a minus sign. -/
  negative : Bool
  /-- Its digits, without the point. -/
  digits : Nat
  /-- The power of ten. -/
  exponent : Int
  /-- It is written without a point and without an exponent. -/
  isInteger : Bool
deriving DecidableEq, Repr

end Json

/-- A JSON value. -/
inductive Json where
  | null
  | bool (b : Bool)
  | number (n : Json.Number)
  | text (s : String)
  /-- A string that is no text. -/
  | illFormed
  | array (elements : List Json)
  | object (members : List (Option String × Json))
deriving Repr, Inhabited

namespace Json

/-- The number of a natural number. -/
def Number.ofNat (n : Nat) : Number := ⟨false, n, 0, true⟩

/-- The number below `wordBound` that is written as an unsigned integer. -/
def Number.word? (n : Number) : Option Nat :=
  if n.isInteger && !n.negative && n.digits < Text.wordBound then some n.digits else none

/-- The integer of 32 bits that is written as an integer.  A zero with a sign is
none. -/
def Number.int32? (n : Number) : Option Int :=
  if !n.isInteger then none
  else if n.negative then if 0 < n.digits ∧ n.digits ≤ 0x80000000 then some (-n.digits) else none
  else if n.digits < 0x80000000 then some n.digits
  else none

/-- The number is too large for a double: it rounds to infinity. -/
def Number.isHuge (n : Number) : Bool :=
  if n.digits = 0 then false
  else
    let places := n.exponent + ((Nat.toDigits 10 n.digits).length : Int)
    if places < 300 then false
    else if 400 < places then true
    else
      let limit := (1 <<< 1024) - (1 <<< 970)
      if 0 ≤ n.exponent then limit ≤ n.digits * Nat.pow 10 n.exponent.toNat
      else limit * Nat.pow 10 (-n.exponent).toNat ≤ n.digits

/-- The value of a natural number. -/
def ofNat (n : Nat) : Json := .number (.ofNat n)

/-- The value of an integer. -/
def ofInt (n : Int) : Json := .number ⟨n < 0, n.natAbs, 0, true⟩

/-- The object with these members. -/
def ofMembers (ms : List (String × Json)) : Json := .object (ms.map fun m => (some m.1, m.2))

/-- The value or null. -/
def ofOption {α : Type} (f : α → Json) : Option α → Json
  | some a => f a
  | none => .null

/-- How deep arrays and objects are nested in a value. -/
def depth : Json → Nat
  | .array elements => 1 + depths elements
  | .object members => 1 + memberDepths members
  | _ => 0
where
  /-- The greatest depth of some values. -/
  depths : List Json → Nat
    | [] => 0
    | v :: vs => max v.depth (depths vs)
  /-- The greatest depth of the values of some members. -/
  memberDepths : List (Option String × Json) → Nat
    | [] => 0
    | (_, v) :: ms => max v.depth (memberDepths ms)

/-- Every string of the value is a text and every number fits a double. -/
def isPlain : Json → Bool
  | .number n => !n.isHuge
  | .illFormed => false
  | .array elements => arePlain elements
  | .object members => membersArePlain members
  | _ => true
where
  /-- `isPlain` for some values. -/
  arePlain : List Json → Bool
    | [] => true
    | v :: vs => v.isPlain && arePlain vs
  /-- `isPlain` for some members. -/
  membersArePlain : List (Option String × Json) → Bool
    | [] => true
    | (k, v) :: ms => k.isSome && v.isPlain && membersArePlain ms

end Json

end Playground
