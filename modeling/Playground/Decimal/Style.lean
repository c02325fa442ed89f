import Playground.Decimal.Shortest

/-!
# Styles of writing a double

A double is written with the digits of its shortest decimal.  A style says in
which range of magnitudes all places are written out, and whether a whole number
ends in `.0`.  Outside of the range there is one digit before the point and an
exponent behind an `e`.
-/

namespace Playground.Decimal

/-- How a double is written. -/
structure Style where
  /-- The magnitudes at which all places are written out, as closed bounds on the
  number of places before the point.  Without bounds they always are. -/
  places : Option (Int × Int)
  /-- A whole number ends in `.0`. -/
  pointed : Bool
deriving DecidableEq, Repr

namespace Style

/-- All places and nothing else. -/
def plain : Style := ⟨none, false⟩

/-- With a point, and with an exponent from `1e16` and below `1e-4`. -/
def pointed16 : Style := ⟨some (-3, 16), true⟩

/-- Digits with a point behind the first `places` of them. -/
def writePlaces (style : Style) (digits : List Char) (places : Int) : List Char :=
  if places ≤ 0 then '0' :: '.' :: List.replicate (-places).toNat '0' ++ digits
  else if (digits.length : Int) ≤ places then
    digits ++ List.replicate (places.toNat - digits.length) '0' ++
      (if style.pointed then ['.', '0'] else [])
  else digits.take places.toNat ++ '.' :: digits.drop places.toNat

/-- Digits with a point behind the first one, and an exponent. -/
def writeExponent (digits : List Char) (places : Int) : List Char :=
  let fraction := if digits.length ≤ 1 then [] else '.' :: digits.drop 1
  digits.take 1 ++ fraction ++ 'e' :: (toString (places - 1)).toList

/-- The text of a decimal above zero. -/
def write (style : Style) (d : Numeral) : List Char :=
  let all := Nat.toDigits 10 d.digits
  let places : Int := all.length + d.exponent
  let digits := (all.reverse.dropWhile (· = '0')).reverse
  match style.places with
  | none => style.writePlaces digits places
  | some (least, greatest) =>
    if least ≤ places ∧ places ≤ greatest then style.writePlaces digits places
    else writeExponent digits places

/-- The text of a double. -/
def text (style : Style) : Double → String
  | .nan => "NaN"
  | .infinite negative => if negative then "-inf" else "inf"
  | .finite negative significand exponent =>
    let body :=
      if significand = 0 then if style.pointed then ['0', '.', '0'] else ['0']
      else style.write (shortest significand exponent)
    String.ofList (if negative then '-' :: body else body)

end Style

example : Style.plain.text (.finite false (2 ^ 52) 28) = "1208925819614629200000000" := by
  decide +kernel
example : Style.pointed16.text (.finite true 5 0) = "-5.0" := by decide +kernel
example : Style.pointed16.text (.finite false (2 ^ 52) 28) = "1.2089258196146292e24" := by
  decide +kernel

end Playground.Decimal
