/-!
# Punycode

The ASCII form of a label with other characters in it.  The ASCII characters come
first, and behind a hyphen the others follow as numbers that say how far to go from
one insertion to the next, in the order of the characters.
-/

namespace Playground.Url.Punycode

/-- A digit of base 36. -/
def digit (n : Nat) : Char := if n < 26 then Char.ofNat (0x61 + n) else Char.ofNat (0x30 + n - 26)

/-- The threshold at a place of a number. -/
def threshold (bias place : Nat) : Nat := min (max (36 * (place + 1) - bias) 1) 26

/-- The digits of a number from a place on. -/
def digits (bias place q : Nat) : List Char :=
  if q < threshold bias place then [digit q]
  else
    digit (threshold bias place + (q - threshold bias place) % (36 - threshold bias place)) ::
      digits bias (place + 1) ((q - threshold bias place) / (36 - threshold bias place))
termination_by q
decreasing_by
  have h1 : 1 ≤ threshold bias place := by unfold threshold; omega
  have h2 : (q - threshold bias place) / (36 - threshold bias place) ≤ q - threshold bias place :=
    Nat.div_le_self _ _
  omega

/-- Takes out the factors that make a number large, and counts 36 for each. -/
def shrink (count delta : Nat) : Nat × Nat :=
  if h : 455 < delta then shrink (count + 36) (delta / 35) else (count, delta)
termination_by delta
decreasing_by omega

/-- The bias after a number. -/
def adapt (delta points : Nat) (isFirst : Bool) : Nat :=
  let delta := if isFirst then delta / 700 else delta / 2
  let (count, delta) := shrink 0 (delta + delta / points)
  count + 36 * delta / (delta + 38)

/-- A writer of insertions. -/
structure Writer where
  /-- The text so far. -/
  text : List Char
  /-- The way since the last insertion. -/
  delta : Nat
  /-- The bias. -/
  bias : Nat
  /-- The characters written so far. -/
  handled : Nat

/-- Goes past a character when insertions of the code point `n` are written. -/
def Writer.step (basic n : Nat) (w : Writer) (c : Char) : Writer :=
  if c.toNat < n then { w with delta := w.delta + 1 }
  else if c.toNat = n then {
    text := w.text ++ digits w.bias 0 w.delta
    delta := 0
    bias := adapt w.delta (w.handled + 1) (w.handled = basic)
    handled := w.handled + 1 }
  else w

/-- The code points beyond ASCII, in order. -/
def others (label : List Char) : List Nat :=
  (((label.map Char.toNat).filter fun n => !decide (n < 128)).mergeSort).eraseDups

/-- The ASCII form of a label. -/
def encode (label : List Char) : List Char :=
  let ascii := label.filter fun c => c.toNat < 128
  let start : Writer := ⟨ascii ++ (if ascii = [] then [] else ['-']), 0, 72, ascii.length⟩
  let (w, _) := (others label).foldl (fun (w, last) n =>
    let w := { w with delta := w.delta + (n - last) * (w.handled + 1) }
    let w := label.foldl (Writer.step ascii.length n) w
    ({ w with delta := w.delta + 1 }, n + 1)) (start, 128)
  w.text

example : encode "bücher".toList = "bcher-kva".toList := by cbv

end Playground.Url.Punycode
