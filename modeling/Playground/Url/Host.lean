import Playground.Text.Percent
import Playground.Url.Domain

/-!
# Hosts

The host of an address: a name, an address of 32 bits in four numbers, an address of
128 bits in brackets, or any text where the scheme of the address says nothing about
its form.  A domain whose last part is a number has to be an address of 32 bits.
-/

namespace Playground.Url

open Text

/-- The host of an address. -/
inductive Host where
  /-- A name, in ASCII and lower case. -/
  | name (s : List Char)
  /-- An address of 32 bits. -/
  | ipv4 (address : Nat)
  /-- An address of 128 bits, in eight pieces. -/
  | ipv6 (pieces : List Nat)
  /-- A text of any form. -/
  | verbatim (s : List Char)
deriving DecidableEq, Repr

/-! ## Numbers -/

/-- The value of a digit of base sixteen. -/
def digitValue? (c : Char) : Option Nat :=
  if c.toNat < 128 then hexValue? (UInt8.ofNat c.toNat) else none

/-- The number of digits of a base, where no digits mean zero. -/
def numberOf? (base : Nat) (ds : List Char) : Option Nat := do
  let vs ← ds.mapM digitValue?
  if vs.all (· < base) then some (vs.foldl (fun n v => base * n + v) 0) else none

/-- The number of a part of an address, written in base ten, eight or sixteen. -/
def partValue? (s : List Char) : Option Nat :=
  match s with
  | [] => none
  | '0' :: x :: ds => if x = 'x' ∨ x = 'X' then numberOf? 16 ds else numberOf? 8 (x :: ds)
  | s => numberOf? 10 s

/-! ## Addresses of 32 bits -/

/-- The parts of a name, without an empty one at the end. -/
def nameParts (s : List Char) : List (List Char) :=
  let parts := splitOn '.' s
  if 1 < parts.length ∧ parts.getLast? = some [] then parts.dropLast else parts

/-- The last part of a name is a number. -/
def endsInNumber (s : List Char) : Bool :=
  match (nameParts s).getLast? with
  | none => false
  | some part => (part ≠ [] && part.all Char.isDigit) || (partValue? part).isSome

/-- The address that up to four numbers mean.  The last one fills the rest. -/
def ipv4Value? (parts : List Nat) : Option Nat :=
  match parts.getLast? with
  | none => none
  | some last =>
    let room := 1 <<< (8 * (5 - parts.length))
    if parts.length ≤ 4 ∧ parts.dropLast.all (· < 256) ∧ last < room then
      some (parts.dropLast.foldl (fun n v => 256 * n + v) 0 * room + last)
    else none

/-- The address of 32 bits that a name means. -/
def ipv4? (s : List Char) : Option Nat := do ipv4Value? (← (nameParts s).mapM partValue?)

/-! ## Addresses of 128 bits -/

/-- The two pieces that an address in four numbers fills. -/
def embedded? (s : List Char) : Option (List Nat) := do
  let parts := splitOn '.' s
  let numbers ← parts.mapM fun p =>
    if p = [] ∨ !p.all Char.isDigit ∨ (p.head? = some '0' ∧ 1 < p.length) then none
    else numberOf? 10 p
  if numbers.length = 4 ∧ numbers.all (· < 256) then do
    let n ← ipv4Value? numbers
    some [n / 0x10000, n % 0x10000]
  else none

/-- A piece in base sixteen. -/
def piece? (s : List Char) : Option Nat :=
  if s = [] ∨ 4 < s.length then none else numberOf? 16 s

/-- The pieces between colons. -/
def pieces? (s : List Char) : Option (List Nat) :=
  if s = [] then some []
  else
    let parts := splitOn ':' s
    match parts.getLast? with
    | none => none
    | some last => do
      let front ← parts.dropLast.mapM piece?
      let back ← if last.contains '.' then embedded? last else (piece? last).map ([·])
      some (front ++ back)

/-- The text before and after the first two colons in a row. -/
def splitGap? : List Char → Option (List Char × List Char)
  | ':' :: ':' :: s => some ([], s)
  | c :: s => (splitGap? s).map fun p => (c :: p.1, p.2)
  | [] => none

/-- The pieces of an address of 128 bits.  Two colons in a row stand for the zeros
that are missing. -/
def ipv6? (s : List Char) : Option (List Nat) :=
  match splitGap? s with
  | none => do
    let ps ← pieces? s
    if ps.length = 8 then some ps else none
  | some (a, b) => do
    if a.contains '.' then none
    let front ← pieces? a
    let back ← pieces? b
    if front.length + back.length < 8 then
      some (front ++ List.replicate (8 - front.length - back.length) 0 ++ back)
    else none

/-! ## Reading -/

/-- The host that a name means. -/
def ofName? (toAscii : ToAscii) (s : List Char) : Option Host := do
  let ascii ← toAscii (Utf8.decodeLossy (Percent.decode s))
  if endsInNumber ascii then (ipv4? ascii).map .ipv4 else some (.name ascii)

/-- The octet is no control and within ASCII. -/
def isPrintable (b : UInt8) : Bool := 0x20 ≤ b && b ≤ 0x7E

/-- The host of an address of which the scheme is known (`isSpecial`) or not. -/
def Host.read? (toAscii : ToAscii) (isSpecial : Bool) (s : List Char) : Option Host :=
  match s with
  | '[' :: r =>
    match r.getLast? with
    | some ']' => (ipv6? r.dropLast).map .ipv6
    | _ => none
  | s =>
    if isSpecial then ofName? toAscii s
    else if s.any isForbidden then none
    else some (.verbatim (Percent.encode isPrintable s))

/-! ## Writing -/

/-- The text of a piece. -/
def pieceText (n : Nat) : List Char := Nat.toDigits 16 n

/-- The length of the run of zeros at the start. -/
def zeros (ps : List Nat) : Nat := (ps.takeWhile (· = 0)).length

/-- The place and the length of the first of the longest runs of zeros. -/
def longestZeros (ps : List Nat) : Nat × Nat :=
  (List.range ps.length).foldl (fun best i =>
    if best.2 < zeros (ps.drop i) then (i, zeros (ps.drop i)) else best) (0, 0)

/-- Pieces with colons between them. -/
def piecesText (ps : List Nat) : List Char := join ':' (ps.map pieceText)

/-- The text of an address of 128 bits, with the longest run of zeros left out. -/
def ipv6Text (ps : List Nat) : List Char :=
  let (place, length) := longestZeros ps
  if length < 2 then piecesText ps
  else piecesText (ps.take place) ++ ':' :: ':' :: piecesText (ps.drop (place + length))

/-- The text of an address of 32 bits. -/
def ipv4Text (n : Nat) : List Char :=
  join '.' ([0x1000000, 0x10000, 0x100, 1].map fun d => Nat.toDigits 10 (n / d % 256))

/-- The text of a host. -/
def Host.text : Host → List Char
  | .name s => s
  | .ipv4 n => ipv4Text n
  | .ipv6 ps => '[' :: ipv6Text ps ++ [']']
  | .verbatim s => s

example : (Host.read? simpleAscii true "0x7F.1".toList).map Host.text = some "127.0.0.1".toList := by
  decide +kernel
example : (Host.read? simpleAscii true "[1:0:0:2::3.4.5.6]".toList).map Host.text
    = some "[1::2:0:0:304:506]".toList := by decide +kernel
example : (Host.read? simpleAscii true "Ex%41mple.ORG".toList).map Host.text
    = some "example.org".toList := by decide +kernel
example : Host.read? simpleAscii true "a b".toList = none := by decide +kernel

end Playground.Url
