import Playground.Json.Value
import Playground.Text.Hex
import Playground.Text.Search
import Playground.Text.Utf16
import Playground.Text.Utf8

/-!
# Reading JSON

A reader of octets.  `Json.read?` takes exactly one value, with blanks around it.
A string is read in two steps: `readItems` finds its end and undoes the escapes,
and `assemble?` puts octets and escaped UTF-16 units together.  The first step
fails on a string that is written wrongly, the second only says that the string is
no text.

The recursion over nested values is bounded by a counter that starts at twice the
length of the input.  Every level takes at least one octet, so it never runs out.
-/

namespace Playground.Json

open Text

/-- A blank between two tokens. -/
def isBlank (b : UInt8) : Bool := b == 0x20 || b == 0x0A || b == 0x0D || b == 0x09

/-- The input without the blanks at its start. -/
def skipBlanks (s : List UInt8) : List UInt8 := s.dropWhile isBlank

/-- The octet of an ASCII character. -/
def octet (c : Char) : UInt8 := UInt8.ofNat c.toNat

/-- The octets of an ASCII text. -/
def octets (s : String) : List UInt8 := s.toList.map octet

/-! ## Strings -/

/-- A part of a string. -/
inductive StringItem where
  /-- An octet between the quotes, or a character with a short escape. -/
  | octet (b : UInt8)
  /-- A UTF-16 unit with a numeric escape. -/
  | unit (u : Nat)
deriving DecidableEq, Repr

/-- The unit of four hexadecimal digits. -/
def unit? (a b c d : UInt8) : Option Nat := do
  return ((← hexValue? a) * 16 + (← hexValue? b)) * 256 + (← hexValue? c) * 16 + (← hexValue? d)

/-- The character that a short escape stands for. -/
def shortEscape? (b : UInt8) : Option UInt8 :=
  if b = octet '"' then some 0x22
  else if b = octet '\\' then some 0x5C
  else if b = octet '/' then some 0x2F
  else if b = octet 'b' then some 0x08
  else if b = octet 'f' then some 0x0C
  else if b = octet 'n' then some 0x0A
  else if b = octet 'r' then some 0x0D
  else if b = octet 't' then some 0x09
  else none

/-- Reads a string behind its opening quote.  `found` holds the parts read so far,
last first. -/
def readItems (found : List StringItem) : List UInt8 → Option (List StringItem × List UInt8)
  | [] => none
  | b :: s =>
    if b = octet '"' then some (found.reverse, s)
    else if b = octet '\\' then
      match s with
      | [] => none
      | e :: s =>
        if e = octet 'u' then
          match s with
          | a :: b :: c :: d :: s =>
            match unit? a b c d with
            | some u => readItems (.unit u :: found) s
            | none => none
          | _ => none
        else
          match shortEscape? e with
          | some x => readItems (.octet x :: found) s
          | none => none
    else if b < 0x20 then none
    else readItems (.octet b :: found) s

/-- The octets of the parts of a string, unless half of a surrogate pair is left
alone.  `done` holds the octets so far, last first. -/
def assemble? (done : List UInt8) : List StringItem → Option (List UInt8)
  | [] => some done.reverse
  | .octet b :: is => assemble? (b :: done) is
  | .unit u :: is =>
    if Utf16.isLow u then none
    else if Utf16.isHigh u then
      match is with
      | .unit l :: is =>
        if Utf16.isLow l then
          assemble? ((Utf8.encodeChar (Char.ofNat (Utf16.pairValue u l))).reverse ++ done) is
        else none
      | _ => none
    else assemble? ((Utf8.encodeChar (Char.ofNat u)).reverse ++ done) is

/-- Reads a string behind its opening quote. -/
def readString (s : List UInt8) : Option (Option String × List UInt8) := do
  let (items, s) ← readItems [] s
  return (((assemble? [] items).bind Utf8.decode?).map String.ofList, s)

/-! ## Numbers -/

/-- An ASCII digit. -/
def isDigitOctet (b : UInt8) : Bool := 0x30 ≤ b && b ≤ 0x39

/-- The number that a run of ASCII digits denotes. -/
def octetsValue (ds : List UInt8) : Nat := ds.foldl (fun n d => 10 * n + (d.toNat - 0x30)) 0

/-- Reads the digits of a fraction, if there is a point. -/
def readFraction (s : List UInt8) : Option (Option (List UInt8) × List UInt8) :=
  match after? [octet '.'] s with
  | none => some (none, s)
  | some s =>
    let ds := s.takeWhile isDigitOctet
    if ds = [] then none else some (some ds, s.dropWhile isDigitOctet)

/-- Reads an exponent, if there is one. -/
def readExponent (s : List UInt8) : Option (Option Int × List UInt8) :=
  match s with
  | e :: r =>
    if e = octet 'e' ∨ e = octet 'E' then
      let (negative, r) :=
        match r with
        | b :: t =>
          if b = octet '-' then (true, t) else if b = octet '+' then (false, t) else (false, r)
        | [] => (false, r)
      let ds := r.takeWhile isDigitOctet
      if ds = [] then none
      else
        let n : Int := octetsValue ds
        some (some (if negative then -n else n), r.dropWhile isDigitOctet)
    else some (none, s)
  | [] => some (none, s)

/-- Reads a number. -/
def readNumber (s : List UInt8) : Option (Number × List UInt8) := do
  let (negative, s) :=
    match after? [octet '-'] s with
    | some s => (true, s)
    | none => (false, s)
  let whole := s.takeWhile isDigitOctet
  if whole = [] ∨ (whole.head? = some (octet '0') ∧ whole ≠ [octet '0']) then none
  let (fraction, s) ← readFraction (s.dropWhile isDigitOctet)
  let (exponent, s) ← readExponent s
  let places := fraction.getD []
  return (⟨negative, octetsValue (whole ++ places), exponent.getD 0 - places.length,
    fraction.isNone && exponent.isNone⟩, s)

/-! ## Values -/

mutual

/-- Reads a value. -/
def readValue : Nat → List UInt8 → Option (Json × List UInt8)
  | 0, _ => none
  | fuel + 1, s =>
    match skipBlanks s with
    | [] => none
    | b :: r =>
      if b = octet '"' then
        (readString r).map fun p => (p.1.elim .illFormed .text, p.2)
      else if b = octet '[' then
        match after? [octet ']'] (skipBlanks r) with
        | some r => some (.array [], r)
        | none => (readElements fuel r).map fun p => (.array p.1, p.2)
      else if b = 0x7B then
        match after? [0x7D] (skipBlanks r) with
        | some r => some (.object [], r)
        | none => (readMembers fuel r).map fun p => (.object p.1, p.2)
      else if b = octet 'n' then (after? (octets "ull") r).map fun r => (.null, r)
      else if b = octet 't' then (after? (octets "rue") r).map fun r => (.bool true, r)
      else if b = octet 'f' then (after? (octets "alse") r).map fun r => (.bool false, r)
      else (readNumber (b :: r)).map fun p => (.number p.1, p.2)

/-- Reads the elements of an array, at least one, and the closing bracket. -/
def readElements : Nat → List UInt8 → Option (List Json × List UInt8)
  | 0, _ => none
  | fuel + 1, s => do
    let (v, s) ← readValue fuel s
    match skipBlanks s with
    | [] => none
    | b :: r =>
      if b = octet ']' then some ([v], r)
      else if b = octet ',' then (readElements fuel r).map fun p => (v :: p.1, p.2)
      else none

/-- Reads the members of an object, at least one, and the closing brace. -/
def readMembers : Nat → List UInt8 → Option (List (Option String × Json) × List UInt8)
  | 0, _ => none
  | fuel + 1, s => do
    let s ← after? [octet '"'] (skipBlanks s)
    let (key, s) ← readString s
    let s ← after? [octet ':'] (skipBlanks s)
    let (v, s) ← readValue fuel s
    match skipBlanks s with
    | [] => none
    | b :: r =>
      if b = 0x7D then some ([(key, v)], r)
      else if b = octet ',' then (readMembers fuel r).map fun p => ((key, v) :: p.1, p.2)
      else none

end

/-- The value that the octets are the text of. -/
def read? (bytes : List UInt8) : Option Json := do
  let (v, rest) ← readValue (2 * bytes.length + 2) bytes
  if skipBlanks rest = [] then some v else none

/-- The value that a text is the text of. -/
def ofText? (s : String) : Option Json := read? (Utf8.encode s.toList)

end Playground.Json
