import Playground.Toml.Value

/-!
# Numbers, times and truth values in TOML

A value that is no string, array or table is a word of letters, digits and the signs
`_ + - . :`.  Digits may have underscores between them.  An integer has 64 bits and a
sign, is written in base ten without zeros in front, or in base sixteen, eight or two
without a sign.  A time is a date, a time of the day or both, and may name its zone.
-/

namespace Playground.Toml

/-- A character of a word. -/
def isWordChar (c : Char) : Bool :=
  c.isAlphanum || c = '_' || c = '+' || c = '-' || c = '.' || c = ':'

/-- The digits without the underscores, each of which has to stand between two. -/
def digits? (isDigit : Char → Bool) : List Char → Option (List Char)
  | [] => none
  | [c] => if isDigit c then some [c] else none
  | c :: '_' :: s => if isDigit c then (digits? isDigit s).map (c :: ·) else none
  | c :: s => if isDigit c then (digits? isDigit s).map (c :: ·) else none

/-- The value of a digit. -/
def digitValue (c : Char) : Nat :=
  if c.isDigit then c.toNat - '0'.toNat else c.toLower.toNat - 'a'.toNat + 10

/-- The number of some digits. -/
def numberOf (base : Nat) (ds : List Char) : Nat := ds.foldl (fun n d => base * n + digitValue d) 0

/-- A digit of base sixteen. -/
def isHexDigit (c : Char) : Bool := c.isDigit || ('a' ≤ c.toLower && c.toLower ≤ 'f')

/-- A word without its sign, and whether that is a minus sign. -/
def unsigned (s : List Char) : Bool × List Char :=
  match s with
  | '-' :: s => (true, s)
  | '+' :: s => (false, s)
  | s => (false, s)

/-- The digits have no zero in front. -/
def isTight (ds : List Char) : Bool := ds.head? ≠ some '0' || ds.length = 1

/-- An integer of 64 bits. -/
def bounded? (n : Int) : Option Int :=
  if -0x8000000000000000 ≤ n ∧ n < 0x8000000000000000 then some n else none

/-- The integer of a word. -/
def integer? (s : List Char) : Option Int :=
  match s with
  | '0' :: 'x' :: s => do bounded? (numberOf 16 (← digits? isHexDigit s))
  | '0' :: 'o' :: s => do bounded? (numberOf 8 (← digits? (fun c => '0' ≤ c && c ≤ '7') s))
  | '0' :: 'b' :: s => do bounded? (numberOf 2 (← digits? (fun c => c = '0' || c = '1') s))
  | s => do
    let (negative, s) := unsigned s
    let ds ← digits? Char.isDigit s
    if !isTight ds then none
    let n : Int := numberOf 10 ds
    bounded? (if negative then -n else n)

/-- A character that starts an exponent. -/
def isExponent (c : Char) : Bool := c = 'e' || c = 'E'

/-- The word is a float. -/
def isFloat (s : List Char) : Bool :=
  let (_, s) := unsigned s
  if s = ['i', 'n', 'f'] ∨ s = ['n', 'a', 'n'] then true
  else
    let mantissa := s.takeWhile (!isExponent ·)
    let exponent := s.dropWhile (!isExponent ·)
    let whole := mantissa.takeWhile (· ≠ '.')
    let fraction := mantissa.dropWhile (· ≠ '.')
    let hasDigits (s : List Char) : Bool := (digits? Char.isDigit s).isSome
    let tight := ((digits? Char.isDigit whole).map isTight).getD false
    let wellFraction := fraction = [] || hasDigits (fraction.drop 1)
    let wellExponent := exponent = [] || hasDigits (unsigned (exponent.drop 1)).2
    tight && wellFraction && wellExponent && (fraction ≠ [] || exponent ≠ [])

/-! ## Times -/

/-- The number of so many digits at the start of a word. -/
def field? (width : Nat) (s : List Char) : Option (Nat × List Char) :=
  let ds := s.take width
  if ds.length = width ∧ ds.all Char.isDigit then some (numberOf 10 ds, s.drop width) else none

/-- What follows a sign. -/
def behind? (c : Char) (s : List Char) : Option (List Char) :=
  match s with
  | d :: s => if d = c then some s else none
  | [] => none

/-- The number of days of a month. -/
def monthDays (year month : Nat) : Nat :=
  if month = 2 then if year % 4 = 0 ∧ (year % 100 ≠ 0 ∨ year % 400 = 0) then 29 else 28
  else if month = 4 ∨ month = 6 ∨ month = 9 ∨ month = 11 then 30
  else 31

/-- What follows a date. -/
def afterDate? (s : List Char) : Option (List Char) := do
  let (year, s) ← field? 4 s
  let (month, s) ← field? 2 (← behind? '-' s)
  let (day, s) ← field? 2 (← behind? '-' s)
  if 1 ≤ month ∧ month ≤ 12 ∧ 1 ≤ day ∧ day ≤ monthDays year month then some s else none

/-- What follows the hour and the minute. -/
def afterMinute? (s : List Char) : Option (List Char) := do
  let (hour, s) ← field? 2 s
  let (minute, s) ← field? 2 (← behind? ':' s)
  if hour ≤ 23 ∧ minute ≤ 59 then some s else none

/-- What follows a time of the day. -/
def afterClock? (s : List Char) : Option (List Char) := do
  let (second, s) ← field? 2 (← behind? ':' (← afterMinute? s))
  if 60 < second then none
  match s with
  | '.' :: s => if s.takeWhile Char.isDigit = [] then none else some (s.dropWhile Char.isDigit)
  | s => some s

/-- The text names a zone, or nothing. -/
def isZone (s : List Char) : Bool :=
  match s with
  | [] => true
  | ['Z'] | ['z'] => true
  | '+' :: s | '-' :: s => afterMinute? s = some []
  | _ => false

/-- The word is a date. -/
def isDate (s : List Char) : Bool := afterDate? s = some []

/-- The text is a time of the day and perhaps a zone. -/
def isZonedClock (s : List Char) : Bool := ((afterClock? s).map isZone).getD false

/-- The word is a time. -/
def isTime (s : List Char) : Bool :=
  afterClock? s = some [] ||
    (match afterDate? s with
      | some [] => true
      | some ('T' :: s) | some ('t' :: s) => isZonedClock s
      | _ => false)

/-! ## Words -/

/-- The value of a word. -/
def word? (s : List Char) : Option Toml :=
  if s = ['t', 'r', 'u', 'e'] then some (.boolean true)
  else if s = ['f', 'a', 'l', 's', 'e'] then some (.boolean false)
  else
    match integer? s with
    | some n => some (.integer n)
    | none => if isTime s then some .time else if isFloat s then some .float else none

/-- Reads the value of a word.  A date may have a time of the day behind a blank. -/
def readWord? (s : List Char) : Option (Toml × List Char) :=
  let word := s.takeWhile isWordChar
  let rest := s.dropWhile isWordChar
  match isDate word, rest with
  | true, ' ' :: c :: r =>
    if c.isDigit then
      let clock := (c :: r).takeWhile isWordChar
      if isZonedClock clock then some (.time, (c :: r).dropWhile isWordChar) else none
    else some (.time, rest)
  | _, _ => (word? word).map fun v => (v, rest)

example : integer? "-1_000".toList = some (-1000) := by decide +kernel
example : integer? "007".toList = none := by decide +kernel
example : integer? "0xfF".toList = some 255 := by decide +kernel
example : isFloat "6.02e+23".toList = true := by decide +kernel
example : isTime "1979-02-29".toList = false := by decide +kernel
example : isTime "1979-05-27T07:32:00.5-07:00".toList = true := by decide +kernel

end Playground.Toml
