import Playground.Text.Search
import Playground.Text.Utf16
import Playground.Text.Utf8

/-!
# Charsets

The text of a body by the charset that its content type names.  A mark at the start
of the body is stronger than the name, and a name that is not known means UTF-8.
What is ill formed becomes the replacement character.

There are many charsets, and most have tables of their own.  So the names and what they
mean are an argument (`Decoders`).  `simpleDecoders` knows the charsets without large tables.
-/

namespace Playground.Http

open Text

/-- A charset. -/
inductive Charset where
  | utf8
  | utf16 (bigEndian : Bool)
  | windows1252
deriving DecidableEq, Repr

namespace Charset

/-- The names of the charsets. -/
def labels : List (String × Charset) :=
  (["unicode-1-1-utf-8", "unicode11utf8", "unicode20utf8", "utf-8", "utf8",
    "x-unicode20utf8"].map (·, utf8))
  ++ (["csunicode", "iso-10646-ucs-2", "ucs-2", "unicode", "unicodefeff", "utf-16",
    "utf-16le"].map (·, utf16 false))
  ++ (["unicodefffe", "utf-16be"].map (·, utf16 true))
  ++ (["ansi_x3.4-1968", "ascii", "cp1252", "cp819", "csisolatin1", "ibm819", "iso-8859-1",
    "iso-ir-100", "iso8859-1", "iso88591", "iso_8859-1", "iso_8859-1:1987", "l1", "latin1",
    "us-ascii", "windows-1252", "x-cp1252"].map (·, windows1252))

/-- The text in lower case, without blanks at its ends. -/
def normalized (s : List Char) : List Char :=
  let isBlank (c : Char) : Bool := [' ', '\t', '\n', '\r', '\x0c'].contains c
  ((s.dropWhile isBlank).reverse.dropWhile isBlank).reverse.map Char.toLower

/-- The charset of a name. -/
def ofLabel? (name : List Char) : Option Charset :=
  (labels.find? (·.1.toList = normalized name)).map Prod.snd

/-- The value of a parameter, with or without quotes. -/
def unquoted (s : List Char) : List Char :=
  match s with
  | '"' :: r => if r.getLast? = some '"' then r.dropLast else s
  | s => s

/-- The name of the charset in a content type. -/
def labelOf? (contentType : String) : Option (List Char) :=
  ((splitOn ';' contentType.toList).drop 1).findSome? fun p =>
    match splitFirst? '=' p with
    | some (name, value) =>
      if normalized name = "charset".toList then some (unquoted (normalized value)) else none
    | none => none

/-- The characters of windows-1252 from 0x80 to 0x9F. -/
def windowsHigh : List Nat :=
  [0x20AC, 0x81, 0x201A, 0x0192, 0x201E, 0x2026, 0x2020, 0x2021, 0x02C6, 0x2030, 0x0160, 0x2039,
    0x0152, 0x8D, 0x017D, 0x8F, 0x90, 0x2018, 0x2019, 0x201C, 0x201D, 0x2022, 0x2013, 0x2014,
    0x02DC, 0x2122, 0x0161, 0x203A, 0x0153, 0x9D, 0x017E, 0x0178]

/-- The character of an octet in windows-1252. -/
def windowsChar (b : UInt8) : Char :=
  let n := b.toNat
  Char.ofNat (if 0x80 ≤ n ∧ n < 0xA0 then windowsHigh[n - 0x80]?.getD n else n)

/-- The units of sixteen bits of some octets, and whether an octet is left over. -/
def units (bigEndian : Bool) : List UInt8 → List Nat × Bool
  | a :: b :: s =>
    let (us, odd) := units bigEndian s
    ((if bigEndian then a.toNat * 256 + b.toNat else b.toNat * 256 + a.toNat) :: us, odd)
  | [_] => ([], true)
  | [] => ([], false)

/-- The text of units, with the replacement character for a lone surrogate. -/
def unitsText : List Nat → List Char
  | [] => []
  | [u] => [if Utf16.isHigh u || Utf16.isLow u then '\ufffd' else Char.ofNat u]
  | u :: v :: s =>
    if Utf16.isHigh u then
      if Utf16.isLow v then Char.ofNat (Utf16.pairValue u v) :: unitsText s
      else '\ufffd' :: unitsText (v :: s)
    else (if Utf16.isLow u then '\ufffd' else Char.ofNat u) :: unitsText (v :: s)

/-- The text of octets in a charset. -/
def decode (c : Charset) (bytes : List UInt8) : List Char :=
  match c with
  | utf8 => Utf8.decodeLossy bytes
  | utf16 bigEndian =>
    let (us, odd) := units bigEndian bytes
    unitsText us ++ (if odd then ['\ufffd'] else [])
  | windows1252 => bytes.map windowsChar

/-- The charset that a mark at the start of octets names, and the octets behind it. -/
def mark? (bytes : List UInt8) : Option (Charset × List UInt8) :=
  match bytes with
  | 0xEF :: 0xBB :: 0xBF :: s => some (utf8, s)
  | 0xFE :: 0xFF :: s => some (utf16 true, s)
  | 0xFF :: 0xFE :: s => some (utf16 false, s)
  | _ => none

end Charset

/-- The text of octets by the name of a charset, if the charset is known. -/
abbrev Decoders := List Char → Option (List UInt8 → List Char)

/-- The charsets without large tables. -/
def simpleDecoders : Decoders := fun label => (Charset.ofLabel? label).map Charset.decode

/-- The text of a body with a content type. -/
def textOf (decoders : Decoders) (contentType : String) (bytes : List UInt8) : List Char :=
  match Charset.mark? bytes with
  | some (c, s) => c.decode s
  | none => (((Charset.labelOf? contentType).bind decoders).getD Utf8.decodeLossy) bytes

example : textOf simpleDecoders "text/plain; charset=\"Latin1\"" [0xE9, 0x80] = ['é', '€'] := by
  decide +kernel
example : textOf simpleDecoders "text/plain; charset=UTF-16" [0x61, 0, 0x3D, 0xD8, 0]
    = ['a', '\ufffd', '\ufffd'] := by decide +kernel

end Playground.Http
