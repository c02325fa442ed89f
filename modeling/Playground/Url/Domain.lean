import Playground.Text.Search
import Playground.Url.Punycode

/-!
# Domains

A host with a name is read in its ASCII form.  What that is depends on tables of Unicode, which
are not part of this: they say what a character is mapped to and which labels are valid.  So all
that reads an address takes the ASCII form as an argument (`ToAscii`).  What is relied on is
`ToAscii.Lawful`, which speaks of no table.

`simpleAscii` is the form for labels that the tables leave as they are.
-/

namespace Playground.Url

open Text

/-- A character that ends a host or has a meaning next to it. -/
def isForbidden (c : Char) : Bool :=
  ['\x00', '\t', '\n', '\r', ' ', '#', '/', ':', '<', '>', '?', '@', '[', '\\', ']', '^',
    '|'].contains c

/-- A character that is no part of a domain. -/
def isForbiddenInName (c : Char) : Bool :=
  isForbidden c || c.toNat < 0x20 || c = '%' || c = '\x7f'

/-- The ASCII form of a domain, if it has one. -/
abbrev ToAscii := List Char → Option (List Char)

/-- The start of a label in Punycode. -/
def punycodeMark : List Char := ['x', 'n', '-', '-']

/-- A label that is in ASCII and stands for no other one. -/
def isPlainLabel (label : List Char) : Bool :=
  label.all (fun c => c.toNat < 128) && !punycodeMark.isPrefixOf (label.map Char.toLower)

/-- A text is the form of a domain unless it is empty or holds what is forbidden. -/
def formed? (ascii : List Char) : Option (List Char) :=
  if ascii = [] ∨ ascii.any isForbiddenInName then none else some ascii

/-- What is relied on of the ASCII form of a domain. -/
structure ToAscii.Lawful (toAscii : ToAscii) : Prop where
  /-- Plain labels are put into lower case. -/
  plain : ∀ s, (splitOn '.' s).all isPlainLabel → toAscii s = formed? (s.map Char.toLower)
  /-- A blank or a control makes a domain ill formed. -/
  blank : ∀ s, ∀ c ∈ s, c.toNat ≤ 0x20 → toAscii s = none

/-- A label in ASCII. -/
def asciiLabel (label : List Char) : List Char :=
  if label.all fun c => c.toNat < 128 then label else punycodeMark ++ Punycode.encode label

/-- The ASCII form of a domain whose labels are mapped to nothing else and are all valid. -/
def simpleAscii : ToAscii := fun s =>
  formed? (join '.' ((splitOn '.' (s.map Char.toLower)).map asciiLabel))

end Playground.Url
