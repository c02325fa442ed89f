import Playground.Share.Code

/-!
# Expanding codes

The reader of a compressed text.  It builds the dictionary of the writer one step
behind: each phrase that is read, followed by the first unit of the next one, is a
new entry.  So a code can name the entry that is just being made, which is the
last phrase followed by its own first unit.

`expand?` fails on a code that names no phrase and when the bits run out.  Each
step takes at least one bit, so it ends.
-/

namespace Playground.Share

/-- A phrase, at least one unit. -/
structure Phrase where
  /-- The first unit. -/
  first : UInt16
  /-- All units, last first. -/
  units : List UInt16
  /-- The number of units. -/
  size : Nat
deriving DecidableEq, Repr

namespace Phrase

/-- The phrase of one unit. -/
def single (u : UInt16) : Phrase := ⟨u, [u], 1⟩

/-- The phrase with a unit behind it. -/
def snoc (p : Phrase) (u : UInt16) : Phrase := ⟨p.first, u :: p.units, p.size + 1⟩

end Phrase

/-- The reader of a compressed text. -/
structure Expander where
  /-- The phrases of the dictionary, from the code `firstPhrase`. -/
  dictionary : Array Phrase
  /-- The phrase read last. -/
  last : Phrase
  /-- The width of the next code. -/
  width : Width
  /-- The phrases read, last first. -/
  phrases : List Phrase
deriving Repr

namespace Expander

/-- The phrase of a code, where the code behind the last one names the phrase that
is being made. -/
def phrase? (e : Expander) (code : Nat) : Option Phrase :=
  if code < firstPhrase then none
  else if code - firstPhrase = e.dictionary.size then some (e.last.snoc e.last.first)
  else e.dictionary[code - firstPhrase]?

/-- Takes in the next phrase. -/
def push (e : Expander) (p : Phrase) : Expander where
  dictionary := e.dictionary.push (e.last.snoc p.first)
  last := p
  width := e.width.grow
  phrases := p :: e.phrases

/-- Takes in a unit that is spelled out. -/
def spell (e : Expander) (u : UInt16) : Expander :=
  let p := Phrase.single u
  { e with dictionary := e.dictionary.push p, width := e.width.grow }.push p

/-- The phrases of the rest of the bits behind those read already. -/
def run (e : Expander) (bits : List Bool) : Option (List Phrase) :=
  match _h : readCode? e.width.bits bits with
  | none => none
  | some (code, rest) =>
    if code = endMark then some e.phrases.reverse
    else if code = narrowMark then
      match _h' : readCode? 8 rest with
      | none => none
      | some (u, rest) => (e.spell (UInt16.ofNat u)).run rest
    else if code = wideMark then
      match _h' : readCode? 16 rest with
      | none => none
      | some (u, rest) => (e.spell (UInt16.ofNat u)).run rest
    else
      match e.phrase? code with
      | none => none
      | some p => (e.push p).run rest
termination_by bits.length
decreasing_by
  · have := length_of_readCode? _h
    have := length_of_readCode? _h'
    omega
  · have := length_of_readCode? _h
    have := length_of_readCode? _h'
    omega
  · have := length_of_readCode? _h
    have := e.width.bits_pos
    omega

end Expander

/-- The reader behind the first unit of a text. -/
def Expander.start (u : UInt16) : Expander where
  dictionary := #[.single u]
  last := .single u
  width := ⟨3, 4, by decide⟩
  phrases := [.single u]

/-- The phrases of a compressed text. -/
def expand? (bits : List Bool) : Option (List Phrase) := do
  let (code, rest) ← readCode? Width.start.bits bits
  if code = endMark then return []
  let (u, rest) ←
    if code = narrowMark then readCode? 8 rest
    else if code = wideMark then readCode? 16 rest
    else none
  (Expander.start (UInt16.ofNat u)).run rest

/-- The number of units of some phrases. -/
def phrasesSize (ps : List Phrase) : Nat := ps.foldl (fun n p => n + p.size) 0

/-- The units of some phrases. -/
def phrasesUnits (ps : List Phrase) : List UInt16 := ps.flatMap fun p => p.units.reverse

end Playground.Share
