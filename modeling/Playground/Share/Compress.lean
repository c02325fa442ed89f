import Std.Data.HashMap
import Playground.Share.Code

/-!
# Compressing units

A dictionary coder over UTF-16 units.  The longest phrase of the dictionary that
starts the rest of the text is written as one code, and enters the dictionary
again with the unit behind it as a new phrase.  A unit that is met for the first
time is spelled out.
-/

namespace Playground.Share

/-- The writer of a compressed text. -/
structure Compressor where
  /-- The code of each phrase of the dictionary.  A phrase has its last unit
  first. -/
  dictionary : Std.HashMap (List UInt16) Nat
  /-- The code of the next phrase. -/
  next : Nat
  /-- The phrase that has been read and not written yet. -/
  phrase : List UInt16
  /-- The phrase is a unit that has never been written. -/
  fresh : Bool
  /-- The width of the next code. -/
  width : Width
  /-- The codes written, last first. -/
  written : List Code

namespace Compressor

/-- The writer that has read nothing. -/
def start : Compressor := ⟨∅, firstPhrase, [], false, .start, []⟩

/-- Spells out a unit that has never been written. -/
def spell (c : Compressor) (u : UInt16) : Compressor :=
  let spelled : List Code :=
    if u < 256 then [⟨8, u.toNat⟩, ⟨c.width.bits, narrowMark⟩]
    else [⟨16, u.toNat⟩, ⟨c.width.bits, wideMark⟩]
  { c with written := spelled ++ c.written, width := c.width.grow }

/-- Writes the phrase that has been read, if there is one. -/
def flush (c : Compressor) : Compressor :=
  match c.phrase with
  | [] => c
  | u :: us =>
    let c :=
      if c.fresh then c.spell u
      else
        { c with written := ⟨c.width.bits, c.dictionary.getD (u :: us) 0⟩ :: c.written }
    { c with width := c.width.grow }

/-- Enters a phrase into the dictionary. -/
def enter (c : Compressor) (phrase : List UInt16) : Compressor :=
  { c with dictionary := c.dictionary.insert phrase c.next, next := c.next + 1 }

/-- Reads a unit. -/
def step (c : Compressor) (u : UInt16) : Compressor :=
  let fresh := !c.dictionary.contains [u]
  let c := if fresh then c.enter [u] else c
  if c.dictionary.contains (u :: c.phrase) then
    { c with phrase := u :: c.phrase, fresh }
  else
    { (c.flush.enter (u :: c.phrase)) with phrase := [u], fresh }

/-- Writes what is left and the end mark. -/
def finish (c : Compressor) : List Code :=
  let c := c.flush
  (⟨c.width.bits, endMark⟩ :: c.written).reverse

end Compressor

/-- The codes of a text. -/
def compress (units : List UInt16) : List Code :=
  (units.foldl Compressor.step .start).finish

end Playground.Share
