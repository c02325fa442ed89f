import Mathlib.Algebra.Ring.Nat
import Mathlib.Data.List.Range
import Playground.Share.Compress
import Playground.Share.Expand

/-!
# Reading codes

What the reader of a compressed text does with the bits of a code.  A code that fits its
width is read back (`readCode?_bits`).  From there each kind of code has one equation: a
unit that is spelled out (`run_spelled`), a phrase (`run_phrase`) and the end mark
(`run_end`).  At the start of a text there is a reader only behind the first unit
(`expand?_spelled`).
-/

namespace Playground.Share

/-! ## Bits of a code -/

theorem bitsValue_testBit {width value : Nat} (h : value < 2 ^ width) :
    bitsValue ((List.range width).map value.testBit) = value := by
  induction width generalizing value with
  | zero =>
    rw [Nat.pow_zero] at h
    rw [Nat.lt_one_iff.mp h]
    rfl
  | succ width ih =>
    have hhalf : value / 2 < 2 ^ width := by
      rw [Nat.pow_succ] at h
      omega
    have hrest : ((List.range width).map Nat.succ).map value.testBit =
        (List.range width).map (value / 2).testBit := by
      rw [List.map_map]
      congr 1
      funext i
      exact Nat.testBit_succ value i
    rw [List.range_succ_eq_map, List.map_cons, hrest, bitsValue, ih hhalf, Nat.testBit_zero]
    have hmod := Nat.mod_two_eq_zero_or_one value
    cases hmod with
    | inl h0 => simp [h0]; omega
    | inr h1 => simp [h1]; omega

/-- A code that fits its width is read back. -/
theorem readCode?_bits {width value : Nat} (h : value < 2 ^ width) (rest : List Bool) :
    readCode? width (Code.bits ⟨width, value⟩ ++ rest) = some (value, rest) := by
  have hlen : (Code.bits ⟨width, value⟩).length = width := by
    rw [Code.bits, List.length_map, List.length_range]
  have htake : (Code.bits ⟨width, value⟩ ++ rest).take width = Code.bits ⟨width, value⟩ :=
    List.take_left' hlen
  have hdrop : (Code.bits ⟨width, value⟩ ++ rest).drop width = rest := List.drop_left' hlen
  rw [readCode?, htake, hdrop, if_pos hlen, Code.bits, bitsValue_testBit h]

/-- The bits of codes that are written with the last one first. -/
def writtenBits (codes : List Code) : List Bool := codes.reverse.flatMap Code.bits

theorem writtenBits_append (codes before : List Code) :
    writtenBits (codes ++ before) = writtenBits before ++ writtenBits codes := by
  rw [writtenBits, List.reverse_append, List.flatMap_append]
  rfl

theorem writtenBits_singleton (c : Code) : writtenBits [c] = c.bits := by
  simp [writtenBits]

/-- The codes that spell out a unit, last first. -/
def spelled (width : Nat) (u : UInt16) : List Code :=
  if u < 256 then [⟨8, u.toNat⟩, ⟨width, narrowMark⟩] else [⟨16, u.toNat⟩, ⟨width, wideMark⟩]

/-- The bits that spell out a unit are a mark and the bits of the unit. -/
theorem writtenBits_spelled (width : Nat) (u : UInt16) :
    ∃ mark size, (mark = narrowMark ∧ size = 8 ∨ mark = wideMark ∧ size = 16) ∧
      u.toNat < 2 ^ size ∧
      writtenBits (spelled width u) = Code.bits ⟨width, mark⟩ ++ Code.bits ⟨size, u.toNat⟩ := by
  unfold spelled
  split
  · next h => exact ⟨narrowMark, 8, Or.inl ⟨rfl, rfl⟩, h, by simp [writtenBits]⟩
  · exact ⟨wideMark, 16, Or.inr ⟨rfl, rfl⟩, u.toNat_lt, by simp [writtenBits]⟩

/-! ## Steps of the reader -/

namespace Expander

variable {e : Expander}

theorem run_end (h : endMark < 2 ^ e.width.bits) (rest : List Bool) :
    e.run (Code.bits ⟨e.width.bits, endMark⟩ ++ rest) = some e.phrases.reverse := by
  rw [run]
  split
  · next h' => rw [readCode?_bits h] at h'; cases h'
  · next code r h' =>
    rw [readCode?_bits h] at h'
    cases h'
    rw [if_pos rfl]

theorem run_phrase {code : Nat} {p : Phrase} (h : code < 2 ^ e.width.bits)
    (hp : e.phrase? code = some p) (rest : List Bool) :
    e.run (Code.bits ⟨e.width.bits, code⟩ ++ rest) = (e.push p).run rest := by
  have hcode : ¬code < firstPhrase := by
    intro hlt
    rw [phrase?, if_pos hlt] at hp
    cases hp
  rw [firstPhrase] at hcode
  rw [run]
  split
  · next h' => rw [readCode?_bits h] at h'; cases h'
  · next code' r h' =>
    rw [readCode?_bits h] at h'
    cases h'
    rw [if_neg (by rw [endMark]; omega), if_neg (by rw [narrowMark]; omega),
      if_neg (by rw [wideMark]; omega), hp]

theorem run_mark {mark size u : Nat}
    (hmark : mark = narrowMark ∧ size = 8 ∨ mark = wideMark ∧ size = 16)
    (h : mark < 2 ^ e.width.bits) (hu : u < 2 ^ size) (rest : List Bool) :
    e.run (Code.bits ⟨e.width.bits, mark⟩ ++ (Code.bits ⟨size, u⟩ ++ rest)) =
      (e.spell (UInt16.ofNat u)).run rest := by
  rw [run]
  split
  · next h' => rw [readCode?_bits h] at h'; cases h'
  · next code r h' =>
    rw [readCode?_bits h] at h'
    cases h'
    rcases hmark with ⟨rfl, rfl⟩ | ⟨rfl, rfl⟩
    · rw [if_neg (by decide), if_pos rfl]
      split
      · next hunit => rw [readCode?_bits hu] at hunit; cases hunit
      · next hunit => rw [readCode?_bits hu] at hunit; cases hunit; rfl
    · rw [if_neg (by decide), if_neg (by decide), if_pos rfl]
      split
      · next hunit => rw [readCode?_bits hu] at hunit; cases hunit
      · next hunit => rw [readCode?_bits hu] at hunit; cases hunit; rfl

theorem run_spelled (h : endMark < 2 ^ e.width.bits) (u : UInt16) (rest : List Bool) :
    e.run (writtenBits (spelled e.width.bits u) ++ rest) = (e.spell u).run rest := by
  obtain ⟨mark, size, hmark, hu, hbits⟩ := writtenBits_spelled e.width.bits u
  have hlt : mark < 2 ^ e.width.bits := by
    rw [endMark] at h
    rcases hmark with ⟨rfl, -⟩ | ⟨rfl, -⟩
    · rw [narrowMark]; omega
    · rw [wideMark]; omega
  rw [hbits, List.append_assoc, run_mark hmark hlt hu, UInt16.ofNat_toNat]

end Expander

/-! ## The start of a text -/

theorem expand?_end (rest : List Bool) :
    expand? (Code.bits ⟨Width.start.bits, endMark⟩ ++ rest) = some [] := by
  have hend : endMark < 2 ^ Width.start.bits := by decide
  rw [expand?, readCode?_bits hend]
  rfl

theorem expand?_spelled (u : UInt16) (rest : List Bool) :
    expand? (writtenBits (spelled Width.start.bits u) ++ rest) = (Expander.start u).run rest := by
  obtain ⟨mark, size, hmark, hu, hbits⟩ := writtenBits_spelled Width.start.bits u
  have hlt : mark < 2 ^ Width.start.bits := by
    rcases hmark with ⟨rfl, -⟩ | ⟨rfl, -⟩ <;> decide
  rw [hbits, List.append_assoc, expand?, readCode?_bits hlt]
  simp only [Option.bind_eq_bind, Option.bind_some]
  rcases hmark with ⟨rfl, rfl⟩ | ⟨rfl, rfl⟩
  · rw [if_neg (by decide), if_pos rfl, readCode?_bits hu, Option.bind_some, UInt16.ofNat_toNat]
  · rw [if_neg (by decide), if_neg (by decide), if_pos rfl, readCode?_bits hu, Option.bind_some,
      UInt16.ofNat_toNat]

end Playground.Share
