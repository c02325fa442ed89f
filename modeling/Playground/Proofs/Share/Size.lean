import Mathlib.Algebra.Ring.Nat
import Mathlib.Data.List.Basic
import Playground.Share.Link

/-!
# How long a link is

A link whose text has at most 3000 units is within the limits of its readers
(`fits_of_length_le`).  A unit is written when the phrase before it ends, in two codes at most:

    mark    as many bits as the width, which is about the logarithm of the codes so far
    unit    eight or sixteen bits
-/

namespace Playground.Share

open Text

/-- A link with the state is within the limits of its readers. -/
def Fits (s : State) : Prop :=
  (pressed (query s.toPairs)).length ≤ maxFragment ∧
    (Utf16.encode (query s.toPairs)).length ≤ maxPayload

/-! ## Widths -/

namespace Width

/-- The width has grown by some entries. -/
structure Grown (w : Width) (entries : Nat) : Prop where
  /-- The codes of its bits are those there are, and those it has room for. -/
  two_pow_eq : 2 ^ w.bits = w.room + (entries + 2)
  room_pos : 0 < w.room
  /-- It has had a bit less until half of them were used up. -/
  two_pow_le : 2 ^ w.bits ≤ 2 * (entries + 2)

theorem grown_start : Grown .start 0 := ⟨rfl, by decide, by decide⟩

theorem Grown.grow {w : Width} {entries : Nat} (h : w.Grown entries) :
    w.grow.Grown (entries + 1) := by
  obtain ⟨heq, hpos, hle⟩ := h
  unfold Width.grow
  split
  · have hpow : 2 ^ (w.bits + 1) = 2 * 2 ^ w.bits := by rw [Nat.pow_succ, Nat.mul_comm]
    refine ⟨?_, ?_, ?_⟩
    · show 2 ^ (w.bits + 1) = 1 <<< w.bits + (entries + 1 + 2)
      rw [Nat.one_shiftLeft]
      omega
    · show 0 < 1 <<< w.bits
      rw [Nat.one_shiftLeft]
      exact Nat.two_pow_pos _
    · show 2 ^ (w.bits + 1) ≤ _
      omega
  · refine ⟨?_, ?_, ?_⟩
    · show 2 ^ w.bits = w.room - 1 + (entries + 1 + 2)
      omega
    · show 0 < w.room - 1
      omega
    · show 2 ^ w.bits ≤ _
      omega

theorem Grown.bits_le {w : Width} {entries b : Nat} (h : w.Grown entries)
    (hb : 2 * (entries + 2) < 2 ^ (b + 1)) : w.bits ≤ b :=
  Nat.lt_succ_iff.mp ((Nat.pow_lt_pow_iff_right (a := 2) (by decide)).mp
    (Nat.lt_of_le_of_lt h.two_pow_le hb))

end Width

/-! ## Codes -/

/-- The bits of some codes. -/
def codesSize (cs : List Code) : Nat := (cs.map Code.width).sum

theorem length_flatMap_bits (cs : List Code) : (cs.flatMap Code.bits).length = codesSize cs := by
  rw [List.length_flatMap, codesSize]
  simp [Code.bits]

/-- The writer has read `n` units, and no width has more than `b` bits. -/
structure Compressor.Brief (b n : Nat) (c : Compressor) : Prop where
  /-- A unit adds two entries at most. -/
  grown : ∃ entries ≤ 2 * n, c.width.Grown entries
  /-- A unit is a mark with the sixteen bits behind it. -/
  size_le : codesSize c.written ≤ n * (b + 16)

namespace Compressor.Brief

variable {b n : Nat} {c : Compressor}

theorem bits_le (h : Brief b n c) (hb : 4 * n + 4 < 2 ^ (b + 1)) : c.width.bits ≤ b := by
  obtain ⟨entries, hle, hgrown⟩ := h.grown
  exact hgrown.bits_le (by omega)

theorem succ (h : Brief b n c) : Brief b (n + 1) c := by
  obtain ⟨entries, hle, hgrown⟩ := h.grown
  exact ⟨⟨entries, by omega, hgrown⟩, Nat.le_trans h.size_le (Nat.mul_le_mul_right _ n.le_succ)⟩

/-- Writing the phrase adds its code, or a mark and a unit. -/
theorem flush (h : Brief b n c) (hb : 4 * n + 4 < 2 ^ (b + 1)) : Brief b (n + 1) c.flush := by
  have hbits := h.bits_le hb
  obtain ⟨entries, hle, hgrown⟩ := h.grown
  have hsize := h.size_le
  have hmul : (n + 1) * (b + 16) = n * (b + 16) + (b + 16) := Nat.succ_mul n _
  simp only [codesSize] at hsize
  unfold Compressor.flush
  split
  · exact h.succ
  · split
    · refine ⟨⟨entries + 2, by omega, hgrown.grow.grow⟩, ?_⟩
      unfold Compressor.spell codesSize
      split <;> simp <;> omega
    · refine ⟨⟨entries + 1, by omega, hgrown.grow⟩, ?_⟩
      simp [codesSize]
      omega

theorem step (h : Brief b n c) (hb : 4 * n + 4 < 2 ^ (b + 1)) (u : UInt16) :
    Brief b (n + 1) (c.step u) := by
  have hread : ∀ {c : Compressor} (fresh : Bool), Brief b n c → Brief b (n + 1)
      (if c.dictionary.contains (u :: c.phrase) then { c with phrase := u :: c.phrase, fresh }
      else { (c.flush.enter (u :: c.phrase)) with phrase := [u], fresh }) := by
    intro c fresh h
    split
    · exact ⟨h.succ.grown, h.succ.size_le⟩
    · exact ⟨(h.flush hb).grown, (h.flush hb).size_le⟩
  apply hread
  split
  · exact ⟨h.grown, h.size_le⟩
  · exact h

theorem foldl (h : Brief b n c) (units : List UInt16)
    (hb : 4 * (n + units.length) + 4 < 2 ^ (b + 1)) :
    Brief b (n + units.length) (units.foldl Compressor.step c) := by
  induction units generalizing n c with
  | nil => exact h
  | cons u us ih =>
    rw [List.length_cons, Nat.add_comm us.length, ← Nat.add_assoc] at hb ⊢
    exact ih (h.step (by omega) u) hb

end Compressor.Brief

/-- The bits of a compressed text, where no width has more than `b`. -/
theorem length_compress_le {b : Nat} (units : List UInt16)
    (hb : 4 * units.length + 8 < 2 ^ (b + 1)) :
    ((compress units).flatMap Code.bits).length ≤ (units.length + 1) * (b + 16) + b := by
  have hstart : Compressor.Brief b 0 .start :=
    ⟨⟨0, Nat.le_refl 0, Width.grown_start⟩, Nat.zero_le _⟩
  have hread := hstart.foldl units (by omega)
  rw [Nat.zero_add] at hread
  have hflushed := hread.flush (by omega)
  have hbits := hflushed.bits_le (by omega)
  have hsize := hflushed.size_le
  rw [length_flatMap_bits, compress, Compressor.finish, codesSize, List.map_reverse,
    List.sum_reverse, List.map_cons, List.sum_cons]
  rw [codesSize] at hsize
  dsimp only
  omega

/-! ## Letters -/

theorem length_foldl_push {p : Packer} (hp : p.count < 6) (bits : List Bool) :
    6 * (bits.foldl Packer.push p).full.length ≤ 6 * p.full.length + p.count + bits.length := by
  induction bits generalizing p with
  | nil => exact Nat.le_add_right ..
  | cons bit bits ih =>
    have hpush : (p.push bit).count < 6 ∧
        6 * (p.push bit).full.length + (p.push bit).count = 6 * p.full.length + p.count + 1 := by
      unfold Packer.push
      dsimp only
      split
      · simp only [List.length_cons]
        omega
      · dsimp only
        omega
    have hrest := ih hpush.1
    rw [List.foldl_cons, List.length_cons]
    omega

/-- Six bits are a letter, and five more signs end the text at most. -/
theorem length_pack_le (bits : List Bool) : (pack bits).length ≤ bits.length / 6 + 5 := by
  have hfull := length_foldl_push (p := ⟨[], 0, 0⟩) (by decide) bits
  simp only [List.length_nil, Nat.mul_zero, Nat.zero_add] at hfull
  have hpadding : ∀ n, paddingLength n ≤ 4 := by
    intro n
    unfold paddingLength
    split <;> omega
  have := hpadding ((bits.foldl Packer.push ⟨[], 0, 0⟩).full.length + 1)
  simp only [pack, Packer.finish, List.length_append, List.length_map, List.length_reverse,
    List.length_cons, List.length_replicate]
  omega

/-- A text of at most 3000 units has no more letters than are read. -/
theorem length_pressed_le {s : List Char} (h : (Utf16.encode s).length ≤ 3000) :
    (pressed s).length ≤ maxFragment := by
  have hbits := length_compress_le (b := 13) (Utf16.encode s) (by omega)
  have hletters := length_pack_le ((compress (Utf16.encode s)).flatMap Code.bits)
  rw [pressed, maxFragment]
  omega

/-- A link whose text has at most 3000 units is within the limits. -/
theorem fits_of_length_le {s : State} (h : (Utf16.encode (query s.toPairs)).length ≤ 3000) :
    Fits s :=
  ⟨length_pressed_le h, Nat.le_trans h (by decide)⟩

end Playground.Share
