import Mathlib.Algebra.Ring.Nat
import Mathlib.Data.List.Basic
import Mathlib.Data.List.Forall2
import Playground.Proofs.Text.Transcoding
import Playground.Share.Sextet
import Playground.Text.Space

/-!
# Packed bits

Bits that are packed into letters are unpacked again, with some zeros behind them
(`unpack?_pack`).  The zeros come from the last letter, which is never full, and from the
padding.  All letters are ASCII, and none is white space.
-/

namespace Playground.Share

open Text

/-! ## Values as bits -/

/-- The last bits of a value, most significant first. -/
def lastBits : Nat → Nat → List Bool
  | 0, _ => []
  | n + 1, value => lastBits n (value / 2) ++ [value.testBit 0]

/-- One more bit behind a value is one more bit behind its bits. -/
theorem lastBits_double (n value : Nat) (bit : Bool) :
    lastBits (n + 1) (2 * value + bit.toNat) = lastBits n value ++ [bit] := by
  have hdiv : (2 * value + bit.toNat) / 2 = value := by
    cases bit with
    | false => simp
    | true => simp; omega
  have hbit : (2 * value + bit.toNat).testBit 0 = bit := by
    cases bit <;> simp [Nat.testBit_zero]
  rw [lastBits, hdiv, hbit]

theorem lastBits_shiftLeft (n k value : Nat) :
    lastBits (n + k) (value <<< k) = lastBits n value ++ List.replicate k false := by
  induction k with
  | zero => simp
  | succ k ih =>
    have hshift : value <<< (k + 1) = 2 * (value <<< k) + false.toNat := by
      rw [Nat.shiftLeft_succ]
      rfl
    rw [hshift, ← Nat.add_assoc, lastBits_double, ih, List.append_assoc, List.replicate_succ']

theorem sixBits_eq (value : Nat) : sixBits value = lastBits 6 value := by
  simp [sixBits, lastBits, Nat.testBit_eq_decide_div_mod_eq, Nat.div_div_eq_div_mul]

theorem lastBits_zero (n : Nat) : lastBits n 0 = List.replicate n false := by
  induction n with
  | zero => rfl
  | succ n ih => rw [lastBits, Nat.zero_div, ih, Nat.zero_testBit, List.replicate_succ']

/-! ## The packer -/

/-- The bits that a packer holds. -/
def Packer.bits (p : Packer) : List Bool :=
  p.full.reverse.flatMap sixBits ++ lastBits p.count p.value

/-- The values of a packer are in their bounds. -/
structure Packer.Sound (p : Packer) : Prop where
  /-- A full letter has six bits. -/
  full_lt : ∀ v ∈ p.full, v < 64
  /-- The open letter has as many bits as it says. -/
  value_lt : p.value < 2 ^ p.count
  /-- The open letter is not full. -/
  count_lt : p.count < 6

namespace Packer.Sound

theorem start : Packer.Sound ⟨[], 0, 0⟩ where
  full_lt := fun v hv => by cases hv
  value_lt := by decide
  count_lt := by decide

theorem push {p : Packer} (h : p.Sound) (bit : Bool) :
    (p.push bit).Sound ∧ (p.push bit).bits = p.bits ++ [bit] := by
  have hvalue : 2 * p.value + bit.toNat < 2 ^ (p.count + 1) := by
    have hlt := h.value_lt
    have hbit := Bool.toNat_le bit
    rw [Nat.pow_succ]
    omega
  unfold Packer.push
  dsimp only
  split
  · next hcount =>
    rw [hcount] at hvalue
    constructor
    · refine ⟨?_, Nat.one_pos, Nat.succ_pos 5⟩
      intro v hv
      cases List.mem_cons.mp hv with
      | inl hv => rw [hv]; exact hvalue
      | inr hv => exact h.full_lt v hv
    · rw [Packer.bits, Packer.bits, List.reverse_cons, List.flatMap_append, List.flatMap_cons,
        List.flatMap_nil, sixBits_eq, lastBits_double, hcount, lastBits, List.append_assoc]
      simp
  · next hcount =>
    have hlt := h.count_lt
    exact ⟨⟨h.full_lt, hvalue, by dsimp only; omega⟩,
      by rw [Packer.bits, Packer.bits, lastBits_double, List.append_assoc]⟩

theorem foldl {p : Packer} (h : p.Sound) (bits : List Bool) :
    (bits.foldl Packer.push p).Sound ∧ (bits.foldl Packer.push p).bits = p.bits ++ bits := by
  induction bits generalizing p with
  | nil => exact ⟨h, (List.append_nil _).symm⟩
  | cons bit bits ih =>
    obtain ⟨hsound, hbits⟩ := h.push bit
    obtain ⟨hsound', hbits'⟩ := ih hsound
    refine ⟨hsound', ?_⟩
    rw [List.foldl_cons, hbits', hbits, List.append_assoc, List.singleton_append]

/-- The letters hold the bits with zeros behind them, and at least one zero. -/
theorem finish {p : Packer} (h : p.Sound) :
    (∀ v ∈ p.finish, v < 64) ∧
      p.finish.flatMap sixBits = p.bits ++ List.replicate (6 - p.count) false := by
  have hlt := h.count_lt
  have hsum : p.count + (6 - p.count) = 6 := by omega
  constructor
  · intro v hv
    rw [Packer.finish, List.mem_reverse, List.mem_cons] at hv
    cases hv with
    | inl hv =>
      rw [hv, Nat.shiftLeft_eq]
      calc p.value * 2 ^ (6 - p.count)
        _ < 2 ^ p.count * 2 ^ (6 - p.count) :=
            Nat.mul_lt_mul_of_pos_right h.value_lt (Nat.two_pow_pos _)
        _ = 64 := by rw [← Nat.pow_add, hsum]
    | inr hv => exact h.full_lt v hv
  · have hlast := lastBits_shiftLeft p.count (6 - p.count) p.value
    rw [hsum] at hlast
    rw [Packer.finish, List.reverse_cons, List.flatMap_append, List.flatMap_cons,
      List.flatMap_nil, List.append_nil, sixBits_eq, hlast, Packer.bits, List.append_assoc]

end Packer.Sound

/-! ## Letters -/

theorem letterValue?_letter : ∀ v < 64, letterValue? (letter v) = some v := by
  decide +kernel

/-- A letter of the alphabet, or the padding sign. -/
def IsLetter (c : Char) : Prop :=
  ('A' ≤ c ∧ c ≤ 'Z') ∨ ('a' ≤ c ∧ c ≤ 'z') ∨ ('0' ≤ c ∧ c ≤ '9') ∨
    c = '+' ∨ c = '/' ∨ c = padding

theorem isLetter_iff_toNat {c : Char} : IsLetter c ↔ (0x41 ≤ c.toNat ∧ c.toNat ≤ 0x5A) ∨
    (0x61 ≤ c.toNat ∧ c.toNat ≤ 0x7A) ∨ (0x30 ≤ c.toNat ∧ c.toNat ≤ 0x39) ∨
    c = '+' ∨ c = '/' ∨ c = padding :=
  Iff.rfl

/-- The letters are the signs that have a value. -/
theorem isSome_letterValue?_iff {c : Char} : (letterValue? c).isSome ↔ IsLetter c := by
  rw [isLetter_iff_toNat]
  constructor
  · intro h
    unfold letterValue? at h
    dsimp only at h
    repeat' split at h
    all_goals simp_all
  · rintro (h | h | h | rfl | rfl | rfl)
    · rw [letterValue?, if_pos h]
      rfl
    · rw [letterValue?, if_neg (by omega), if_pos h]
      rfl
    · rw [letterValue?, if_neg (by omega), if_neg (by omega), if_pos h]
      rfl
    all_goals rfl

/-- A letter is ASCII, and no white space. -/
theorem letterValue?_ascii {c : Char} {v : Nat} (h : letterValue? c = some v) :
    c.toNat < 0x80 ∧ isSpace c = false := by
  have hall : ∀ n < 0x80, letterValue? (Char.ofNat n) = none ∨ isSpace (Char.ofNat n) = false := by
    decide +kernel
  have hletter : IsLetter c := isSome_letterValue?_iff.mp (h ▸ rfl)
  have hlt : c.toNat < 0x80 := by
    rcases isLetter_iff_toNat.mp hletter with h | h | h | rfl | rfl | rfl
    · omega
    · omega
    · omega
    all_goals decide
  refine ⟨hlt, ?_⟩
  have hc := hall c.toNat hlt
  rw [Char.ofNat_toNat, h] at hc
  exact hc.resolve_left (by simp)

/-- Letters are read one by one. -/
theorem mapM_letterValue?_eq_some_iff {letters : List Char} {values : List Nat} :
    letters.mapM letterValue? = some values ↔
      List.Forall₂ (fun c v => letterValue? c = some v) letters values := by
  induction letters generalizing values with
  | nil =>
    rw [List.mapM_nil, List.forall₂_nil_left_iff]
    exact Option.some_inj.trans eq_comm
  | cons c cs ih =>
    rw [List.mapM_cons, List.forall₂_cons_left_iff]
    simp only [Option.bind_eq_bind, Option.bind_eq_some_iff, ih]
    constructor
    · rintro ⟨v, hv, vs, hvs, h⟩
      exact ⟨v, vs, hv, hvs, (Option.some.inj h).symm⟩
    · rintro ⟨v, vs, hv, hvs, rfl⟩
      exact ⟨v, hv, vs, hvs, rfl⟩

theorem mapM_letterValue?_map {values : List Nat} (h : ∀ v ∈ values, v < 64) :
    (values.map letter).mapM letterValue? = some values := by
  rw [mapM_letterValue?_eq_some_iff, List.forall₂_map_left_iff, List.forall₂_same]
  exact fun v hv => letterValue?_letter v (h v hv)

theorem mapM_letterValue?_replicate (n : Nat) :
    (List.replicate n padding).mapM letterValue? = some (List.replicate n 0) := by
  induction n with
  | zero => rfl
  | succ n ih =>
    rw [List.replicate_succ, List.mapM_cons, ih]
    rfl

theorem flatMap_sixBits_replicate (n : Nat) :
    (List.replicate n 0).flatMap sixBits = List.replicate (6 * n) false := by
  induction n with
  | zero => rfl
  | succ n ih =>
    rw [List.replicate_succ, List.flatMap_cons, ih, sixBits_eq, lastBits_zero,
      List.replicate_append_replicate, Nat.mul_succ, Nat.add_comm]

/-! ## Packed bits -/

/-- The letters of some bits are those of values below 64, with padding behind them. -/
theorem exists_pack_eq (bits : List Bool) :
    ∃ values n k, pack bits = values.map letter ++ List.replicate n padding ∧ values ≠ [] ∧
      (∀ v ∈ values, v < 64) ∧
      values.flatMap sixBits = bits ++ List.replicate (k + 1) false := by
  obtain ⟨hsound, hbits⟩ := Packer.Sound.start.foldl bits
  obtain ⟨hlt, hfinish⟩ := hsound.finish
  have hcount : 6 - (bits.foldl Packer.push ⟨[], 0, 0⟩).count =
      5 - (bits.foldl Packer.push ⟨[], 0, 0⟩).count + 1 := by
    have := hsound.count_lt
    omega
  rw [hbits, hcount] at hfinish
  exact ⟨_, _, _, rfl, by simp [Packer.finish], hlt, hfinish⟩

/-- Bits are found again in the letters they are packed into. -/
theorem unpack?_pack (bits : List Bool) :
    ∃ k, unpack? (pack bits) = some (bits ++ List.replicate k false) := by
  obtain ⟨values, n, k, hpack, -, hlt, hbits⟩ := exists_pack_eq bits
  refine ⟨k + 6 * n, ?_⟩
  have hread : (pack bits).mapM letterValue? = some (values ++ List.replicate n 0) := by
    rw [hpack, List.mapM_append, mapM_letterValue?_map hlt, mapM_letterValue?_replicate]
    rfl
  -- The bit that is dropped is a zero.
  have hzeros : List.replicate (k + 1) false ++ List.replicate (6 * n) false =
      List.replicate (k + 6 * n) false ++ [false] := by
    rw [List.replicate_append_replicate, ← List.replicate_succ', Nat.add_right_comm]
  rw [unpack?, hread]
  simp only [Option.bind_eq_bind, Option.bind_some]
  rw [List.flatMap_append, hbits, flatMap_sixBits_replicate, List.append_assoc, hzeros,
    ← List.append_assoc, List.dropLast_concat]
  rfl

theorem pack_ne_nil (bits : List Bool) : pack bits ≠ [] := by
  obtain ⟨values, n, k, hpack, hne, -⟩ := exists_pack_eq bits
  rw [hpack]
  simp [hne]

/-- A letter of packed bits is ASCII, and no white space. -/
theorem ascii_of_mem_pack {bits : List Bool} {c : Char} (hc : c ∈ pack bits) :
    c.toNat < 0x80 ∧ isSpace c = false := by
  obtain ⟨values, n, k, hpack, -, hlt, -⟩ := exists_pack_eq bits
  rw [hpack] at hc
  cases List.mem_append.mp hc with
  | inl hc =>
    obtain ⟨v, hv, rfl⟩ := List.mem_map.mp hc
    exact letterValue?_ascii (letterValue?_letter v (hlt v hv))
  | inr hc =>
    rw [List.eq_of_mem_replicate hc]
    decide

/-- Packed bits have as many octets as letters. -/
theorem size_pack (bits : List Bool) : Utf8.size (pack bits) = (pack bits).length :=
  Utf8.size_of_ascii fun _ hc => (ascii_of_mem_pack hc).1

/-- There is no white space to trim. -/
theorem trim_pack (bits : List Bool) : trim (pack bits) = pack bits := by
  have hnone : ∀ s : List Char, (∀ c ∈ s, isSpace c = false) → s.dropWhile isSpace = s := by
    intro s hs
    cases s with
    | nil => rfl
    | cons c s => exact List.dropWhile_cons_of_neg (by simp [hs c (List.mem_cons_self ..)])
  rw [trim, trimEnd, trimStart, hnone _ fun c hc => (ascii_of_mem_pack hc).2,
    hnone _ fun c hc => (ascii_of_mem_pack (List.mem_reverse.mp hc)).2, List.reverse_reverse]

end Playground.Share
