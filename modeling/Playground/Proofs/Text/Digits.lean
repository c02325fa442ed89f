import Mathlib.Algebra.Ring.Nat
import Playground.Text.Digit

/-!
# Written numbers

A number that is written out in digits is read back (`readWord?_wordDigits`), and takes no more
digits than any other way to write it or a greater number (`length_wordDigits_le`).
-/

namespace Playground.Text

theorem isDigit_of_mem_wordDigits {n : Nat} {c : Char} (hc : c ∈ wordDigits n) :
    c.isDigit = true :=
  Nat.isDigit_of_mem_toDigits (by decide) (by decide) hc

theorem ascii_of_isDigit {c : Char} (h : c.isDigit = true) : c.toNat < 0x80 := by
  simp only [Char.isDigit, Bool.and_eq_true, decide_eq_true_eq, UInt32.le_iff_toNat_le] at h
  exact Nat.lt_of_le_of_lt h.2 (by decide)

theorem wordDigits_ne_nil (n : Nat) : wordDigits n ≠ [] :=
  Nat.toDigits_ne_nil

theorem digitsValue_wordDigits (n : Nat) : digitsValue (wordDigits n) = n := by
  have h : Nat.ofDigitChars 10 (Nat.toDigits 10 n) 0 = n := Nat.ofDigitChars_ten_toDigits
  rwa [Nat.ofDigitChars_eq_foldl] at h

theorem readWord?_wordDigits {n : Nat} (h : n < wordBound) : readWord? (wordDigits n) = some n := by
  have hall : (wordDigits n).all Char.isDigit = true :=
    List.all_eq_true.mpr fun _ hc => isDigit_of_mem_wordDigits hc
  rw [readWord?, digitsValue_wordDigits, if_pos ⟨wordDigits_ne_nil n, hall, h⟩]

theorem readWord?_eq_some {ds : List Char} {n : Nat} (h : readWord? ds = some n) :
    ds ≠ [] ∧ (∀ c ∈ ds, c.isDigit = true) ∧ n = digitsValue ds := by
  unfold readWord? at h
  split at h
  · next hc =>
    cases h
    exact ⟨hc.1, List.all_eq_true.mp hc.2.1, rfl⟩
  · cases h

theorem digitsValue_lt {ds : List Char} (h : ∀ c ∈ ds, c.isDigit = true) :
    digitsValue ds < 10 ^ ds.length := by
  have hfold : ∀ acc, ds.foldl (fun n d => 10 * n + (d.toNat - '0'.toNat)) acc <
      (acc + 1) * 10 ^ ds.length := by
    induction ds with
    | nil => intro acc; simp
    | cons d ds ih =>
      intro acc
      have hd := h d (List.mem_cons_self ..)
      simp only [Char.isDigit, Bool.and_eq_true, decide_eq_true_eq, UInt32.le_iff_toNat_le] at hd
      have hd9 : d.toNat - '0'.toNat ≤ 9 := Nat.sub_le_sub_right hd.2 48
      have hstep : 10 * acc + (d.toNat - '0'.toNat) + 1 ≤ (acc + 1) * 10 := by omega
      calc ds.foldl _ (10 * acc + (d.toNat - '0'.toNat))
        _ < (10 * acc + (d.toNat - '0'.toNat) + 1) * 10 ^ ds.length :=
            ih (fun c hc => h c (List.mem_cons_of_mem d hc)) _
        _ ≤ (acc + 1) * 10 * 10 ^ ds.length := Nat.mul_le_mul_right _ hstep
        _ = (acc + 1) * 10 ^ (d :: ds).length := by
            rw [List.length_cons, Nat.pow_succ, Nat.mul_assoc, Nat.mul_comm 10]
  have hzero := hfold 0
  rwa [Nat.zero_add, Nat.one_mul] at hzero

/-- A number that is no greater than the one read from some digits has no more digits. -/
theorem length_wordDigits_le {ds : List Char} {n m : Nat} (h : readWord? ds = some n)
    (hm : m ≤ n) : (wordDigits m).length ≤ ds.length := by
  obtain ⟨hne, hall, rfl⟩ := readWord?_eq_some h
  rw [wordDigits, Nat.length_toDigits_le_iff (by decide) (List.length_pos_iff.mpr hne)]
  exact Nat.lt_of_le_of_lt hm (digitsValue_lt hall)

/-- Only the number zero starts with a zero. -/
theorem head?_wordDigits_ne {n : Nat} (h : n ≠ 0) : (wordDigits n).head? ≠ some '0' := by
  induction n using Nat.strongRecOn with
  | ind n ih =>
    by_cases hn : n < 10
    · have hall : ∀ k < 10, k ≠ 0 → k.digitChar ≠ '0' := by decide
      rw [wordDigits, Nat.toDigits_of_lt_base hn]
      simpa using hall n hn h
    · have hih := ih (n / 10) (by omega) (by omega)
      rw [wordDigits, Nat.toDigits_of_base_le (by decide) (by omega), List.head?_append]
      cases hs : Nat.toDigits 10 (n / 10) with
      | nil => exact absurd hs (wordDigits_ne_nil (n / 10))
      | cons c cs =>
        rw [wordDigits, hs] at hih
        exact hih

end Playground.Text
