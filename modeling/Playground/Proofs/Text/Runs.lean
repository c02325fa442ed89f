import Mathlib.Data.List.TakeWhile

/-!
# Runs

The run of characters with a property at the start of a text, and what follows it.  A run
is found again in front of what does not go on with it (`takeWhile_append_of_head`).
-/

namespace Playground.Text

variable {p : Char → Bool}

/-- What follows a run starts with a character without the property. -/
theorem eq_false_of_head?_dropWhile {s : List Char} {c : Char}
    (h : (s.dropWhile p).head? = some c) : p c = false := by
  have hnot := List.head?_dropWhile_not p s
  rw [h] at hnot
  exact hnot

theorem takeWhile_append_of_head {a r : List Char} (ha : ∀ c ∈ a, p c = true)
    (hr : ∀ c, r.head? = some c → p c = false) :
    (a ++ r).takeWhile p = a ∧ (a ++ r).dropWhile p = r := by
  rw [List.takeWhile_append_of_pos ha, List.dropWhile_append_of_pos ha]
  cases r with
  | nil => exact ⟨List.append_nil a, rfl⟩
  | cons c r =>
    have hc : ¬p c = true := by
      rw [hr c rfl]
      exact Bool.false_ne_true
    rw [List.takeWhile_cons_of_neg hc, List.dropWhile_cons_of_neg hc, List.append_nil]
    exact ⟨rfl, rfl⟩

/-- A run ends before a character without the property. -/
theorem takeWhile_append_cons {c : Char} (hc : p c = false) (a r : List Char) :
    (a ++ c :: r).takeWhile p = a.takeWhile p := by
  induction a with
  | nil => exact List.takeWhile_cons_of_neg (by simp [hc])
  | cons d a ih => rw [List.cons_append, List.takeWhile_cons, List.takeWhile_cons, ih]

theorem dropWhile_append_cons {c : Char} (hc : p c = false) (a r : List Char) :
    (a ++ c :: r).dropWhile p = a.dropWhile p ++ c :: r := by
  induction a with
  | nil => exact List.dropWhile_cons_of_neg (by simp [hc])
  | cons d a ih =>
    rw [List.cons_append, List.dropWhile_cons, List.dropWhile_cons, ih]
    split <;> rfl

/-- A start of a text with a property is no longer than the longest one. -/
theorem length_le_of_eq_append {s a b : List Char} (hs : s = a ++ b)
    (ha : ∀ c ∈ a, p c = true) : a.length ≤ (s.takeWhile p).length := by
  rw [hs, List.takeWhile_append_of_pos ha, List.length_append]
  exact Nat.le_add_right _ _

end Playground.Text
