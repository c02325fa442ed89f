import Mathlib.Data.List.Basic
import Playground.Text.Search

/-!
# Leftmost matches

What `search?` finds.  A match is the leftmost one if the pattern matches at no earlier
place (`search?_eq_some_iff`), and a part of a text in which the pattern matches nowhere
is passed over (`search?_append`).
-/

namespace Playground.Text

variable {α β : Type} {f : List Char → Option α}

theorem search?_of_some {s : List Char} {x : α} (h : f s = some x) : search? f s = some x := by
  cases s with
  | nil => exact h
  | cons c s => rw [search?, h]

theorem search?_of_none {c : Char} {s : List Char} (h : f (c :: s) = none) :
    search? f (c :: s) = search? f s := by
  rw [search?, h]

/-- A part in which the pattern matches nowhere is passed over. -/
theorem search?_append {a s : List Char}
    (h : ∀ p q, a = p ++ q → q ≠ [] → f (q ++ s) = none) : search? f (a ++ s) = search? f s := by
  induction a with
  | nil => rfl
  | cons c a ih =>
    have hnone : f (c :: (a ++ s)) = none := h [] (c :: a) rfl (List.cons_ne_nil c a)
    rw [List.cons_append, search?_of_none hnone]
    exact ih fun p q hpq hq => h (c :: p) q (by rw [hpq, List.cons_append]) hq

theorem search?_eq_none_iff {s : List Char} :
    search? f s = none ↔ ∀ a b, s = a ++ b → f b = none := by
  induction s with
  | nil =>
    constructor
    · intro h a b hs
      rw [(List.append_eq_nil_iff.mp hs.symm).2]
      exact h
    · intro h
      exact h [] [] rfl
  | cons c s ih =>
    constructor
    · intro h a b hs
      cases hc : f (c :: s) with
      | some x => rw [search?_of_some hc] at h; cases h
      | none =>
        rw [search?_of_none hc] at h
        cases a with
        | nil =>
          rw [List.nil_append] at hs
          rw [← hs, hc]
        | cons d a => exact ih.mp h a b (List.cons.inj hs).2
    · intro h
      rw [search?_of_none (h [] (c :: s) rfl)]
      exact ih.mpr fun a b hs => h (c :: a) b (by rw [hs, List.cons_append])

/-- The pattern matches where the search says, and at no earlier place. -/
theorem search?_eq_some_iff {s : List Char} {x : α} :
    search? f s = some x ↔ ∃ a b, s = a ++ b ∧ f b = some x ∧
      ∀ c d, s = c ++ d → c.length < a.length → f d = none := by
  induction s with
  | nil =>
    constructor
    · intro h
      exact ⟨[], [], rfl, h, fun c d _ hc => absurd hc (Nat.not_lt_zero _)⟩
    · rintro ⟨a, b, hs, hb, -⟩
      rw [(List.append_eq_nil_iff.mp hs.symm).2] at hb
      exact hb
  | cons e s ih =>
    cases he : f (e :: s) with
    | some y =>
      rw [search?_of_some he]
      constructor
      · intro h
        exact ⟨[], e :: s, rfl, he.trans h, fun c d _ hc => absurd hc (Nat.not_lt_zero _)⟩
      · rintro ⟨a, b, hs, hb, hfirst⟩
        cases a with
        | nil => rw [← he, hs, List.nil_append, hb]
        | cons c a =>
          rw [hfirst [] (e :: s) rfl (Nat.succ_pos _)] at he
          cases he
    | none =>
      rw [search?_of_none he, ih]
      constructor
      · rintro ⟨a, b, hs, hb, hfirst⟩
        refine ⟨e :: a, b, by rw [hs, List.cons_append], hb, ?_⟩
        intro c d hcd hlen
        cases c with
        | nil => rw [← he, hcd, List.nil_append]
        | cons c' c => exact hfirst c d (List.cons.inj hcd).2 (Nat.lt_of_succ_lt_succ hlen)
      · rintro ⟨a, b, hs, hb, hfirst⟩
        cases a with
        | nil => rw [List.nil_append] at hs; rw [hs, hb] at he; cases he
        | cons c a =>
          refine ⟨a, b, (List.cons.inj hs).2, hb, ?_⟩
          intro c' d hcd hlen
          exact hfirst (e :: c') d (by rw [hcd, List.cons_append]) (Nat.succ_lt_succ hlen)

/-- A function of what the pattern gives can be applied to what the search gives. -/
theorem search?_map (g : α → β) (s : List Char) :
    search? (fun t => (f t).map g) s = (search? f s).map g := by
  induction s with
  | nil => rfl
  | cons c s ih =>
    cases h : f (c :: s) with
    | some x =>
      rw [search?_of_some h]
      exact search?_of_some (by rw [h]; rfl)
    | none =>
      rw [search?_of_none h, ← ih]
      exact search?_of_none (by rw [h]; rfl)

end Playground.Text
