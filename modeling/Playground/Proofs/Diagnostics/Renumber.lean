import Playground.Diagnostics.Reference
import Playground.Proofs.Text.Runs

/-!
# Renumbered messages

A message with other digits in its references.  Only the runs of digits behind
`<source>:` change, so what is read up to the next angle bracket is the same before and
after (`after?_renumber`, `takeWhile_renumber`), and a reference stands where one stood
(`referenceAt?_renumber`).  Between two separators that no reference holds, a part is
renumbered on its own (`renumber_append_cons`).
-/

namespace Playground

open Text

/-! ## References and pieces -/

theorem referenceAt?_of_ne {c : Char} (hc : c ≠ '<') (s : List Char) :
    referenceAt? (c :: s) = none := by
  have hafter : after? sourceMark (c :: s) = none := by
    rw [sourceMark, after?, if_neg (Ne.symm hc)]
  rw [referenceAt?, hafter]

/-- A reference is the mark, some digits, and something else behind them. -/
theorem eq_of_referenceAt? {s ds r : List Char} (h : referenceAt? s = some (ds, r)) :
    s = sourceMark ++ (ds ++ r) ∧ ds ≠ [] ∧ (∀ c ∈ ds, isDigit c = true) ∧
      ∀ c, r.head? = some c → isDigit c = false := by
  unfold referenceAt? at h
  split at h
  · cases h
  · next t ht =>
    split at h
    · cases h
    · next hne =>
      cases h
      refine ⟨?_, hne, fun c hc => List.mem_takeWhile_imp hc,
        fun c hc => eq_false_of_head?_dropWhile hc⟩
      rw [eq_append_of_after? ht, List.takeWhile_append_dropWhile]

theorem referenceAt?_append {ds r : List Char} (hne : ds ≠ [])
    (hds : ∀ c ∈ ds, isDigit c = true) (hr : ∀ c, r.head? = some c → isDigit c = false) :
    referenceAt? (sourceMark ++ (ds ++ r)) = some (ds, r) := by
  obtain ⟨htake, hdrop⟩ := takeWhile_append_of_head hds hr
  rw [referenceAt?, after?_append]
  dsimp only
  rw [htake, hdrop, if_neg hne]

theorem pieces_nil : pieces [] = [] := by
  rw [pieces]

theorem pieces_of_none {c : Char} {s : List Char} (h : referenceAt? (c :: s) = none) :
    pieces (c :: s) = .char c :: pieces s := by
  rw [pieces]
  split
  · rfl
  · next h' => rw [h] at h'; cases h'

theorem pieces_of_some {s ds r : List Char} (h : referenceAt? s = some (ds, r)) :
    pieces s = sourceMark.map .char ++ .number ds :: pieces r := by
  cases s with
  | nil => cases h
  | cons c s =>
    rw [pieces]
    split
    · next h' => rw [h] at h'; cases h'
    · next h' =>
      rw [h] at h'
      cases h'
      rfl

/-! ## Other digits -/

/-- The text of a piece with other digits. -/
def Piece.renumbered (f : List Char → List Char) : Piece → List Char
  | .char c => [c]
  | .number ds => f ds

/-- The message with other digits in its references. -/
def renumber (f : List Char → List Char) (s : List Char) : List Char :=
  (pieces s).flatMap (Piece.renumbered f)

/-- Digits are turned into digits. -/
def KeepsDigits (f : List Char → List Char) : Prop :=
  ∀ ds, ds ≠ [] → (∀ c ∈ ds, isDigit c = true) → f ds ≠ [] ∧ ∀ c ∈ f ds, isDigit c = true

variable {f : List Char → List Char}

theorem renumber_nil : renumber f [] = [] := by
  rw [renumber, pieces_nil, List.flatMap_nil]

theorem renumber_of_none {c : Char} {s : List Char} (h : referenceAt? (c :: s) = none) :
    renumber f (c :: s) = c :: renumber f s := by
  rw [renumber, pieces_of_none h, List.flatMap_cons]
  rfl

theorem renumber_of_some {s ds r : List Char} (h : referenceAt? s = some (ds, r)) :
    renumber f s = sourceMark ++ (f ds ++ renumber f r) := by
  rw [renumber, pieces_of_some h, List.flatMap_append, List.flatMap_cons]
  rfl

theorem renumber_cons {c : Char} (hc : c ≠ '<') (s : List Char) :
    renumber f (c :: s) = c :: renumber f s :=
  renumber_of_none (referenceAt?_of_ne hc s)

theorem renumber_eq_self (hf : ∀ ds, f ds = ds) (s : List Char) : renumber f s = s := by
  induction s using pieces.induct with
  | case1 => exact renumber_nil
  | case2 c s h ih => rw [renumber_of_none h, ih]
  | case3 c s ds r h ih =>
    rw [renumber_of_some h, ih, hf]
    exact (eq_of_referenceAt? h).1.symm

/-- A message starts with the same character after it is renumbered. -/
theorem head?_renumber (s : List Char) : (renumber f s).head? = s.head? := by
  cases s with
  | nil => rw [renumber_nil]
  | cons c s =>
    cases h : referenceAt? (c :: s) with
    | none => rw [renumber_of_none h]; rfl
    | some found =>
      rw [renumber_of_some h, (eq_of_referenceAt? h).1]
      rfl

/-- Every character of the message is one of the old message or a digit. -/
theorem mem_renumber (hf : KeepsDigits f) {s : List Char} {d : Char} (hd : d ∈ renumber f s) :
    d ∈ s ∨ isDigit d = true := by
  induction s using pieces.induct with
  | case1 =>
    rw [renumber_nil] at hd
    exact Or.inl hd
  | case2 c s h ih =>
    rw [renumber_of_none h] at hd
    cases List.mem_cons.mp hd with
    | inl hd => exact Or.inl (hd ▸ List.mem_cons_self ..)
    | inr hd => exact (ih hd).imp_left (List.mem_cons_of_mem c)
  | case3 c s ds r h ih =>
    rw [renumber_of_some h] at hd
    obtain ⟨hs, hne, hds, -⟩ := eq_of_referenceAt? h
    rw [hs]
    rcases List.mem_append.mp hd with hd | hd
    · exact Or.inl (List.mem_append_left _ hd)
    · cases List.mem_append.mp hd with
      | inl hd => exact Or.inr ((hf ds hne hds).2 d hd)
      | inr hd =>
        exact (ih hd).imp_left fun h => List.mem_append_right _ (List.mem_append_right _ h)

/-! ## Up to the next angle bracket -/

theorem renumber_append {p : List Char} (hp : '<' ∉ p) (s : List Char) :
    renumber f (p ++ s) = p ++ renumber f s := by
  induction p with
  | nil => rfl
  | cons c p ih =>
    rw [List.mem_cons, not_or] at hp
    rw [List.cons_append, renumber_cons (Ne.symm hp.1), ih hp.2, List.cons_append]

/-- What stands in the new message before the first angle bracket stood in the old one. -/
theorem exists_of_renumber_eq_append {p t : List Char} (hp : '<' ∉ p) {s : List Char}
    (h : renumber f s = p ++ t) : ∃ r, s = p ++ r ∧ t = renumber f r := by
  induction p generalizing s with
  | nil => exact ⟨s, rfl, h.symm⟩
  | cons c p ih =>
    rw [List.mem_cons, not_or] at hp
    cases s with
    | nil =>
      rw [renumber_nil] at h
      cases h
    | cons d s =>
      cases hd : referenceAt? (d :: s) with
      | some found =>
        rw [renumber_of_some hd] at h
        exact absurd (List.cons.inj h).1 hp.1
      | none =>
        rw [renumber_of_none hd] at h
        obtain ⟨hdc, hs⟩ := List.cons.inj h
        obtain ⟨r, hr, ht⟩ := ih hp.2 hs
        exact ⟨r, by rw [hdc, hr, List.cons_append], ht⟩

theorem after?_renumber {p : List Char} (hp : '<' ∉ p) (s : List Char) :
    after? p (renumber f s) = (after? p s).map (renumber f) := by
  cases h : after? p s with
  | some r =>
    rw [eq_append_of_after? h, renumber_append hp]
    exact after?_append p (renumber f r)
  | none =>
    cases h' : after? p (renumber f s) with
    | none => rfl
    | some t =>
      obtain ⟨r, hs, -⟩ := exists_of_renumber_eq_append hp (eq_append_of_after? h')
      rw [hs, after?_append] at h
      cases h

theorem takeWhile_renumber {p : Char → Bool} (hp : p '<' = false) (s : List Char) :
    (renumber f s).takeWhile p = s.takeWhile p ∧
      (renumber f s).dropWhile p = renumber f (s.dropWhile p) := by
  induction s with
  | nil =>
    rw [renumber_nil]
    exact ⟨rfl, renumber_nil.symm⟩
  | cons c s ih =>
    by_cases hc : p c = true
    · have hne : c ≠ '<' := by
        rintro rfl
        rw [hp] at hc
        cases hc
      rw [renumber_cons hne, List.takeWhile_cons_of_pos hc, List.takeWhile_cons_of_pos hc,
        List.dropWhile_cons_of_pos hc, List.dropWhile_cons_of_pos hc, ih.1]
      exact ⟨rfl, ih.2⟩
    · rw [List.takeWhile_cons_of_neg hc, List.dropWhile_cons_of_neg hc]
      cases h : referenceAt? (c :: s) with
      | none =>
        rw [renumber_of_none h, List.takeWhile_cons_of_neg hc, List.dropWhile_cons_of_neg hc]
        exact ⟨rfl, rfl⟩
      | some found =>
        -- The message starts with the mark, before and after.
        rw [renumber_of_some h, sourceMark, List.cons_append,
          List.takeWhile_cons_of_neg (by simp [hp]), List.dropWhile_cons_of_neg (by simp [hp])]
        exact ⟨rfl, rfl⟩

theorem referenceAt?_renumber (hf : KeepsDigits f) (s : List Char) :
    referenceAt? (renumber f s) =
      (referenceAt? s).map fun found => (f found.1, renumber f found.2) := by
  have hbracket : isDigit '<' = false := by decide
  cases h : referenceAt? s with
  | some found =>
    obtain ⟨ds, r⟩ := found
    obtain ⟨-, hne, hds, hr⟩ := eq_of_referenceAt? h
    obtain ⟨hfne, hfds⟩ := hf ds hne hds
    have hstop : ∀ c, (renumber f r).head? = some c → isDigit c = false := by
      intro c hc
      rw [head?_renumber] at hc
      exact hr c hc
    rw [renumber_of_some h, referenceAt?_append hfne hfds hstop]
    rfl
  | none =>
    cases s with
    | nil =>
      rw [renumber_nil]
      rfl
    | cons c s =>
      by_cases hc : c = '<'
      · rw [renumber_of_none h]
        rw [hc, referenceAt?, sourceMark, after?, if_pos rfl] at h ⊢
        rw [after?_renumber (by decide)]
        cases hs : after? ['s', 'o', 'u', 'r', 'c', 'e', '>', ':'] s with
        | none => rfl
        | some r =>
          rw [hs] at h
          dsimp only [Option.map_some] at h ⊢
          obtain ⟨htake, -⟩ := takeWhile_renumber (f := f) hbracket r
          rw [htake]
          split at h
          · next hnil =>
            rw [if_pos hnil]
            rfl
          · cases h
      · rw [renumber_cons hc, referenceAt?_of_ne hc]
        rfl

/-! ## Between two separators -/

/-- A character that no reference holds. -/
def Separates (c : Char) : Prop := c ∉ sourceMark ∧ isDigit c = false

theorem Separates.ne_bracket {c : Char} (hc : Separates c) : c ≠ '<' := by
  rintro rfl
  exact hc.1 (List.mem_cons_self ..)

theorem after?_append_cons {p : List Char} {c : Char} (hc : c ∉ p) (u v : List Char) :
    after? p (u ++ c :: v) = (after? p u).map (· ++ c :: v) := by
  induction p generalizing u with
  | nil => rfl
  | cons a p ih =>
    rw [List.mem_cons, not_or] at hc
    cases u with
    | nil =>
      rw [List.nil_append, after?, after?, if_neg (Ne.symm hc.1)]
      rfl
    | cons d u =>
      rw [List.cons_append, after?, after?]
      split
      · exact ih hc.2 u
      · rfl

theorem referenceAt?_append_cons {c : Char} (hc : Separates c) (u v : List Char) :
    referenceAt? (u ++ c :: v) = (referenceAt? u).map fun found => (found.1, found.2 ++ c :: v) := by
  have hcut : ∀ r : List Char, (r ++ c :: v).takeWhile isDigit = r.takeWhile isDigit ∧
      (r ++ c :: v).dropWhile isDigit = r.dropWhile isDigit ++ c :: v := by
    intro r
    induction r with
    | nil =>
      rw [List.nil_append, List.takeWhile_cons_of_neg (by simp [hc.2]),
        List.dropWhile_cons_of_neg (by simp [hc.2])]
      exact ⟨rfl, rfl⟩
    | cons d r ih =>
      rw [List.cons_append, List.takeWhile_cons, List.takeWhile_cons, List.dropWhile_cons,
        List.dropWhile_cons, ih.1]
      split
      · exact ⟨rfl, ih.2⟩
      · exact ⟨rfl, rfl⟩
  rw [referenceAt?, referenceAt?, after?_append_cons hc.1]
  cases after? sourceMark u with
  | none => rfl
  | some r =>
    dsimp only [Option.map_some]
    rw [(hcut r).1, (hcut r).2]
    split <;> rfl

/-- What is before a separator and what is behind it are renumbered on their own. -/
theorem renumber_append_cons {c : Char} (hc : Separates c) (u v : List Char) :
    renumber f (u ++ c :: v) = renumber f u ++ c :: renumber f v := by
  induction u using pieces.induct with
  | case1 => rw [renumber_nil, List.nil_append, List.nil_append, renumber_cons hc.ne_bracket]
  | case2 d u h ih =>
    have h' : referenceAt? (d :: (u ++ c :: v)) = none := by
      rw [← List.cons_append, referenceAt?_append_cons hc, h, Option.map_none]
    rw [List.cons_append, renumber_of_none h', renumber_of_none h, ih, List.cons_append]
  | case3 d u ds r h ih =>
    have h' : referenceAt? (d :: u ++ c :: v) = some (ds, r ++ c :: v) := by
      rw [referenceAt?_append_cons hc, h, Option.map_some]
    rw [renumber_of_some h', renumber_of_some h, ih]
    simp only [List.append_assoc]

/-- The first line of the new message is the first line of the old one, renumbered. -/
theorem takeWhile_newline_renumber (hf : KeepsDigits f) (s : List Char) :
    (renumber f s).takeWhile (· ≠ '\n') = renumber f (s.takeWhile (· ≠ '\n')) := by
  have hkeep : ∀ d ∈ renumber f (s.takeWhile (· ≠ '\n')), decide (d ≠ '\n') = true := by
    intro d hd
    cases mem_renumber hf hd with
    | inl hmem => exact List.mem_takeWhile_imp (p := (· ≠ '\n')) hmem
    | inr hdigit =>
      refine decide_eq_true ?_
      rintro rfl
      cases hdigit
  have hs := List.takeWhile_append_dropWhile (p := (· ≠ '\n')) (l := s)
  cases hdrop : s.dropWhile (· ≠ '\n') with
  | nil =>
    rw [hdrop, List.append_nil] at hs
    rw [hs] at hkeep ⊢
    exact List.takeWhile_eq_self_iff.mpr hkeep
  | cons c v =>
    have hc : c = '\n' := by
      have hnot := eq_false_of_head?_dropWhile (congrArg List.head? hdrop)
      simpa using hnot
    rw [hdrop, hc] at hs
    have hsep : Separates '\n' := ⟨by decide, by decide⟩
    calc (renumber f s).takeWhile (· ≠ '\n')
      _ = (renumber f (s.takeWhile (· ≠ '\n')) ++ '\n' :: renumber f v).takeWhile (· ≠ '\n') := by
          rw [← renumber_append_cons hsep, hs]
      _ = renumber f (s.takeWhile (· ≠ '\n')) := by
          rw [List.takeWhile_append_of_pos hkeep, List.takeWhile_cons_of_neg (by simp),
            List.append_nil]

end Playground
