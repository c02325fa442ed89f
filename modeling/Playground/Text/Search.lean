/-!
# Searching a text

A pattern is a function that tries to match at the start of a text.  `search?`
gives the leftmost match, `splitOn` and `splitFirst?` cut a text at a separator,
and `after?` is the pattern of a fixed text.  `length_of_after?` is the lemma that
ends the recursions on what follows a match, and `join_splitOn` says a cut loses
nothing.
-/

namespace Playground.Text

/-! ## Patterns -/

/-- What follows `p`, if the text starts with `p`. -/
def after? {α : Type} [DecidableEq α] : List α → List α → Option (List α)
  | [], s => some s
  | _ :: _, [] => none
  | a :: p, c :: s => if a = c then after? p s else none

theorem after?_append {α : Type} [DecidableEq α] (p s : List α) :
    after? p (p ++ s) = some s := by
  induction p with
  | nil => rfl
  | cons a p ih => simp [after?, ih]

theorem eq_append_of_after? {α : Type} [DecidableEq α] :
    ∀ {p s r : List α}, after? p s = some r → s = p ++ r
  | [], s, r, h => by simpa [after?] using h
  | _ :: _, [], _, h => by simp [after?] at h
  | a :: p, c :: s, r, h => by
      by_cases hac : a = c
      · subst hac
        rw [after?, if_pos rfl] at h
        rw [eq_append_of_after? h, List.cons_append]
      · rw [after?, if_neg hac] at h
        cases h

theorem length_of_after? {α : Type} [DecidableEq α] {p s r : List α}
    (h : after? p s = some r) : s.length = p.length + r.length := by
  rw [eq_append_of_after? h, List.length_append]

/-- The result of the pattern `f` at the leftmost place where it matches. -/
def search? {α : Type} (f : List Char → Option α) : List Char → Option α
  | [] => f []
  | c :: s =>
    match f (c :: s) with
    | some r => some r
    | none => search? f s

/-- The text `p` occurs in the text `s`. -/
def contains (p s : List Char) : Bool := (search? (after? p) s).isSome

/-! ## Separators -/

/-- Puts a character before the pieces of the text that follows it. -/
def splitStep (sep c : Char) : List (List Char) → List (List Char)
  | [] => [[]]
  | p :: ps => if c = sep then [] :: p :: ps else (c :: p) :: ps

/-- The pieces of a text between the separators.  There is one more than there are
separators. -/
def splitOn (sep : Char) (s : List Char) : List (List Char) := s.foldr (splitStep sep) [[]]

/-- The text before and after the first separator. -/
def splitFirst? (sep : Char) (s : List Char) : Option (List Char × List Char) :=
  match s.dropWhile (· ≠ sep) with
  | [] => none
  | _ :: r => some (s.takeWhile (· ≠ sep), r)

/-- The pieces joined by a separator. -/
def join (sep : Char) : List (List Char) → List Char
  | [] => []
  | [p] => p
  | p :: q :: ps => p ++ sep :: join sep (q :: ps)

theorem splitOn_nil (sep : Char) : splitOn sep [] = [[]] := rfl

theorem splitOn_ne_nil (sep : Char) (s : List Char) : splitOn sep s ≠ [] := by
  cases s with
  | nil => simp [splitOn]
  | cons c s =>
    rw [splitOn, List.foldr_cons]
    cases s.foldr (splitStep sep) [[]] with
    | nil => simp [splitStep]
    | cons p ps => rw [splitStep]; split <;> simp

/-- Joining the pieces gives the text back. -/
theorem join_splitOn (sep : Char) (s : List Char) : join sep (splitOn sep s) = s := by
  induction s with
  | nil => rfl
  | cons c s ih =>
    rw [splitOn, List.foldr_cons]
    rw [splitOn] at ih
    cases hs : s.foldr (splitStep sep) [[]] with
    | nil => exact absurd hs (splitOn_ne_nil sep s)
    | cons p ps =>
      rw [hs] at ih
      rw [splitStep]
      split
      · next h => rw [join, ih, h, List.nil_append]
      · cases ps with
        | nil => simpa [join] using ih
        | cons q qs => simpa [join] using ih

/-- The first separator and what stands before and after it make up the text. -/
theorem eq_of_splitFirst? {sep : Char} {s a b : List Char} (h : splitFirst? sep s = some (a, b)) :
    s = a ++ sep :: b := by
  unfold splitFirst? at h
  split at h
  · cases h
  · next d r hd =>
    cases h
    have hs := List.takeWhile_append_dropWhile (p := (· ≠ sep)) (l := s)
    have hsep : d = sep := by
      have := List.head?_dropWhile_not (· ≠ sep) s
      rw [hd] at this
      simpa using this
    rw [hd, hsep] at hs
    exact hs.symm

end Playground.Text
