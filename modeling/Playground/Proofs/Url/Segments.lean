import Mathlib.Data.List.Basic
import Playground.Proofs.Text.Pieces
import Playground.Url.Address

/-!
# Segments of a path

What becomes of the segments that stand behind others (`climb`): a segment is put behind them
with percent signs, or it is one of dots.  So what is left are some of the earlier segments,
and behind them some of the new ones (`exists_climb_eq`).
-/

namespace Playground.Url

open Text

/-- The segment is one of dots. -/
def IsDots (s : List Char) : Prop := isDot s = true ∨ isDotDot s = true

/-- The segments of a text, where a backslash means a slash. -/
def pieces (s : List Char) : List (List Char) :=
  splitOn '/' (s.map fun c => if isSlash true c then '/' else c)

/-- A text that holds nothing that means a slash is left as it is. -/
theorem map_isSlash_eq_self {s : List Char} (h : ∀ c ∈ s, isSlash true c = false) :
    (s.map fun c => if isSlash true c then '/' else c) = s := by
  have hkept : ∀ c ∈ s, (if isSlash true c then '/' else c) = id c := by
    intro c hc
    rw [h c hc]
    rfl
  rw [List.map_congr_left hkept, List.map_id]

theorem pieces_eq_singleton {s : List Char} (hslash : '/' ∉ s) (hback : '\\' ∉ s) :
    pieces s = [s] := by
  have hkept : ∀ c ∈ s, isSlash true c = false := by
    intro c hc
    have hne : ∀ {d}, d ∉ s → c ≠ d := by
      rintro d hd rfl
      exact hd hc
    simp [isSlash, hne hslash, hne hback]
  rw [pieces, map_isSlash_eq_self hkept]
  exact splitOn_eq_singleton hslash

theorem pieces_ne_nil (s : List Char) : pieces s ≠ [] := splitOn_ne_nil '/' _

theorem pieces_append_slash (a w : List Char) : pieces (a ++ '/' :: w) = pieces a ++ pieces w := by
  rw [pieces, List.map_append, List.map_cons]
  exact splitOn_append_sep '/' _ _

/-- A segment is a part of the text without slashes, and without what means one. -/
theorem infix_of_mem_pieces {s t : List Char} (h : s ∈ pieces t) :
    s <:+: t ∧ '/' ∉ s ∧ '\\' ∉ s := by
  have hslash : '/' ∉ s := not_mem_of_mem_splitOn h
  obtain ⟨ps, qs, hsplit⟩ := List.append_of_mem h
  obtain ⟨a, b, hab, -, -⟩ := exists_eq_append_of_splitOn hsplit
  obtain ⟨t₁, t₂, rfl, -, ht₂⟩ := List.map_eq_append_iff.mp hab
  obtain ⟨m, t₃, rfl, hm, -⟩ := List.map_eq_append_iff.mp ht₂
  -- What is no slash has not been changed.
  have hkept : ∀ c ∈ m, isSlash true c = false := by
    intro c hc
    rw [← Bool.not_eq_true]
    intro hc'
    refine hslash (hm ▸ List.mem_map.mpr ⟨c, hc, ?_⟩)
    exact if_pos hc'
  obtain rfl : m = s := by rw [← hm, map_isSlash_eq_self hkept]
  refine ⟨⟨t₁, t₃, by rw [List.append_assoc]⟩, hslash, fun hmem => ?_⟩
  exact absurd (hkept _ hmem) (by decide)

/-- The segments that are left, with the last one first, when `ss` come behind those in
`done`, and more come behind them. -/
def climb (done : List (List Char)) : List (List Char) → List (List Char)
  | [] => done
  | s :: ss =>
    if isDotDot s then climb (done.drop 1) ss
    else if isDot s then climb done ss
    else climb (Percent.encode keptInPath s :: done) ss

theorem resolve_append (done ss : List (List Char)) {rs : List (List Char)} (hrs : rs ≠ []) :
    resolve done (ss ++ rs) = resolve (climb done ss) rs := by
  induction ss generalizing done with
  | nil => rfl
  | cons s ss ih =>
    have hne : ss ++ rs ≠ [] := List.append_ne_nil_of_right_ne_nil ss hrs
    rw [List.cons_append, resolve, climb]
    cases isDotDot s with
    | true => simp [hne, ih]
    | false => cases isDot s <;> simp [hne, ih]

/-- The last segment is written down, unless it is one of dots. -/
theorem resolve_concat (done ss : List (List Char)) {s : List Char} (hs : ¬ IsDots s) :
    resolve done (ss ++ [s]) = (climb done ss).reverse ++ [Percent.encode keptInPath s] := by
  rw [IsDots, not_or, Bool.not_eq_true, Bool.not_eq_true] at hs
  rw [resolve_append done ss (List.cons_ne_nil s [])]
  simp [resolve, hs]

/-- A last segment of dots leaves an empty one. -/
theorem resolve_concat_dots (done ss : List (List Char)) {s : List Char} (hs : IsDots s) :
    ∃ k, resolve done (ss ++ [s]) = ((climb done ss).drop k).reverse ++ [[]] := by
  rw [resolve_append done ss (List.cons_ne_nil s [])]
  by_cases hup : isDotDot s = true
  · exact ⟨1, by simp [resolve, hup]⟩
  · have hdot : isDot s = true := hs.resolve_right hup
    exact ⟨0, by simp [resolve, hup, hdot]⟩

/-- The segments come from `ss`, and none of them is one of dots. -/
def ComesFrom (ss : List (List Char)) (xs : List (List Char)) : Prop :=
  ∀ x ∈ xs, ∃ s ∈ ss, ¬ IsDots s ∧ x = Percent.encode keptInPath s

theorem ComesFrom.cons {ss xs : List (List Char)} (h : ComesFrom ss xs) (s : List Char) :
    ComesFrom (s :: ss) xs := by
  intro x hx
  obtain ⟨t, ht, hdots, rfl⟩ := h x hx
  exact ⟨t, List.mem_cons_of_mem s ht, hdots, rfl⟩

/-- Of the earlier segments some at the end may be lost, and new ones come behind the rest. -/
theorem exists_climb_eq (done ss : List (List Char)) :
    ∃ xs k, climb done ss = xs ++ done.drop k ∧ ComesFrom ss xs := by
  induction ss generalizing done with
  | nil => exact ⟨[], 0, rfl, by simp [ComesFrom]⟩
  | cons s ss ih =>
    rw [climb]
    split
    · obtain ⟨xs, k, heq, hxs⟩ := ih (done.drop 1)
      exact ⟨xs, 1 + k, by rw [heq, List.drop_drop], hxs.cons s⟩
    · next hup =>
      split
      · obtain ⟨xs, k, heq, hxs⟩ := ih done
        exact ⟨xs, k, heq, hxs.cons s⟩
      · next hdot =>
        obtain ⟨xs, k, heq, hxs⟩ := ih (Percent.encode keptInPath s :: done)
        cases k with
        | succ k => exact ⟨xs, k, by rw [heq, List.drop_succ_cons], hxs.cons s⟩
        | zero =>
          refine ⟨xs ++ [Percent.encode keptInPath s], 0, ?_, ?_⟩
          · rw [heq, List.append_assoc]
            rfl
          · intro x hx
            rcases List.mem_append.mp hx with hx | hx
            · exact hxs.cons s x hx
            · refine ⟨s, List.mem_cons_self .., ?_, List.mem_singleton.mp hx⟩
              rintro (h | h)
              · exact hdot h
              · exact hup h

/-- If all earlier segments are left and two more, the first of the two comes from a new one. -/
theorem exists_of_resolve_eq {done ss : List (List Char)} {x y : List Char}
    (h : resolve done ss = done.reverse ++ [x, y]) :
    ∃ s ∈ ss, ¬ IsDots s ∧ x = Percent.encode keptInPath s := by
  rcases List.eq_nil_or_concat' ss with rfl | ⟨rs, s, rfl⟩
  · simp [resolve] at h
  obtain ⟨xs, k, hclimb, hxs⟩ := exists_climb_eq done rs
  obtain ⟨z, j, hresolve⟩ : ∃ z j, resolve done (rs ++ [s]) =
      ((climb done rs).drop j).reverse ++ [z] := by
    by_cases hs : IsDots s
    · obtain ⟨j, hj⟩ := resolve_concat_dots done rs hs
      exact ⟨[], j, hj⟩
    · exact ⟨_, 0, resolve_concat done rs hs⟩
  rw [h, List.append_cons] at hresolve
  have hleft : x :: done = (xs ++ done.drop k).drop j := by
    have hfront := congrArg List.reverse (List.append_inj' hresolve rfl).1
    rw [List.reverse_reverse, List.reverse_concat, List.reverse_reverse, hclimb] at hfront
    exact hfront
  -- There are not enough earlier segments for all of them and one more.
  have hlt : j < xs.length := by
    have hlength := congrArg List.length hleft
    simp only [List.length_cons, List.length_drop, List.length_append] at hlength
    omega
  rw [List.drop_append_of_le_length hlt.le, List.drop_eq_getElem_cons hlt] at hleft
  have hx : x ∈ xs := (List.cons.inj hleft).1 ▸ List.getElem_mem hlt
  obtain ⟨t, ht, hdots, heq⟩ := hxs x hx
  exact ⟨t, List.mem_append_left [s] ht, hdots, heq⟩

end Playground.Url
