import Mathlib.Data.List.Basic
import Playground.Proofs.Text.Runs
import Playground.Text.Lines
import Playground.Text.Search

/-!
# The pieces of a text

Cutting a text at a separator, and what becomes of the pieces when texts are put
together.  At a separator the pieces of both sides stand side by side
(`splitOn_append_sep`), anywhere else the last piece of the left side and the first
one of the right side become one (`splitOn_append`).  `splitOn_join` says that pieces
without separators are found again.
-/

namespace Playground.Text

variable {sep : Char}

/-! ## One character -/

theorem splitOn_cons (sep c : Char) (s : List Char) :
    splitOn sep (c :: s) = splitStep sep c (splitOn sep s) := rfl

/-- A text has a first piece. -/
theorem exists_splitOn_eq_cons (sep : Char) (s : List Char) :
    ∃ p ps, splitOn sep s = p :: ps :=
  List.exists_cons_of_ne_nil (splitOn_ne_nil sep s)

/-- A text has a last piece. -/
theorem exists_splitOn_eq_concat (sep : Char) (s : List Char) :
    ∃ ps p, splitOn sep s = ps ++ [p] := by
  cases List.eq_nil_or_concat' (splitOn sep s) with
  | inl h => exact absurd h (splitOn_ne_nil sep s)
  | inr h => exact h

theorem splitOn_cons_sep (sep : Char) (s : List Char) :
    splitOn sep (sep :: s) = [] :: splitOn sep s := by
  obtain ⟨p, ps, h⟩ := exists_splitOn_eq_cons sep s
  rw [splitOn_cons, h, splitStep, if_pos rfl]

theorem splitOn_cons_ne {c : Char} {s p : List Char} {ps : List (List Char)} (hc : c ≠ sep)
    (h : splitOn sep s = p :: ps) : splitOn sep (c :: s) = (c :: p) :: ps := by
  rw [splitOn_cons, h, splitStep, if_neg hc]

/-! ## Texts put together -/

theorem splitOn_append_sep (sep : Char) (a b : List Char) :
    splitOn sep (a ++ sep :: b) = splitOn sep a ++ splitOn sep b := by
  induction a with
  | nil => exact splitOn_cons_sep sep b
  | cons c a ih =>
    rw [List.cons_append]
    by_cases hc : c = sep
    · rw [hc, splitOn_cons_sep, splitOn_cons_sep, ih, List.cons_append]
    · obtain ⟨p, ps, h⟩ := exists_splitOn_eq_cons sep a
      rw [h, List.cons_append] at ih
      rw [splitOn_cons_ne hc ih, splitOn_cons_ne hc h, List.cons_append]

theorem splitOn_append {a b p q : List Char} {ps qs : List (List Char)}
    (ha : splitOn sep a = ps ++ [p]) (hb : splitOn sep b = q :: qs) :
    splitOn sep (a ++ b) = ps ++ (p ++ q) :: qs := by
  induction a generalizing ps p with
  | nil =>
    rw [splitOn_nil] at ha
    cases ps with
    | nil => cases ha; exact hb
    | cons r rs => simp at ha
  | cons c a ih =>
    rw [List.cons_append]
    by_cases hc : c = sep
    · rw [hc, splitOn_cons_sep] at ha ⊢
      cases ps with
      | nil =>
        have hnil : splitOn sep a = [] := (List.cons.inj ha).2
        exact absurd hnil (splitOn_ne_nil sep a)
      | cons r rs =>
        rw [List.cons_append] at ha
        obtain ⟨hr, hrs⟩ := List.cons.inj ha
        rw [ih hrs, ← hr, List.cons_append]
    · obtain ⟨x, xs, h⟩ := exists_splitOn_eq_cons sep a
      rw [splitOn_cons_ne hc h] at ha
      cases ps with
      | nil =>
        obtain ⟨hp, hxs⟩ := List.cons.inj ha
        have h' : splitOn sep a = [] ++ [x] := by rw [h, hxs]; rfl
        rw [splitOn_cons_ne hc (ih h'), ← hp, List.nil_append, List.cons_append]
      | cons r rs =>
        rw [List.cons_append] at ha
        obtain ⟨hr, hrs⟩ := List.cons.inj ha
        have h' : splitOn sep a = (x :: rs) ++ [p] := by rw [h, hrs]; rfl
        rw [splitOn_cons_ne hc (ih h'), ← hr]
        rfl

/-- A piece stands in the text, the first one at its start and the last one at its end. -/
theorem exists_eq_append_of_splitOn {s p : List Char} {ps qs : List (List Char)}
    (h : splitOn sep s = ps ++ p :: qs) :
    ∃ a b, s = a ++ (p ++ b) ∧ (ps = [] → a = []) ∧ (qs = [] → b = []) := by
  rw [← join_splitOn sep s, h]
  clear h
  induction ps with
  | nil =>
    cases qs with
    | nil => exact ⟨[], [], by simp [join], fun _ => rfl, fun _ => rfl⟩
    | cons q qs => exact ⟨[], sep :: join sep (q :: qs), rfl, fun _ => rfl, fun hq => by cases hq⟩
  | cons r rs ih =>
    obtain ⟨a, b, hab, -, hb⟩ := ih
    refine ⟨r ++ sep :: a, b, ?_, fun hr => (List.cons_ne_nil r rs hr).elim, hb⟩
    have hne : rs ++ p :: qs ≠ [] := List.append_ne_nil_of_right_ne_nil rs (List.cons_ne_nil p qs)
    rw [List.cons_append, List.append_assoc, List.cons_append, ← hab]
    cases hrs : rs ++ p :: qs with
    | nil => exact absurd hrs hne
    | cons t ts => rfl

/-- What stands in the pieces stands in the text that they are joined to. -/
theorem mem_join_of_mem {ps : List (List Char)} {p : List Char} {c : Char} (hp : p ∈ ps)
    (hc : c ∈ p) : c ∈ join sep ps := by
  fun_induction join sep ps with
  | case1 => cases hp
  | case2 q => exact List.mem_singleton.mp hp ▸ hc
  | case3 q r ps ih =>
    rcases List.mem_cons.mp hp with rfl | hp
    · exact List.mem_append_left _ hc
    · exact List.mem_append_right _ (List.mem_cons_of_mem _ (ih hp))

/-- What is no separator stands in a piece. -/
theorem exists_mem_splitOn {s : List Char} {c : Char} (hc : c ∈ s) (hne : c ≠ sep) :
    ∃ p ∈ splitOn sep s, c ∈ p := by
  have hjoin : ∀ ps : List (List Char), c ∈ join sep ps → ∃ p ∈ ps, c ∈ p := by
    intro ps h
    fun_induction join sep ps with
    | case1 => cases h
    | case2 q => exact ⟨q, List.mem_singleton_self q, h⟩
    | case3 q r ps ih =>
      rcases List.mem_append.mp h with h | h
      · exact ⟨q, List.mem_cons_self .., h⟩
      · obtain ⟨p, hp, hcp⟩ := ih ((List.mem_cons.mp h).resolve_left hne)
        exact ⟨p, List.mem_cons_of_mem q hp, hcp⟩
  exact hjoin _ ((join_splitOn sep s).symm ▸ hc)

/-! ## Texts without a separator -/

theorem splitOn_eq_singleton {s : List Char} (h : sep ∉ s) : splitOn sep s = [s] := by
  induction s with
  | nil => rfl
  | cons c s ih =>
    rw [List.mem_cons, not_or] at h
    exact splitOn_cons_ne (Ne.symm h.1) (ih h.2)

/-- A piece holds no separator. -/
theorem not_mem_of_mem_splitOn {s p : List Char} (h : p ∈ splitOn sep s) : sep ∉ p := by
  induction s generalizing p with
  | nil =>
    rw [splitOn_nil, List.mem_singleton] at h
    simp [h]
  | cons c s ih =>
    obtain ⟨q, qs, hs⟩ := exists_splitOn_eq_cons sep s
    rw [hs] at ih
    by_cases hc : c = sep
    · rw [hc, splitOn_cons_sep, hs] at h
      cases List.mem_cons.mp h with
      | inl h => simp [h]
      | inr h => exact ih h
    · rw [splitOn_cons_ne hc hs] at h
      cases List.mem_cons.mp h with
      | inl h =>
        rw [h, List.mem_cons, not_or]
        exact ⟨Ne.symm hc, ih (List.mem_cons_self ..)⟩
      | inr h => exact ih (List.mem_cons_of_mem _ h)

theorem length_splitOn (sep : Char) (s : List Char) :
    (splitOn sep s).length = s.count sep + 1 := by
  induction s with
  | nil => rfl
  | cons c s ih =>
    obtain ⟨p, ps, h⟩ := exists_splitOn_eq_cons sep s
    by_cases hc : c = sep
    · rw [hc, splitOn_cons_sep, List.length_cons, ih, List.count_cons_self]
    · rw [splitOn_cons_ne hc h, List.count_cons_of_ne hc, ← ih, h]
      rfl

/-- Pieces without separators are found again. -/
theorem splitOn_join {ps : List (List Char)} (hne : ps ≠ []) (h : ∀ p ∈ ps, sep ∉ p) :
    splitOn sep (join sep ps) = ps := by
  induction ps with
  | nil => exact absurd rfl hne
  | cons p ps ih =>
    have hp := splitOn_eq_singleton (h p (List.mem_cons_self ..))
    cases ps with
    | nil => exact hp
    | cons q qs =>
      rw [join, splitOn_append_sep, hp,
        ih (List.cons_ne_nil q qs) (fun r hr => h r (List.mem_cons_of_mem _ hr)),
        List.singleton_append]

/-- A part of a text without a separator stands on one side of each separator. -/
theorem infix_of_infix_append_cons {s a b : List Char} (h : s <:+: a ++ sep :: b) (hs : sep ∉ s) :
    s <:+: a ∨ s <:+: b := by
  have hstart : ∀ {a}, s <+: a ++ sep :: b → s <+: a := by
    intro a hp
    by_cases hle : s.length ≤ a.length
    · exact List.prefix_of_prefix_length_le hp (List.prefix_append ..) hle
    · -- Otherwise the separator is within the part.
      have hsep : a ++ [sep] <+: s := by
        refine List.prefix_of_prefix_length_le ?_ hp ?_
        · exact ⟨b, by rw [List.append_assoc, List.singleton_append]⟩
        · rw [List.length_append, List.length_singleton]
          omega
      exact absurd (hsep.subset (by simp)) hs
  induction a with
  | nil =>
    rcases List.infix_cons_iff.mp h with hp | hi
    · exact Or.inl (hstart (a := []) hp).isInfix
    · exact Or.inr hi
  | cons d a ih =>
    rcases List.infix_cons_iff.mp h with hp | hi
    · exact Or.inl (hstart (a := d :: a) hp).isInfix
    · exact (ih hi).imp_left fun ha => ha.trans (List.suffix_cons d a).isInfix

/-! ## The first separator -/

theorem splitFirst?_append {a : List Char} (h : sep ∉ a) (b : List Char) :
    splitFirst? sep (a ++ sep :: b) = some (a, b) := by
  have hkeep : ∀ c ∈ a, decide (c ≠ sep) = true := by
    intro c hc
    refine decide_eq_true ?_
    rintro rfl
    exact h hc
  have hstop : ∀ c, (sep :: b).head? = some c → decide (c ≠ sep) = false := by
    intro c hc
    simp [← Option.some.inj hc]
  obtain ⟨htake, hdrop⟩ := takeWhile_append_of_head hkeep hstop
  rw [splitFirst?, hdrop, htake]

/-- What holds no separator is put before the first separator of what follows it. -/
theorem splitFirst?_append_of_notMem {a : List Char} (h : sep ∉ a) (b : List Char) :
    splitFirst? sep (a ++ b) = (splitFirst? sep b).map fun p => (a ++ p.1, p.2) := by
  have hkeep : ∀ c ∈ a, decide (c ≠ sep) = true := by
    intro c hc
    refine decide_eq_true ?_
    rintro rfl
    exact h hc
  unfold splitFirst?
  rw [List.dropWhile_append_of_pos hkeep, List.takeWhile_append_of_pos hkeep]
  split <;> rfl

/-- A text is cut at its first separator. -/
theorem splitFirst?_eq_some_iff {s a b : List Char} :
    splitFirst? sep s = some (a, b) ↔ s = a ++ sep :: b ∧ sep ∉ a := by
  constructor
  · intro h
    refine ⟨eq_of_splitFirst? h, ?_⟩
    unfold splitFirst? at h
    split at h
    · cases h
    · cases h
      intro hmem
      simpa using List.mem_takeWhile_imp hmem
  · rintro ⟨rfl, hsep⟩
    exact splitFirst?_append hsep b

end Playground.Text
