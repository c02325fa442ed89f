import Mathlib.Data.List.TakeWhile
import Playground.Header.Include
import Playground.Proofs.Text.Pieces

/-!
# Include directives

`IsDirective` says which texts are include directives, apart from how they are
searched.

    #  white space  include  white space  <ctp/ctp.hpp>

No directive starts another one, so what stands at the start of a text can be read in
one way only (`directiveAt?_eq_some_iff`).  `FirstDirective` is what `splitDirective?`
finds.

In a text of which every directive is on one line, taking the directives out and
cutting the text into lines can be done in any order (`splitOn_dropDirectives`).
-/

namespace Playground

open Text

/-! ## White space -/

namespace Text

theorem trimStart_append {v : List Char} (hv : ∀ c ∈ v, isSpace c = true) (s : List Char) :
    trimStart (v ++ s) = trimStart s :=
  List.dropWhile_append_of_pos hv

theorem trimStart_cons {c : Char} (hc : isSpace c = false) (s : List Char) :
    trimStart (c :: s) = c :: s :=
  List.dropWhile_cons_of_neg (by simp [hc])

/-- What is trimmed is white space. -/
theorem exists_eq_append_trimStart (s : List Char) :
    ∃ v, (∀ c ∈ v, isSpace c = true) ∧ s = v ++ trimStart s :=
  ⟨s.takeWhile isSpace, fun _ hc => List.mem_takeWhile_imp hc,
    (List.takeWhile_append_dropWhile ..).symm⟩

end Text

/-! ## The texts that are directives -/

/-- The word of a directive. -/
def includeWord : List Char := ['i', 'n', 'c', 'l', 'u', 'd', 'e']

/-- The name of the header in a directive. -/
def headerName : List Char := ['<', 'c', 't', 'p', '/', 'c', 't', 'p', '.', 'h', 'p', 'p', '>']

/-- The text is an include directive. -/
def IsDirective (m : List Char) : Prop :=
  ∃ v w : List Char, (∀ c ∈ v, isSpace c = true) ∧ (∀ c ∈ w, isSpace c = true) ∧
    m = '#' :: (v ++ (includeWord ++ (w ++ headerName)))

/-- White space before the word of a directive is trimmed. -/
theorem trimStart_append_includeWord {v : List Char} (hv : ∀ c ∈ v, isSpace c = true)
    (s : List Char) : trimStart (v ++ (includeWord ++ s)) = includeWord ++ s := by
  rw [trimStart_append hv]
  exact trimStart_cons (show isSpace 'i' = false by decide) _

/-- White space before the name of the header is trimmed. -/
theorem trimStart_append_headerName {w : List Char} (hw : ∀ c ∈ w, isSpace c = true)
    (s : List Char) : trimStart (w ++ (headerName ++ s)) = headerName ++ s := by
  rw [trimStart_append hw]
  exact trimStart_cons (show isSpace '<' = false by decide) _

/-- The text starts with a directive exactly if the search at its start says so. -/
theorem directiveAt?_eq_some_iff {s r : List Char} :
    directiveAt? s = some r ↔ ∃ m, IsDirective m ∧ s = m ++ r := by
  constructor
  · intro h
    simp only [directiveAt?, Option.bind_eq_bind, Option.bind_eq_some_iff] at h
    obtain ⟨s1, h1, s2, h2, h3⟩ := h
    obtain ⟨v, hv, hsv⟩ := exists_eq_append_trimStart s1
    obtain ⟨w, hw, hsw⟩ := exists_eq_append_trimStart s2
    rw [eq_append_of_after? h2] at hsv
    rw [eq_append_of_after? h3] at hsw
    refine ⟨'#' :: (v ++ (includeWord ++ (w ++ headerName))), ⟨v, w, hv, hw, rfl⟩, ?_⟩
    rw [eq_append_of_after? h1, hsv, hsw]
    simp [includeWord, headerName]
  · rintro ⟨m, ⟨v, w, hv, hw, rfl⟩, rfl⟩
    have heq : '#' :: (v ++ (includeWord ++ (w ++ headerName))) ++ r =
        '#' :: (v ++ (includeWord ++ (w ++ (headerName ++ r)))) := by
      simp only [List.cons_append, List.append_assoc]
    rw [heq]
    simp only [directiveAt?, Option.bind_eq_bind, Option.bind_eq_some_iff]
    refine ⟨v ++ (includeWord ++ (w ++ (headerName ++ r))), after?_append ['#'] _,
      w ++ (headerName ++ r), ?_, ?_⟩
    · rw [trimStart_append_includeWord hv]
      exact after?_append includeWord _
    · rw [trimStart_append_headerName hw]
      exact after?_append headerName r

namespace IsDirective

theorem ne_nil {m : List Char} (h : IsDirective m) : m ≠ [] := by
  obtain ⟨v, w, -, -, rfl⟩ := h
  exact List.cons_ne_nil _ _

/-- A directive starts with a number sign. -/
theorem exists_eq_cons {m : List Char} (h : IsDirective m) : ∃ t, m = '#' :: t := by
  obtain ⟨v, w, -, -, rfl⟩ := h
  exact ⟨_, rfl⟩

/-- A directive ends with an angle bracket. -/
theorem getLast?_eq {m : List Char} (h : IsDirective m) : m.getLast? = some '>' := by
  obtain ⟨v, w, -, -, rfl⟩ := h
  simp [headerName, List.getLast?_cons, List.getLast?_append]

/-- What stands in a directive is white space or one of the characters of its parts. -/
theorem mem {m : List Char} (h : IsDirective m) {c : Char} (hc : c ∈ m) :
    isSpace c = true ∨ c ∈ '#' :: (includeWord ++ headerName) := by
  obtain ⟨v, w, hv, hw, rfl⟩ := h
  simp only [List.mem_cons, List.mem_append] at hc ⊢
  rcases hc with hc | hc | hc | hc | hc
  · exact Or.inr (Or.inl hc)
  · exact Or.inl (hv c hc)
  · exact Or.inr (Or.inr (Or.inl hc))
  · exact Or.inl (hw c hc)
  · exact Or.inr (Or.inr (Or.inr hc))

theorem directiveAt?_append {m : List Char} (h : IsDirective m) (r : List Char) :
    directiveAt? (m ++ r) = some r :=
  directiveAt?_eq_some_iff.mpr ⟨m, h, rfl⟩

end IsDirective

theorem directiveAt?_append {s r : List Char} (h : directiveAt? s = some r) (t : List Char) :
    directiveAt? (s ++ t) = some (r ++ t) := by
  obtain ⟨m, hm, rfl⟩ := directiveAt?_eq_some_iff.mp h
  rw [List.append_assoc]
  exact hm.directiveAt?_append (r ++ t)

theorem directiveAt?_eq_none_of_ne {c : Char} (hc : c ≠ '#') (s : List Char) :
    directiveAt? (c :: s) = none := by
  cases h : directiveAt? (c :: s) with
  | none => rfl
  | some r =>
    obtain ⟨m, hm, hs⟩ := directiveAt?_eq_some_iff.mp h
    obtain ⟨t, rfl⟩ := hm.exists_eq_cons
    exact absurd (List.cons.inj hs).1 hc

/-! ## The first directive -/

/-- The directive `m` is the first one of the text `s`, with `a` before it and `r`
behind it. -/
structure FirstDirective (s a m r : List Char) : Prop where
  /-- They make up the text. -/
  eq : s = a ++ (m ++ r)
  /-- It is a directive. -/
  directive : IsDirective m
  /-- No directive starts before it. -/
  first : ∀ b n t, s = b ++ (n ++ t) → IsDirective n → a.length ≤ b.length

/-- The text has a directive somewhere. -/
def HasDirective (s : List Char) : Prop := ∃ a m r, s = a ++ (m ++ r) ∧ IsDirective m

theorem hasDirective_cons_iff {c : Char} {s : List Char} :
    HasDirective (c :: s) ↔ (∃ r, directiveAt? (c :: s) = some r) ∨ HasDirective s := by
  constructor
  · rintro ⟨a, m, r, hs, hm⟩
    cases a with
    | nil => exact Or.inl ⟨r, directiveAt?_eq_some_iff.mpr ⟨m, hm, hs⟩⟩
    | cons d a => exact Or.inr ⟨a, m, r, (List.cons.inj hs).2, hm⟩
  · rintro (⟨r, hr⟩ | ⟨a, m, r, hs, hm⟩)
    · obtain ⟨m, hm, hs⟩ := directiveAt?_eq_some_iff.mp hr
      exact ⟨[], m, r, hs, hm⟩
    · exact ⟨c :: a, m, r, by rw [hs, List.cons_append], hm⟩

theorem not_hasDirective_nil : ¬HasDirective [] := by
  rintro ⟨a, m, r, hs, hm⟩
  have h := List.append_eq_nil_iff.mp hs.symm
  exact hm.ne_nil (List.append_eq_nil_iff.mp h.2).1

theorem hasDirective_iff {s : List Char} : hasDirective s = true ↔ HasDirective s := by
  unfold hasDirective
  induction s with
  | nil =>
    have hnil : directiveAt? [] = none := rfl
    simp [search?, hnil, not_hasDirective_nil]
  | cons c s ih =>
    rw [hasDirective_cons_iff, search?]
    cases h : directiveAt? (c :: s) with
    | none => simpa using ih
    | some r => simp

theorem splitDirective?_eq_none_iff {s : List Char} :
    splitDirective? s = none ↔ ¬HasDirective s := by
  induction s with
  | nil => simp [splitDirective?, not_hasDirective_nil]
  | cons c s ih =>
    rw [hasDirective_cons_iff, splitDirective?]
    cases h : directiveAt? (c :: s) with
    | none => simpa using ih
    | some r => simp

theorem firstDirective_of_splitDirective? {s a r : List Char}
    (h : splitDirective? s = some (a, r)) : ∃ m, FirstDirective s a m r := by
  induction s generalizing a with
  | nil => cases h
  | cons c s ih =>
    rw [splitDirective?] at h
    split at h
    · next hr =>
      cases h
      obtain ⟨m, hm, hs⟩ := directiveAt?_eq_some_iff.mp hr
      exact ⟨m, hs, hm, fun _ _ _ _ _ => Nat.zero_le _⟩
    · next hnone =>
      obtain ⟨⟨b, t⟩, hbt, heq⟩ := Option.map_eq_some_iff.mp h
      cases heq
      obtain ⟨m, hm⟩ := ih hbt
      refine ⟨m, by rw [hm.eq, List.cons_append], hm.directive, ?_⟩
      intro b' n t' hs hn
      cases b' with
      | nil =>
        have := directiveAt?_eq_some_iff.mpr ⟨n, hn, hs⟩
        rw [hnone] at this
        cases this
      | cons d b' => exact Nat.succ_le_succ (hm.first b' n t' (List.cons.inj hs).2 hn)

/-! ## Texts with every directive on one line -/

/-- No directive of the text is spread over two lines. -/
def OneLine (s : List Char) : Prop := ∀ a m r, s = a ++ (m ++ r) → IsDirective m → '\n' ∉ m

/-- Every directive of the text is on one line, looked for at each place. -/
def oneLine : List Char → Bool
  | [] => true
  | c :: s =>
    (match directiveAt? (c :: s) with
      | none => true
      | some r => '\n' ∉ (c :: s).take ((c :: s).length - r.length)) && oneLine s

theorem oneLine_eq_true_iff {s : List Char} : oneLine s = true ↔ OneLine s := by
  induction s with
  | nil =>
    refine iff_of_true rfl ?_
    intro a m r hs hm
    exact absurd ⟨a, m, r, hs, hm⟩ not_hasDirective_nil
  | cons c s ih =>
    rw [oneLine, Bool.and_eq_true, ih]
    constructor
    · rintro ⟨hat, hs⟩ a m r heq hm
      cases a with
      | nil =>
        rw [List.nil_append] at heq
        rw [heq, hm.directiveAt?_append] at hat
        simpa using hat
      | cons d a => exact hs a m r (List.cons.inj heq).2 hm
    · intro h
      refine ⟨?_, fun a m r hs hm => h (c :: a) m r (by rw [hs, List.cons_append]) hm⟩
      cases hat : directiveAt? (c :: s) with
      | none => rfl
      | some r =>
        obtain ⟨m, hm, heq⟩ := directiveAt?_eq_some_iff.mp hat
        have hnot := h [] m r heq hm
        rw [heq]
        simpa using hnot

instance (s : List Char) : Decidable (OneLine s) := decidable_of_iff _ oneLine_eq_true_iff

/-- A part of a text that holds no newline of it lies before or behind each of them. -/
theorem eq_append_of_append_eq {sep : Char} {m x s t : List Char} (hm : sep ∉ m)
    (h : s ++ sep :: t = m ++ x) : ∃ y, s = m ++ y ∧ x = y ++ sep :: t := by
  rcases List.append_eq_append_iff.mp h with ⟨y, hmy, hxy⟩ | ⟨y, hsy, hxy⟩
  · cases y with
    | nil => exact ⟨[], by simpa using hmy.symm, hxy.symm⟩
    | cons c y =>
      have hc : sep = c := (List.cons.inj hxy).1
      exact absurd (hmy ▸ hc ▸ List.mem_append_right s (List.mem_cons_self ..)) hm
  · exact ⟨y, hsy, hxy⟩

namespace OneLine

theorem right {a b : List Char} (h : OneLine (a ++ b)) : OneLine b := by
  intro p m r hb hm
  exact h (a ++ p) m r (by rw [hb, List.append_assoc]) hm

/-- No directive reaches over a newline. -/
theorem directiveAt? {s t : List Char} (h : OneLine (s ++ '\n' :: t)) :
    directiveAt? (s ++ '\n' :: t) = (directiveAt? s).map (· ++ '\n' :: t) := by
  cases hs : Playground.directiveAt? s with
  | some r => exact directiveAt?_append hs ('\n' :: t)
  | none =>
    cases hst : Playground.directiveAt? (s ++ '\n' :: t) with
    | none => rfl
    | some x =>
      obtain ⟨m, hm, heq⟩ := directiveAt?_eq_some_iff.mp hst
      obtain ⟨y, hy, -⟩ := eq_append_of_append_eq (h [] m x heq hm) heq
      rw [hy, hm.directiveAt?_append y] at hs
      cases hs

end OneLine

/-! ## Taking directives out -/

theorem dropDirectives_nil : dropDirectives [] = [] := by
  rw [dropDirectives]

theorem dropDirectives_of_some {s r : List Char} (h : directiveAt? s = some r) :
    dropDirectives s = dropDirectives r := by
  cases s with
  | nil => cases h
  | cons c s =>
    rw [dropDirectives]
    split
    · next r' h' =>
      rw [h] at h'
      cases h'
      rfl
    · next h' => rw [h] at h'; cases h'

theorem dropDirectives_of_none {c : Char} {s : List Char} (h : directiveAt? (c :: s) = none) :
    dropDirectives (c :: s) = c :: dropDirectives s := by
  rw [dropDirectives]
  split
  · next r h' => rw [h] at h'; cases h'
  · rfl

/-- A part in which no directive starts is kept. -/
theorem dropDirectives_append {a b : List Char}
    (h : ∀ p q, a = p ++ q → q ≠ [] → directiveAt? (q ++ b) = none) :
    dropDirectives (a ++ b) = a ++ dropDirectives b := by
  induction a with
  | nil => rfl
  | cons c a ih =>
    have hnone : directiveAt? (c :: (a ++ b)) = none :=
      h [] (c :: a) rfl (List.cons_ne_nil c a)
    rw [List.cons_append, dropDirectives_of_none hnone,
      ih fun p q hpq hq => h (c :: p) q (by rw [hpq, List.cons_append]) hq, List.cons_append]

theorem dropDirectives_newline {s t : List Char} (h : OneLine (s ++ '\n' :: t)) :
    dropDirectives (s ++ '\n' :: t) = dropDirectives s ++ '\n' :: dropDirectives t := by
  induction s using dropDirectives.induct with
  | case1 =>
    rw [dropDirectives_nil]
    exact dropDirectives_of_none (directiveAt?_eq_none_of_ne (by decide) t)
  | case2 c s r hr ih =>
    have hst : directiveAt? (c :: s ++ '\n' :: t) = some (r ++ '\n' :: t) := by
      rw [h.directiveAt?, hr, Option.map_some]
    obtain ⟨m, -, hm⟩ := directiveAt?_eq_some_iff.mp hst
    rw [dropDirectives_of_some hst, dropDirectives_of_some hr]
    exact ih (OneLine.right (hm ▸ h))
  | case3 c s hnone ih =>
    have hst : directiveAt? (c :: (s ++ '\n' :: t)) = none := by
      rw [← List.cons_append, h.directiveAt?, hnone, Option.map_none]
    rw [List.cons_append, dropDirectives_of_none hst, dropDirectives_of_none hnone,
      ih (OneLine.right (a := [c]) h), List.cons_append]

theorem dropDirectives_sublist (s : List Char) : (dropDirectives s).Sublist s := by
  induction s using dropDirectives.induct with
  | case1 => rw [dropDirectives_nil]
  | case2 c s r hr ih =>
    obtain ⟨m, -, hm⟩ := directiveAt?_eq_some_iff.mp hr
    rw [dropDirectives_of_some hr, hm]
    exact ih.trans (List.sublist_append_right m r)
  | case3 c s hnone ih =>
    rw [dropDirectives_of_none hnone]
    exact ih.cons_cons c

/-- Taking the directives out and cutting into lines can be done in any order. -/
theorem splitOn_dropDirectives {s : List Char} (h : OneLine s) :
    splitOn '\n' (dropDirectives s) = (splitOn '\n' s).map dropDirectives := by
  obtain ⟨ps, hps⟩ : ∃ ps, splitOn '\n' s = ps := ⟨_, rfl⟩
  induction ps generalizing s with
  | nil => exact absurd hps (splitOn_ne_nil '\n' s)
  | cons p ps ih =>
    have hp : '\n' ∉ p := not_mem_of_mem_splitOn (hps ▸ List.mem_cons_self ..)
    have hdrop : '\n' ∉ dropDirectives p := fun hmem => hp ((dropDirectives_sublist p).mem hmem)
    have hs := join_splitOn '\n' s
    cases ps with
    | nil =>
      rw [hps, join] at hs
      rw [hps, ← hs, splitOn_eq_singleton hdrop, List.map_singleton]
    | cons q qs =>
      rw [hps, join] at hs
      have hqs : splitOn '\n' (join '\n' (q :: qs)) = q :: qs :=
        splitOn_join (List.cons_ne_nil q qs) fun r hr =>
          not_mem_of_mem_splitOn (hps ▸ List.mem_cons_of_mem p hr)
      rw [← hs, List.append_cons] at h
      have hrest := ih (OneLine.right h) hqs
      rw [← List.append_cons] at h
      rw [hps, ← hs, dropDirectives_newline h, splitOn_append_sep, splitOn_eq_singleton hdrop,
        hrest, hqs]
      rfl

end Playground
