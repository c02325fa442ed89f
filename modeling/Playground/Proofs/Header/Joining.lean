import Playground.Proofs.Header.Spread

/-!
# Directives that come together

Taking the directives out of a text leaves pieces, which are put together.

    code      p  directive  q  directive  r
    text      p  header  q r

No piece holds a directive (`Remnants.not_hasDirective`), and none starts before the end of the
header.  But two pieces may make up a directive where they meet, as `#` and `include` with
the rest of it do.  This is the only way in which one gets into the text (`inlining_leaves_joined`):
if no pieces come together as a directive, as in a code with one directive, nothing is left to
inline, and otherwise the header is put in once more (`includeHeader_nestedDirective`).
-/

namespace Playground

open Text

/-! ## Pieces -/

/-- The pieces of a text around its directives, found from left to right. -/
inductive Remnants : List Char → List (List Char) → Prop where
  /-- There is no directive. -/
  | whole {p : List Char} (none : ¬HasDirective p) : Remnants p [p]
  /-- What is before the first directive is a piece, and what is behind it is cut up further. -/
  | cut {s p m r : List Char} {ps : List (List Char)} (first : FirstDirective s p m r)
      (rest : Remnants r ps) : Remnants s (p :: ps)

/-- In the pieces put together, `n` stands between `x` and `y` and goes over a seam: a part `u` of
it ends some of the pieces, and the other part `v` starts the pieces behind them. -/
def Spans (ps : List (List Char)) (x n y : List Char) : Prop :=
  ∃ qs rs u v, ps = qs ++ rs ∧ n = u ++ v ∧ u ≠ [] ∧ v ≠ [] ∧
    qs.flatten = x ++ u ∧ rs.flatten = v ++ y

theorem exists_remnants (s : List Char) : ∃ p ps, Remnants s (p :: ps) := by
  induction hlen : s.length using Nat.strongRecOn generalizing s with
  | ind k ih =>
    by_cases hhas : HasDirective s
    · obtain ⟨p, m, r, hfirst⟩ := hhas.exists_first
      have hpos := List.length_pos_iff.mpr hfirst.directive.ne_nil
      have hlt : r.length < k := by
        rw [← hlen, hfirst.eq, List.length_append, List.length_append]
        omega
      obtain ⟨q, ps, hr⟩ := ih r.length hlt r rfl
      exact ⟨p, q :: ps, .cut hfirst hr⟩
    · exact ⟨s, [], .whole hhas⟩

theorem dropDirectives_of_not {s : List Char} (h : ¬HasDirective s) : dropDirectives s = s := by
  have hkeep := dropDirectives_append (a := s) (b := []) fun p q hpq _ => ?_
  · rwa [dropDirectives_nil, List.append_nil] at hkeep
  · cases hat : directiveAt? (q ++ []) with
    | none => rfl
    | some r =>
      obtain ⟨m, hm, hq⟩ := directiveAt?_eq_some_iff.mp hat
      exact absurd ⟨p, m, r, by rw [hpq, ← hq, List.append_nil], hm⟩ h

namespace Remnants

/-- No piece holds a directive. -/
theorem not_hasDirective {s : List Char} {ps : List (List Char)} (h : Remnants s ps) :
    ∀ p ∈ ps, ¬HasDirective p := by
  induction h with
  | whole hnone => exact List.forall_mem_singleton.mpr hnone
  | cut hfirst _ ih => exact List.forall_mem_cons.mpr ⟨hfirst.not_hasDirective, ih⟩

/-- Taking the directives out leaves the pieces. -/
theorem flatten_eq {s : List Char} {ps : List (List Char)} (h : Remnants s ps) :
    ps.flatten = dropDirectives s := by
  induction h with
  | whole hnone => rw [List.flatten_singleton, dropDirectives_of_not hnone]
  | @cut s p m r ps hfirst _ ih =>
    have hkeep : dropDirectives (p ++ (m ++ r)) = p ++ dropDirectives (m ++ r) := by
      refine dropDirectives_append fun q u hqu hu => ?_
      cases hat : directiveAt? (u ++ (m ++ r)) with
      | none => rfl
      | some t =>
        obtain ⟨n, hn, heq⟩ := directiveAt?_eq_some_iff.mp hat
        have hle := hfirst.first q n t (by rw [hfirst.eq, hqu, List.append_assoc, heq]) hn
        have hlen := List.length_pos_iff.mpr hu
        rw [hqu, List.length_append] at hle
        omega
    rw [List.flatten_cons, ih, hfirst.eq, hkeep,
      dropDirectives_of_some (hfirst.directive.directiveAt?_append r)]

end Remnants

theorem Spans.flatten_eq {ps : List (List Char)} {x n y : List Char} (h : Spans ps x n y) :
    ps.flatten = x ++ (n ++ y) := by
  obtain ⟨qs, rs, u, v, rfl, rfl, -, -, hqs, hrs⟩ := h
  rw [List.flatten_append, hqs, hrs]
  simp only [List.append_assoc]

/-- A single piece has no seam. -/
theorem Spans.two_le_length {ps : List (List Char)} {x n y : List Char} (h : Spans ps x n y) :
    2 ≤ ps.length := by
  obtain ⟨qs, rs, u, v, rfl, -, hu, hv, hqs, hrs⟩ := h
  cases qs with
  | nil => exact absurd (List.append_eq_nil_iff.mp hqs.symm).2 hu
  | cons q qs =>
    cases rs with
    | nil => exact absurd (List.append_eq_nil_iff.mp hrs.symm).1 hv
    | cons r rs => simp only [List.length_append, List.length_cons]; omega

/-- A directive in pieces that hold none goes over a seam. -/
theorem spans_of_flatten_eq {ps : List (List Char)} (hps : ∀ p ∈ ps, ¬HasDirective p)
    {x n y : List Char} (h : ps.flatten = x ++ (n ++ y)) (hn : IsDirective n) : Spans ps x n y := by
  induction ps generalizing x with
  | nil =>
    have hnil := List.append_eq_nil_iff.mp (List.append_eq_nil_iff.mp h.symm).2
    exact absurd hnil.1 hn.ne_nil
  | cons p ps ih =>
    obtain ⟨hp, hrest⟩ := List.forall_mem_cons.mp hps
    rw [List.flatten_cons] at h
    by_cases hbehind : p.length ≤ x.length
    · -- It starts behind the first piece.
      obtain ⟨z, rfl, hz⟩ := exists_eq_append_of_length_le h hbehind
      obtain ⟨qs, rs, u, v, rfl, hsplit, hu, hv, hqs, hrs⟩ := ih hrest hz
      exact ⟨p :: qs, rs, u, v, rfl, hsplit, hu, hv,
        by rw [List.flatten_cons, hqs, List.append_assoc], hrs⟩
    · obtain ⟨u, rfl, hu⟩ := exists_eq_append_of_length_le h.symm (by omega)
      by_cases hinside : n.length ≤ u.length
      · obtain ⟨z, rfl, -⟩ := exists_eq_append_of_length_le hu hinside
        exact absurd ⟨x, n, z, rfl, hn⟩ hp
      · obtain ⟨v, rfl, hv⟩ := exists_eq_append_of_length_le hu.symm (by omega)
        refine ⟨[x ++ u], ps, u, v, rfl, rfl, ?_, ?_, List.flatten_singleton, hv⟩
        · rintro rfl
          exact hbehind (by rw [List.append_nil])
        · rintro rfl
          exact hinside (by rw [List.append_nil])

/-! ## Inlining -/

/-- A directive on one line is found. -/
theorem exists_includeLine? {code l : List Char} (hl : l ∈ splitOn '\n' code)
    (hhas : HasDirective l) : ∃ i, includeLine? code = some (i + 1) := by
  have hsome : ((splitOn '\n' code).findIdx? hasDirective).isSome = true := by
    rw [List.findIdx?_isSome, List.any_eq_true]
    exact ⟨l, hl, hasDirective_iff.mpr hhas⟩
  obtain ⟨i, hi⟩ := Option.isSome_iff_exists.mp hsome
  exact ⟨i, by rw [includeLine?, hi, Option.map_some]⟩

theorem HasDirective.of_mem_splitOn {s l : List Char} (hl : l ∈ splitOn '\n' s)
    (h : HasDirective l) : HasDirective s := by
  obtain ⟨ps, qs, hs⟩ := List.append_of_mem hl
  obtain ⟨a, b, rfl, -⟩ := exists_eq_append_of_splitOn hs
  obtain ⟨c, m, r, rfl, hm⟩ := h
  exact ⟨a ++ c, m, r ++ b, by simp only [List.append_assoc], hm⟩

/-- The header is put in the place of the first directive if a line holds one. -/
theorem includeHeader_eq {code : String} {a m r l : List Char}
    (h : FirstDirective code.toList a m r) (hl : l ∈ splitOn '\n' code.toList)
    (hhas : HasDirective l) : ∃ i, includeHeader code =
      (⟨newlines bundledHeader.toList, i + 1⟩,
        String.ofList (a ++ (bundledHeader.toList ++ dropDirectives r))) := by
  obtain ⟨i, hi⟩ := exists_includeLine? hl hhas
  exact ⟨i, inlineHeader_eq h (stands_bundledHeader code.toList) hi⟩

/-- The header is put in if a line of the text holds a directive. -/
theorem includeHeader_ne_identity {text : String}
    (h : ∃ l ∈ splitOn '\n' text.toList, HasDirective l) : (includeHeader text).1 ≠ .identity := by
  obtain ⟨l, hl, hhas⟩ := h
  obtain ⟨a, m, r, hfirst⟩ := (hhas.of_mem_splitOn hl).exists_first
  obtain ⟨i, hi⟩ := includeHeader_eq hfirst hl hhas
  rw [hi]
  intro heq
  cases congrArg LineOffset.includeLine heq

/-- What is left to inline in the text of a code that is cut up into `p` and the pieces `ps`. -/
structure LeavesJoined (text : String) (p : List Char) (ps : List (List Char)) : Prop where
  /-- A directive of the text stands behind the header and goes over a seam of the pieces. -/
  spans : ∀ b n t, text.toList = b ++ (n ++ t) → IsDirective n →
    ∃ x, b = p ++ (bundledHeader.toList ++ x) ∧ Spans ps x n t
  /-- There is one exactly if pieces come together as one. -/
  hasDirective_iff : HasDirective text.toList ↔ ∃ x n y, IsDirective n ∧ Spans ps x n y
  /-- If there is none, inlining leaves the text as it is. -/
  idempotent : ¬HasDirective text.toList → includeHeader text = (.identity, text)
  /-- If there is one on a line, the header is put in once more. -/
  again : (∃ l ∈ splitOn '\n' text.toList, HasDirective l) → (includeHeader text).1 ≠ .identity

theorem leavesJoined_of_spans {text : String} {p : List Char} {ps : List (List Char)}
    (hspans : ∀ b n t, text.toList = b ++ (n ++ t) → IsDirective n →
      ∃ x, b = p ++ (bundledHeader.toList ++ x) ∧ Spans ps x n t)
    (hends : ∀ x n y, Spans ps x n y → ∃ b, text.toList = b ++ ps.flatten) :
    LeavesJoined text p ps where
  spans := hspans
  hasDirective_iff := by
    constructor
    · rintro ⟨b, n, t, heq, hn⟩
      obtain ⟨x, -, hx⟩ := hspans b n t heq hn
      exact ⟨x, n, t, hn, hx⟩
    · rintro ⟨x, n, y, hn, hx⟩
      obtain ⟨b, hb⟩ := hends x n y hx
      exact ⟨b ++ x, n, y, by rw [hb, hx.flatten_eq, List.append_assoc], hn⟩
  idempotent := inlineHeader_of_not_hasDirective
  again := includeHeader_ne_identity

/-- In a code that has a directive on one line or none at all, inlining leaves the directives that
come together where others were taken out, and no others. -/
theorem inlining_leaves_joined (code : String)
    (hline : HasDirective code.toList → ∃ l ∈ splitOn '\n' code.toList, HasDirective l) :
    ∃ p ps, Remnants code.toList (p :: ps) ∧
      (ps = [] → includeHeader code = (.identity, code)) ∧
      (ps ≠ [] → (includeHeader code).2.toList = p ++ (bundledHeader.toList ++ ps.flatten)) ∧
      (ps.length ≤ 1 → ¬HasDirective (includeHeader code).2.toList) ∧
      LeavesJoined (includeHeader code).2 p ps := by
  obtain ⟨p, ps, hrem⟩ := exists_remnants code.toList
  refine ⟨p, ps, hrem, ?_⟩
  cases hrem with
  | whole hnone =>
    have hsame : includeHeader code = (.identity, code) := inlineHeader_of_not_hasDirective hnone
    rw [hsame]
    refine ⟨fun _ => rfl, fun h => absurd rfl h, fun _ => hnone, leavesJoined_of_spans ?_ ?_⟩
    · intro b n t heq hn
      exact absurd ⟨b, n, t, heq, hn⟩ hnone
    · intro x n y hx
      have := hx.two_le_length
      cases this
  | @cut _ _ m r _ hfirst hrest =>
    obtain ⟨l, hl, hhas⟩ := hline hfirst.hasDirective
    obtain ⟨i, hi⟩ := includeHeader_eq hfirst hl hhas
    have htext : (includeHeader code).2.toList = p ++ (bundledHeader.toList ++ ps.flatten) := by
      rw [hi, String.toList_ofList, hrest.flatten_eq]
    have hjoined : LeavesJoined (includeHeader code).2 p ps := by
      refine leavesJoined_of_spans ?_ ?_
      · intro b n t heq hn
        rw [htext] at heq
        have hle := length_le_of_closed closed_bundledHeader guarded_bundledHeader
          hfirst.not_hasDirective heq hn
        rw [← List.append_assoc] at heq
        obtain ⟨x, rfl, hx⟩ := exists_eq_append_of_length_le heq hle
        exact ⟨x, List.append_assoc .., spans_of_flatten_eq hrest.not_hasDirective hx hn⟩
      · intro _ _ _ _
        exact ⟨p ++ bundledHeader.toList, by rw [htext, List.append_assoc]⟩
    refine ⟨?_, fun _ => htext, fun hlen hhas => ?_, hjoined⟩
    · rintro rfl
      cases hrest
    · obtain ⟨x, n, y, -, hx⟩ := hjoined.hasDirective_iff.mp hhas
      have := hx.two_le_length
      omega

/-- The code has two directives, and no pieces around them come together as one. -/
theorem inlining_twoDirectives :
    (HasDirective twoDirectives.toList →
      ∃ l ∈ splitOn '\n' twoDirectives.toList, HasDirective l) ∧
    (∃ p ps, Remnants twoDirectives.toList (p :: ps) ∧
      LeavesJoined (includeHeader twoDirectives).2 p ps) ∧
    ¬HasDirective (includeHeader twoDirectives).2.toList ∧
    includeHeader (includeHeader twoDirectives).2 =
      (.identity, (includeHeader twoDirectives).2) := by
  have hline : ∃ l ∈ splitOn '\n' twoDirectives.toList, HasDirective l := by
    refine ⟨" #\tinclude <ctp/ctp.hpp> // #include<ctp/ctp.hpp>\r".toList, by decide +kernel, ?_⟩
    exact hasDirective_iff.mp (by decide +kernel)
  obtain ⟨p, ps, hrem, -, -, -, hjoined⟩ := inlining_leaves_joined twoDirectives fun _ => hline
  have hclean : ¬HasDirective (dropDirectives twoDirectives.toList) := by
    rw [← hasDirective_iff]
    decide +kernel
  have hnone : ¬HasDirective (includeHeader twoDirectives).2.toList := by
    intro hhas
    obtain ⟨x, n, y, hn, hx⟩ := hjoined.hasDirective_iff.mp hhas
    refine hclean ⟨p ++ x, n, y, ?_, hn⟩
    rw [← hrem.flatten_eq, List.flatten_cons, hx.flatten_eq, List.append_assoc]
  exact ⟨fun _ => hline, ⟨p, ps, hrem, hjoined⟩, hnone, hjoined.idempotent hnone⟩

/-- A directive, and below it one that stands between the number sign and the word of another. -/
def nestedDirective : String :=
  "#include <ctp/ctp.hpp>\n##include <ctp/ctp.hpp>include <ctp/ctp.hpp>"

/-- The number sign before the inner directive and the word behind it come together as a directive,
so there is one in the text, and inlining puts the header in once more. -/
theorem includeHeader_nestedDirective :
    OneLine nestedDirective.toList ∧
    (includeHeader nestedDirective).2.toList =
      bundledHeader.toList ++ "\n#include <ctp/ctp.hpp>".toList ∧
    HasDirective (includeHeader nestedDirective).2.toList ∧
    includeHeader (includeHeader nestedDirective).2 ≠
      (.identity, (includeHeader nestedDirective).2) := by
  let rest := "\n##include <ctp/ctp.hpp>include <ctp/ctp.hpp>".toList
  have hfirst : FirstDirective nestedDirective.toList [] "#include <ctp/ctp.hpp>".toList rest :=
    ⟨rfl, ⟨[], [' '], List.forall_mem_nil _, List.forall_mem_singleton.mpr (by decide), rfl⟩,
      fun _ _ _ _ _ => Nat.zero_le _⟩
  have hdirective : HasDirective "#include <ctp/ctp.hpp>".toList :=
    hasDirective_iff.mp (by decide +kernel)
  obtain ⟨i, hi⟩ := includeHeader_eq hfirst (by decide +kernel) hdirective
  have hdropped : dropDirectives rest = "\n#include <ctp/ctp.hpp>".toList := by decide +kernel
  have htext : (includeHeader nestedDirective).2.toList =
      bundledHeader.toList ++ "\n#include <ctp/ctp.hpp>".toList := by
    rw [hi, String.toList_ofList, hdropped, List.nil_append]
  have hlines : splitOn '\n' (includeHeader nestedDirective).2.toList =
      splitOn '\n' bundledHeader.toList ++ splitOn '\n' "#include <ctp/ctp.hpp>".toList := by
    rw [htext]
    exact splitOn_append_sep ..
  have hline : ∃ l ∈ splitOn '\n' (includeHeader nestedDirective).2.toList, HasDirective l := by
    rw [hlines]
    exact ⟨_, List.mem_append_right _ (by decide +kernel), hdirective⟩
  obtain ⟨l, hl, hhas⟩ := hline
  refine ⟨by decide +kernel, htext, hhas.of_mem_splitOn hl, fun heq => ?_⟩
  exact includeHeader_ne_identity ⟨l, hl, hhas⟩ (congrArg Prod.fst heq)

end Playground
