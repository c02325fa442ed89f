import Playground.Proofs.Header.Lines

/-!
# Directives that are spread over lines

A header is put in the place of the first directive of the whole text, but the offset names the
first line that holds a directive.  `Consistent` says that both are the same place.

    every directive on one line     it is the same place
    a directive over two lines      it is not: no line of it holds a directive, and the newlines
                                    in it go with it, so the lines below are shifted by too little

So the codes in which it is are those without a directive over two lines
(`includeHeader_consistent_iff`).
-/

namespace Playground

open Text

/-! ## Places of directives -/

/-- A text with a directive has a first one. -/
theorem HasDirective.exists_first {s : List Char} (h : HasDirective s) :
    ∃ a m r, FirstDirective s a m r := by
  cases hs : splitDirective? s with
  | none => exact absurd h (splitDirective?_eq_none_iff.mp hs)
  | some p =>
    obtain ⟨m, hm⟩ := firstDirective_of_splitDirective? hs
    exact ⟨p.1, m, p.2, hm⟩

theorem FirstDirective.hasDirective {s a m r : List Char} (h : FirstDirective s a m r) :
    HasDirective s :=
  ⟨a, m, r, h.eq, h.directive⟩

/-- A directive at the start of a text is known from the text. -/
theorem IsDirective.eq_of_append_eq {m n r t : List Char} (hm : IsDirective m)
    (hn : IsDirective n) (h : m ++ r = n ++ t) : m = n ∧ r = t := by
  have hr : directiveAt? (m ++ r) = some r := hm.directiveAt?_append r
  rw [h, hn.directiveAt?_append t] at hr
  obtain rfl := Option.some.inj hr
  exact ⟨List.append_cancel_right h, rfl⟩

theorem FirstDirective.splitDirective?_eq {s a m r : List Char} (h : FirstDirective s a m r) :
    splitDirective? s = some (a, r) := by
  cases hs : splitDirective? s with
  | none => exact absurd h.hasDirective (splitDirective?_eq_none_iff.mp hs)
  | some p =>
    obtain ⟨b, t⟩ := p
    obtain ⟨n, hn⟩ := firstDirective_of_splitDirective? hs
    have hlen : a.length = b.length :=
      Nat.le_antisymm (h.first b n t hn.eq hn.directive) (hn.first a m r h.eq h.directive)
    obtain ⟨rfl, hrest⟩ := List.append_inj (h.eq.symm.trans hn.eq) hlen
    rw [(h.directive.eq_of_append_eq hn.directive hrest).2]

/-- No directive starts inside of another one. -/
theorem IsDirective.le_of_append_eq {m n a r t : List Char} (hm : IsDirective m)
    (hn : IsDirective n) (ha : a ≠ []) (h : m ++ r = a ++ (n ++ t)) : m.length ≤ a.length := by
  obtain ⟨c, b, rfl⟩ := List.exists_cons_of_ne_nil ha
  obtain ⟨u, rfl⟩ := hn.exists_eq_cons
  obtain ⟨v, w, hv, hw, rfl⟩ := hm
  -- The number sign of the second one would be among the other characters of the first.
  have hnot : '#' ∉ v ++ (includeWord ++ (w ++ headerName)) := by
    have hsharp : isSpace '#' = false := by decide
    simp only [List.mem_append, not_or]
    refine ⟨fun hc => ?_, by decide, fun hc => ?_, by decide⟩
    · rw [hv _ hc] at hsharp
      cases hsharp
    · rw [hw _ hc] at hsharp
      cases hsharp
  rw [List.cons_append, List.cons_append] at h
  rcases List.append_eq_append_iff.mp (List.cons.inj h).2 with ⟨x, hx, -⟩ | ⟨x, hx, hrest⟩
  · rw [hx]
    simp only [List.length_cons, List.length_append]
    omega
  · cases x with
    | nil => rw [hx, List.append_nil, List.length_cons, List.length_cons]
    | cons d x =>
      rw [List.cons_append, List.cons_append] at hrest
      refine absurd ?_ hnot
      rw [hx, ← (List.cons.inj hrest).1]
      simp

/-- Of two starts of a text, the longer one goes on from the other. -/
theorem exists_eq_append_of_length_le {a b s t : List Char} (h : a ++ s = b ++ t)
    (hle : a.length ≤ b.length) : ∃ x, b = a ++ x ∧ s = x ++ t := by
  have ha : a <+: b ++ t := h ▸ List.prefix_append a s
  obtain ⟨x, rfl⟩ := List.prefix_of_prefix_length_le ha (List.prefix_append b t) hle
  rw [List.append_assoc] at h
  exact ⟨x, rfl, List.append_cancel_left h⟩

theorem oneLine_append_iff {m : List Char} (hm : IsDirective m) (r : List Char) :
    OneLine (m ++ r) ↔ '\n' ∉ m ∧ OneLine r := by
  refine ⟨fun h => ⟨h [] m r rfl hm, h.right⟩, ?_⟩
  rintro ⟨hnot, hr⟩ a n t heq hn
  by_cases ha : a = []
  · obtain ⟨rfl, -⟩ := hm.eq_of_append_eq hn (heq.trans (by rw [ha, List.nil_append]))
    exact hnot
  · have hle := hm.le_of_append_eq hn ha heq
    obtain ⟨b, -, hrest⟩ := exists_eq_append_of_length_le heq hle
    exact hr b n t hrest hn

/-- No directive starts before the first one, so what is before it does not matter. -/
theorem FirstDirective.oneLine_iff {s a m r : List Char} (h : FirstDirective s a m r) :
    OneLine s ↔ '\n' ∉ m ∧ OneLine r := by
  rw [← oneLine_append_iff h.directive]
  refine ⟨fun hs => OneLine.right (h.eq ▸ hs), fun hmr b n t heq hn => ?_⟩
  have hle := h.first b n t heq hn
  obtain ⟨x, -, hrest⟩ := exists_eq_append_of_length_le (h.eq.symm.trans heq) hle
  exact hmr x n t hrest hn

/-! ## Newlines that go -/

theorem newlines_append (s t : List Char) : newlines (s ++ t) = newlines s + newlines t :=
  List.count_append

theorem newlines_dropDirectives_le (s : List Char) : newlines (dropDirectives s) ≤ newlines s :=
  (dropDirectives_sublist s).count_le '\n'

/-- Taking the directives out leaves the newlines exactly if no directive holds one. -/
theorem newlines_dropDirectives_eq_iff (s : List Char) :
    newlines (dropDirectives s) = newlines s ↔ OneLine s := by
  induction s using dropDirectives.induct with
  | case1 =>
    rw [dropDirectives_nil]
    exact iff_of_true rfl (oneLine_eq_true_iff.mp rfl)
  | case2 c s r hr ih =>
    obtain ⟨m, hm, hs⟩ := directiveAt?_eq_some_iff.mp hr
    have hle := newlines_dropDirectives_le r
    have hcount : newlines m = 0 ↔ '\n' ∉ m := List.count_eq_zero
    rw [dropDirectives_of_some hr, hs, oneLine_append_iff hm, newlines_append, ← ih, ← hcount]
    omega
  | case3 c s hnone ih =>
    have hone : OneLine (c :: s) ↔ OneLine s := by
      rw [← oneLine_eq_true_iff, ← oneLine_eq_true_iff, oneLine, hnone, Bool.true_and]
    rw [dropDirectives_of_none hnone, hone, ← ih, newlines, newlines, newlines, newlines,
      List.count_cons, List.count_cons]
    omega

/-! ## Lines below -/

/-- The lines of a text below another one are its own, but for the first one. -/
theorem line?_append {s : List Char} (t : List Char) {n : Nat} (hn : newlines s + 1 < n) :
    line? (s ++ t) n = line? t (n - newlines s) := by
  obtain ⟨ps, p, hs⟩ := exists_splitOn_eq_concat '\n' s
  obtain ⟨q, qs, ht⟩ := exists_splitOn_eq_cons '\n' t
  have hlen := length_splitOn '\n' s
  rw [hs, List.length_append, List.length_singleton] at hlen
  rw [newlines] at hn ⊢
  obtain ⟨k, rfl⟩ : ∃ k, n = ps.length + (k + 1) + 1 := ⟨n - ps.length - 2, by omega⟩
  have hsub : ps.length + (k + 1) + 1 - s.count '\n' = k + 1 + 1 := by omega
  rw [line?_add (splitOn_append hs ht), hsub, line?, ht, List.getElem?_cons_succ,
    List.getElem?_cons_succ]

theorem line?_dropDirectives {s : List Char} (h : OneLine s) (n : Nat) :
    line? (dropDirectives s) n = (line? s n).map dropDirectives := by
  cases n with
  | zero => rfl
  | succ n => rw [line?, line?, splitOn_dropDirectives h, List.getElem?_map]

/-! ## One place -/

/-- The header is in the place of a directive that has `a` before it.  The offset names the line
of that place, and shifts the lines below it as far as they are. -/
structure SplicedAt (header code : List Char) (o : LineOffset) (text a : List Char) : Prop where
  offset_eq : o = ⟨newlines header, newlines a + 1⟩
  text_eq : ∃ rest, text = a ++ (header ++ rest)
  /-- The text has as many more newlines as the header. -/
  newlines_eq : newlines text = newlines code + o.headerLines
  below : ∀ n, o.includeLine < n →
    line? text (n + o.headerLines) = (line? code n).map dropDirectives

/-- The offset is that of the first directive of the whole code, if there is one, and is the
identity otherwise. -/
structure Consistent (header code : List Char) (o : LineOffset) (text : List Char) : Prop where
  identity_iff : o = .identity ↔ ¬HasDirective code
  spliced : ∀ a m r, FirstDirective code a m r → SplicedAt header code o text a

/-- With a header that stands, the text is made up of what is around the first directive. -/
theorem inlineHeader_eq {header code : String} {a m r : List Char}
    (h : FirstDirective code.toList a m r) (hs : Stands header.toList code.toList) {line : Nat}
    (hline : includeLine? code.toList = some line) : inlineHeader header code =
      (⟨newlines header.toList, line⟩,
        String.ofList (a ++ (header.toList ++ dropDirectives r))) := by
  rw [inlineHeader, hline, h.splitDirective?_eq]
  dsimp only
  rw [hs.dropDirectives_eq h]

theorem inlineHeader_of_not_hasDirective {header code : String}
    (h : ¬HasDirective code.toList) : inlineHeader header code = (.identity, code) := by
  rw [inlineHeader, splitDirective?_eq_none_iff.mpr h]
  cases includeLine? code.toList <;> rfl

/-- In a code with every directive on one line, the first one is on the line that is found, and
the lines below it are kept but for their directives. -/
theorem FirstDirective.splicedAt {code a m r : List Char} (h : FirstDirective code a m r)
    (hone : OneLine code) (header : List Char) : includeLine? code = some (newlines a + 1) ∧
      SplicedAt header code ⟨newlines header, newlines a + 1⟩
        (a ++ (header ++ dropDirectives r)) a := by
  obtain ⟨hm, hr⟩ := h.oneLine_iff.mp hone
  have hmzero : newlines m = 0 := List.count_eq_zero.mpr hm
  have hdrop := (newlines_dropDirectives_eq_iff r).mpr hr
  constructor
  · obtain ⟨as, x, y, bs, hbefore, -, hlines, hfirst, has⟩ := h.lines hone
    have hlen := length_splitOn '\n' a
    rw [hbefore, List.length_append, List.length_singleton] at hlen
    rw [includeLine?_eq hlines hfirst.hasDirective has, newlines, Nat.succ.inj hlen]
  · refine ⟨rfl, ⟨_, rfl⟩, ?_, fun n hn => ?_⟩
    · rw [h.eq]
      simp only [newlines_append]
      omega
    · -- Both lines are the same one of what is behind the directive.
      dsimp only at hn ⊢
      have hcode : newlines (a ++ m) = newlines a := by rw [newlines_append, hmzero, Nat.add_zero]
      have htext : newlines (a ++ header) = newlines a + newlines header := newlines_append a header
      have hsame : n + newlines header - newlines (a ++ header) = n - newlines (a ++ m) := by omega
      rw [h.eq, ← List.append_assoc, ← List.append_assoc, line?_append _ (by omega),
        line?_append _ (by omega), line?_dropDirectives hr, hsame]

theorem consistent_of_oneLine {header code : String} (hone : OneLine code.toList)
    (hs : Stands header.toList code.toList) : Consistent header.toList code.toList
      (inlineHeader header code).1 (inlineHeader header code).2.toList := by
  by_cases hhas : HasDirective code.toList
  · obtain ⟨a, m, r, h⟩ := hhas.exists_first
    obtain ⟨hline, hspliced⟩ := h.splicedAt hone header.toList
    rw [inlineHeader_eq h hs hline, String.toList_ofList]
    refine ⟨iff_of_false (fun heq => ?_) (not_not.mpr hhas), fun b n t h' => ?_⟩
    · cases congrArg LineOffset.includeLine heq
    · have hab : (a, r) = (b, t) :=
        Option.some.inj (h.splitDirective?_eq.symm.trans h'.splitDirective?_eq)
      cases hab
      exact hspliced
  · rw [inlineHeader_of_not_hasDirective hhas]
    exact ⟨iff_of_true rfl hhas, fun a m r h => absurd h.hasDirective hhas⟩

theorem Consistent.oneLine {header code : String} (hs : Stands header.toList code.toList)
    (h : Consistent header.toList code.toList (inlineHeader header code).1
      (inlineHeader header code).2.toList) : OneLine code.toList := by
  by_cases hhas : HasDirective code.toList
  case neg => exact fun a m r heq hm => absurd ⟨a, m, r, heq, hm⟩ hhas
  case pos =>
    obtain ⟨a, m, r, hfirst⟩ := hhas.exists_first
    cases hline : includeLine? code.toList with
    | none =>
      have hidentity : (inlineHeader header code).1 = .identity := by rw [inlineHeader, hline]
      exact absurd hhas (h.identity_iff.mp hidentity)
    | some line =>
      -- The newlines of a directive are missing in the text.
      have hcount := (h.spliced a m r hfirst).newlines_eq
      rw [inlineHeader_eq hfirst hs hline, String.toList_ofList, hfirst.eq] at hcount
      simp only [newlines_append] at hcount
      have hle := newlines_dropDirectives_le r
      refine hfirst.oneLine_iff.mpr ⟨List.count_eq_zero.mp ?_, ?_⟩
      · show newlines m = 0
        omega
      · rw [← newlines_dropDirectives_eq_iff]
        omega

/-- The offset and the text agree on the place of the header exactly if no directive of the code
is spread over two lines. -/
theorem includeHeader_consistent_iff (code : String) :
    Consistent bundledHeader.toList code.toList (includeHeader code).1
      (includeHeader code).2.toList ↔ OneLine code.toList :=
  ⟨Consistent.oneLine (stands_bundledHeader code.toList), fun h =>
    consistent_of_oneLine h (stands_bundledHeader code.toList)⟩

/-- A directive over two lines, above one on a line of its own. -/
def spreadDirective : String := "#\ninclude <ctp/ctp.hpp>\n#include <ctp/ctp.hpp>\nint x;"

/-- The header is on the first line, but the offset names the third one.  The text has one
newline less than the offset says. -/
theorem includeHeader_spreadDirective :
    FirstDirective spreadDirective.toList [] "#\ninclude <ctp/ctp.hpp>".toList
        "\n#include <ctp/ctp.hpp>\nint x;".toList ∧
      (includeHeader spreadDirective).1 = ⟨newlines bundledHeader.toList, 3⟩ ∧
      (∃ rest, (includeHeader spreadDirective).2.toList = bundledHeader.toList ++ rest) ∧
      newlines (includeHeader spreadDirective).2.toList + 1 =
        newlines spreadDirective.toList + newlines bundledHeader.toList ∧
      ¬Consistent bundledHeader.toList spreadDirective.toList (includeHeader spreadDirective).1
        (includeHeader spreadDirective).2.toList := by
  have hs := stands_bundledHeader spreadDirective.toList
  have hfirst : FirstDirective spreadDirective.toList [] "#\ninclude <ctp/ctp.hpp>".toList
      "\n#include <ctp/ctp.hpp>\nint x;".toList :=
    ⟨rfl, ⟨['\n'], [' '], List.forall_mem_singleton.mpr isSpace_newline,
      List.forall_mem_singleton.mpr (by decide), rfl⟩, fun _ _ _ _ _ => Nat.zero_le _⟩
  have hline : includeLine? spreadDirective.toList = some 3 := by decide +kernel
  have hresult := inlineHeader_eq hfirst hs hline
  rw [← includeHeader, List.nil_append] at hresult
  have hdropped : newlines (dropDirectives "\n#include <ctp/ctp.hpp>\nint x;".toList) + 1 =
      newlines spreadDirective.toList := by decide +kernel
  have hspread : ¬OneLine spreadDirective.toList := by decide +kernel
  refine ⟨hfirst, ?_, ?_, ?_, fun h => hspread ?_⟩
  · rw [hresult]
  · rw [hresult, String.toList_ofList]
    exact ⟨_, rfl⟩
  · rw [hresult, String.toList_ofList, newlines_append, Nat.add_assoc, hdropped,
      Nat.add_comm]
  · rw [includeHeader] at h
    exact h.oneLine hs

end Playground
