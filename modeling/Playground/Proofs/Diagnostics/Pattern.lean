import Playground.Diagnostics.Marker
import Playground.Proofs.Diagnostics.Renumber
import Playground.Proofs.Text.Leftmost

/-!
# The pattern of a diagnostic

A diagnostic stands in a message as

    <source>:number:column: word:gap text

where the gap is white space and the text goes on to the end of the line at most.
`IsDiagnostic` states this part by part.  One place may be read in several ways, of which
the one with the longest gap counts, and then the longest text, and of several places
the leftmost one (`IsFirst`).  `search?_diagnostic?_eq_some_iff` says that this is the
diagnostic that markers are made from (`ofMessage?_eq`).
-/

namespace Playground

open Text

/-- The parts of a diagnostic. -/
@[ext]
structure Diagnostic where
  /-- The digits of the line. -/
  number : List Char
  /-- The digits of the column. -/
  column : List Char
  /-- The severity word. -/
  word : List Char
  /-- The white space before the text. -/
  gap : List Char
  /-- The text. -/
  text : List Char
deriving DecidableEq, Repr

/-- White space and a text without newlines stand at the start of `s`. -/
structure Captures (s gap text : List Char) : Prop where
  /-- They stand there. -/
  eq : ∃ r, s = gap ++ (text ++ r)
  /-- There is white space. -/
  gap_ne_nil : gap ≠ []
  /-- There is nothing else before the text. -/
  isSpace_of_mem : ∀ c ∈ gap, isSpace c = true
  /-- There is a text. -/
  text_ne_nil : text ≠ []
  /-- The text is on one line. -/
  newline_notMem : '\n' ∉ text

/-- The headline stands at the start of `s`. -/
structure IsHeadline (s : List Char) (h : Headline) : Prop where
  /-- Its parts stand there. -/
  eq : s = sourceMark ++ (h.line ++ ':' :: (h.column ++ ':' :: ' ' :: (h.word ++ ':' :: h.rest)))
  /-- There is a line. -/
  line_ne_nil : h.line ≠ []
  /-- The line consists of digits. -/
  isDigit_of_mem_line : ∀ c ∈ h.line, isDigit c = true
  /-- There is a column. -/
  column_ne_nil : h.column ≠ []
  /-- The column consists of digits. -/
  isDigit_of_mem_column : ∀ c ∈ h.column, isDigit c = true
  /-- The word is one of a severity. -/
  mem_severityWords : h.word ∈ severityWords

/-- The diagnostic stands at the start of `s`. -/
def IsDiagnostic (s : List Char) (d : Diagnostic) : Prop :=
  ∃ rest, IsHeadline s ⟨d.number, d.column, d.word, rest⟩ ∧ Captures rest d.gap d.text

/-- The longer gap counts, and of two texts behind the same gap the longer one. -/
def Counts (gap text gap' text' : List Char) : Prop :=
  gap'.length < gap.length ∨ (gap' = gap ∧ text'.length ≤ text.length)

/-- The diagnostic is the one that counts at the start of `s`. -/
def IsDiagnosticAt (s : List Char) (d : Diagnostic) : Prop :=
  IsDiagnostic s d ∧ ∀ e, IsDiagnostic s e → Counts d.gap d.text e.gap e.text

/-- The diagnostic is the leftmost one of the message. -/
def IsFirst (s : List Char) (d : Diagnostic) : Prop :=
  ∃ a t, s = a ++ t ∧ IsDiagnosticAt t d ∧
    ∀ b u e, s = b ++ u → b.length < a.length → ¬IsDiagnostic u e

/-! ## White space and a text -/

/-- The white space and the text that count at the start of a text. -/
def capture? : List Char → Option (List Char × List Char)
  | [] => none
  | c :: s =>
    if isSpace c then
      match trimStart s with
      | d :: r => some (c :: s.takeWhile isSpace, (d :: r).takeWhile (· ≠ '\n'))
      | [] =>
        -- The last character that can be a text is one.
        match s.reverse.dropWhile (· = '\n') with
        | d :: g => some (c :: g.reverse, [d])
        | [] => none
    else none

/-- What is before the newlines at the end of a text, and its last character. -/
theorem eq_of_dropWhile_newline {s g : List Char} {d : Char}
    (h : s.reverse.dropWhile (· = '\n') = d :: g) :
    d ≠ '\n' ∧ ∃ ns, s = g.reverse ++ d :: ns ∧ ∀ c ∈ ns, c = '\n' := by
  have hd := eq_false_of_head?_dropWhile (congrArg List.head? h)
  refine ⟨by simpa using hd, (s.reverse.takeWhile (· = '\n')).reverse, ?_, ?_⟩
  · calc s = (s.reverse.takeWhile (· = '\n') ++ s.reverse.dropWhile (· = '\n')).reverse := by
          rw [List.takeWhile_append_dropWhile, List.reverse_reverse]
      _ = g.reverse ++ d :: (s.reverse.takeWhile (· = '\n')).reverse := by
          rw [h, List.reverse_append, List.reverse_cons, List.append_assoc, List.singleton_append]
  · intro c hc
    have hmem := List.mem_takeWhile_imp (List.mem_reverse.mp hc)
    simpa using hmem

/-- Behind a gap that is no shorter, the longest text counts. -/
theorem Captures.counts {s g x g' t' : List Char} (h : Captures s g' t') (hs : s = g ++ x)
    (hle : g'.length ≤ g.length) : Counts g (x.takeWhile (· ≠ '\n')) g' t' := by
  obtain ⟨u, hu⟩ := h.eq
  cases Nat.lt_or_eq_of_le hle with
  | inl hlt => exact Or.inl hlt
  | inr heq =>
    obtain ⟨hg, hrest⟩ := List.append_inj (hu.symm.trans hs) heq
    refine Or.inr ⟨hg, length_le_of_eq_append hrest.symm ?_⟩
    intro e he
    refine decide_eq_true ?_
    rintro rfl
    exact h.newline_notMem he

/-- White space and a text that count at the start of `s`. -/
def IsCapture (s g t : List Char) : Prop :=
  Captures s g t ∧ ∀ g' t', Captures s g' t' → Counts g t g' t'

theorem isCapture_of_ink {c d : Char} {s r : List Char} (hc : isSpace c = true)
    (hr : trimStart s = d :: r) :
    IsCapture (c :: s) (c :: s.takeWhile isSpace) ((d :: r).takeWhile (· ≠ '\n')) := by
  have hs : c :: s = (c :: s.takeWhile isSpace) ++ d :: r := by
    rw [← hr, List.cons_append, trimStart, List.takeWhile_append_dropWhile]
  have hd : isSpace d = false := eq_false_of_head?_dropWhile (congrArg List.head? hr)
  have hline : d ≠ '\n' := by
    rintro rfl
    cases hd
  have hall : ∀ e ∈ c :: s.takeWhile isSpace, isSpace e = true := by
    intro e he
    cases List.mem_cons.mp he with
    | inl h => rw [h, hc]
    | inr h => exact List.mem_takeWhile_imp h
  refine ⟨⟨⟨(d :: r).dropWhile (· ≠ '\n'), ?_⟩, List.cons_ne_nil _ _, hall, ?_, ?_⟩, ?_⟩
  · rw [List.takeWhile_append_dropWhile, ← hs]
  · rw [List.takeWhile_cons_of_pos (by simpa using hline)]
    exact List.cons_ne_nil _ _
  · intro hmem
    have hne := List.mem_takeWhile_imp hmem
    simp at hne
  · intro g' t' h'
    obtain ⟨u, hu⟩ := h'.eq
    have hle := length_le_of_eq_append hu h'.isSpace_of_mem
    rw [List.takeWhile_cons_of_pos hc] at hle
    exact h'.counts hs hle

theorem isCapture_of_blank {c d : Char} {s k : List Char} (hc : isSpace c = true)
    (hr : trimStart s = []) (hk : s.reverse.dropWhile (· = '\n') = d :: k) :
    IsCapture (c :: s) (c :: k.reverse) [d] := by
  obtain ⟨hd, ns, hs, hns⟩ := eq_of_dropWhile_newline hk
  have hcs : c :: s = (c :: k.reverse) ++ d :: ns := by rw [hs, List.cons_append]
  have hspace : ∀ e ∈ c :: s, isSpace e = true := by
    intro e he
    cases List.mem_cons.mp he with
    | inl h => rw [h, hc]
    | inr h => exact List.dropWhile_eq_nil_iff.mp hr e h
  have htext : (d :: ns).takeWhile (· ≠ '\n') = [d] := by
    rw [List.takeWhile_cons_of_pos (by simpa using hd)]
    cases ns with
    | nil => rfl
    | cons n ns =>
      rw [List.takeWhile_cons_of_neg (by simpa using hns n (List.mem_cons_self ..))]
  refine ⟨⟨⟨ns, by rw [hcs, List.singleton_append]⟩, List.cons_ne_nil _ _, ?_,
    List.cons_ne_nil _ _, by simpa using Ne.symm hd⟩, ?_⟩
  · intro e he
    exact hspace e (hcs ▸ List.mem_append_left _ he)
  · intro g' t' h'
    rw [← htext]
    refine h'.counts hcs ?_
    obtain ⟨u, hu⟩ := h'.eq
    obtain ⟨e, t'', ht'⟩ := List.exists_cons_of_ne_nil h'.text_ne_nil
    -- A text that starts later starts with a newline.
    rcases List.append_eq_append_iff.mp (hu.symm.trans hcs) with ⟨x, hx, -⟩ | ⟨x, hx, hxu⟩
    · rw [hx, List.length_append]
      exact Nat.le_add_right _ _
    · cases x with
      | nil => rw [hx, List.append_nil]
      | cons y x =>
        have hmem : e ∈ ns := by
          rw [(List.cons.inj hxu).2, ht']
          simp
        have hnewline : '\n' ∈ t' := by
          rw [ht', hns e hmem]
          exact List.mem_cons_self ..
        exact absurd hnewline h'.newline_notMem

theorem isCapture_of_capture? {s g t : List Char} (h : capture? s = some (g, t)) :
    IsCapture s g t := by
  unfold capture? at h
  split at h
  · cases h
  · next c s =>
    split at h
    · next hc =>
      split at h
      · next d r hr => cases h; exact isCapture_of_ink hc hr
      · next hr =>
        split at h
        · next d k hk => cases h; exact isCapture_of_blank hc hr hk
        · cases h
    · cases h

theorem not_captures_of_capture? {s g t : List Char} (h : capture? s = none) :
    ¬Captures s g t := by
  intro hcap
  obtain ⟨u, hu⟩ := hcap.eq
  obtain ⟨c, g', rfl⟩ := List.exists_cons_of_ne_nil hcap.gap_ne_nil
  obtain ⟨e, t', rfl⟩ := List.exists_cons_of_ne_nil hcap.text_ne_nil
  rw [hu, List.cons_append, capture?, if_pos (hcap.isSpace_of_mem c (List.mem_cons_self ..))] at h
  split at h
  · cases h
  · split at h
    · cases h
    · next hnil =>
      -- Nothing but newlines follows the first character.
      have hall := List.dropWhile_eq_nil_iff.mp hnil e (by simp)
      refine hcap.newline_notMem ?_
      rw [of_decide_eq_true hall]
      exact List.mem_cons_self ..

theorem diagnosticText?_eq (s : List Char) :
    diagnosticText? s = (capture? s).map fun found => trimEnd found.2 := by
  cases s with
  | nil => rfl
  | cons c s =>
    rw [diagnosticText?, capture?]
    cases hc : isSpace c with
    | false => rfl
    | true =>
      rw [if_pos rfl, if_neg (by simp)]
      cases hr : trimStart s with
      | cons d r => rfl
      | nil =>
        dsimp only
        cases hk : s.reverse.dropWhile (· = '\n') with
        | nil =>
          have hall : s.all (· = '\n') = true := by
            rw [List.all_eq_true]
            intro e he
            exact List.dropWhile_eq_nil_iff.mp hk e (List.mem_reverse.mpr he)
          rw [if_pos hall]
          rfl
        | cons d k =>
          obtain ⟨hd, ns, hs, -⟩ := eq_of_dropWhile_newline hk
          have hmem : d ∈ s := by
            rw [hs]
            simp
          have hall : ¬s.all (· = '\n') = true := by
            intro h
            exact hd (of_decide_eq_true (List.all_eq_true.mp h d hmem))
          have htrim : trimEnd [d] = [] := by
            simp [trimEnd, List.dropWhile_eq_nil_iff.mp hr d hmem]
          rw [if_neg hall, Option.map_some, htrim]

/-! ## Headlines -/

theorem severityWordAt?_eq_some_iff {s w r : List Char} :
    severityWordAt? s = some (w, r) ↔ w ∈ severityWords ∧ s = w ++ ':' :: r := by
  constructor
  · intro h
    obtain ⟨v, hv, hat⟩ := List.exists_of_findSome?_eq_some h
    obtain ⟨t, ht, heq⟩ := Option.map_eq_some_iff.mp hat
    cases heq
    exact ⟨hv, by rw [eq_append_of_after? ht, List.append_assoc, List.singleton_append]⟩
  · rintro ⟨hw, rfl⟩
    simp only [severityWords, List.mem_cons, List.not_mem_nil, or_false] at hw
    rcases hw with rfl | rfl | rfl <;> simp [severityWordAt?, severityWords, after?]

theorem headlineAt?_eq_some_iff {s : List Char} {h : Headline} :
    headlineAt? s = some h ↔ IsHeadline s h := by
  constructor
  · intro hat
    simp only [headlineAt?, Option.bind_eq_bind, Option.bind_eq_some_iff] at hat
    obtain ⟨⟨line, s1⟩, h1, s2, h2, hat⟩ := hat
    dsimp only at h2 hat
    split at hat
    · cases hat
    · next hcolumn =>
      simp only [Option.bind_eq_some_iff] at hat
      obtain ⟨s3, h3, ⟨word, rest⟩, h4, heq⟩ := hat
      cases heq
      obtain ⟨hs, hne, hds, -⟩ := eq_of_referenceAt? h1
      obtain ⟨hword, hs3⟩ := severityWordAt?_eq_some_iff.mp h4
      refine ⟨?_, hne, hds, hcolumn, fun c hc => List.mem_takeWhile_imp hc, hword⟩
      have hs2 : s2 = s2.takeWhile isDigit ++ ':' :: ' ' :: (word ++ ':' :: rest) := by
        rw [← hs3]
        exact (congrArg _ (eq_append_of_after? h3)).symm.trans
          List.takeWhile_append_dropWhile |>.symm
      rw [hs, eq_append_of_after? h2, List.singleton_append, ← hs2]
  · intro hs
    have hcolon : ∀ (r : List Char) (c : Char), (':' :: r).head? = some c → isDigit c = false := by
      intro r c hc
      rw [← Option.some.inj hc]
      decide
    have href := referenceAt?_append hs.line_ne_nil hs.isDigit_of_mem_line
      (hcolon (h.column ++ ':' :: ' ' :: (h.word ++ ':' :: h.rest)))
    obtain ⟨htake, hdrop⟩ := takeWhile_append_of_head hs.isDigit_of_mem_column
      (hcolon (' ' :: (h.word ++ ':' :: h.rest)))
    have hword : severityWordAt? (h.word ++ ':' :: h.rest) = some (h.word, h.rest) :=
      severityWordAt?_eq_some_iff.mpr ⟨hs.mem_severityWords, rfl⟩
    rw [hs.eq, headlineAt?, href]
    simp only [after?, ↓reduceIte, Option.bind_eq_bind, Option.bind_some, htake, hdrop,
      hs.column_ne_nil, hword]
    rfl

/-! ## Diagnostics -/

/-- The diagnostic that counts at the start of a text. -/
def diagnostic? (s : List Char) : Option Diagnostic :=
  (headlineAt? s).bind fun h => (capture? h.rest).map fun found =>
    ⟨h.line, h.column, h.word, found.1, found.2⟩

/-- Two headlines at one place are the same. -/
theorem IsHeadline.unique {s : List Char} {h k : Headline} (hh : IsHeadline s h)
    (hk : IsHeadline s k) : h = k := by
  have heq := headlineAt?_eq_some_iff.mpr hh
  rw [headlineAt?_eq_some_iff.mpr hk] at heq
  exact (Option.some.inj heq).symm

theorem isDiagnosticAt_of_diagnostic? {s : List Char} {d : Diagnostic}
    (h : diagnostic? s = some d) : IsDiagnosticAt s d := by
  obtain ⟨k, hk, h⟩ := Option.bind_eq_some_iff.mp h
  obtain ⟨⟨gap, text⟩, hfound, heq⟩ := Option.map_eq_some_iff.mp h
  cases heq
  have hline := headlineAt?_eq_some_iff.mp hk
  obtain ⟨hcap, hcounts⟩ := isCapture_of_capture? hfound
  refine ⟨⟨k.rest, hline, hcap⟩, ?_⟩
  rintro e ⟨rest, he, hecap⟩
  have hrest : k.rest = rest := congrArg Headline.rest (hline.unique he)
  exact hcounts e.gap e.text (hrest ▸ hecap)

theorem not_isDiagnostic_of_diagnostic? {s : List Char} {d : Diagnostic}
    (h : diagnostic? s = none) : ¬IsDiagnostic s d := by
  rintro ⟨rest, hline, hcap⟩
  rw [diagnostic?, headlineAt?_eq_some_iff.mpr hline, Option.bind_some,
    Option.map_eq_none_iff] at h
  exact not_captures_of_capture? h hcap

/-- Only one diagnostic counts at one place. -/
theorem IsDiagnosticAt.unique {s : List Char} {d e : Diagnostic} (hd : IsDiagnosticAt s d)
    (he : IsDiagnosticAt s e) : d = e := by
  obtain ⟨⟨rest, hline, hcap⟩, hcounts⟩ := hd
  obtain ⟨⟨rest', hline', hcap'⟩, hcounts'⟩ := he
  obtain ⟨hnumber, hcolumn, hword, hrest⟩ := Headline.mk.inj (hline.unique hline')
  have hgap : e.gap = d.gap ∧ e.text.length = d.text.length := by
    rcases hcounts e ⟨rest', hline', hcap'⟩ with h | ⟨h, hle⟩ <;>
      rcases hcounts' d ⟨rest, hline, hcap⟩ with h' | ⟨h', hle'⟩
    · omega
    · rw [h'] at h; omega
    · rw [h] at h'; omega
    · exact ⟨h, Nat.le_antisymm hle hle'⟩
  obtain ⟨r, hr⟩ := hcap.eq
  obtain ⟨r', hr'⟩ := hcap'.eq
  rw [hr', hr, hgap.1] at hrest
  have htext := (List.append_inj (List.append_cancel_left hrest) hgap.2.symm).1
  exact Diagnostic.ext hnumber hcolumn hword hgap.1.symm htext

theorem diagnostic?_eq_some_iff {s : List Char} {d : Diagnostic} :
    diagnostic? s = some d ↔ IsDiagnosticAt s d := by
  constructor
  · exact isDiagnosticAt_of_diagnostic?
  · intro hd
    cases h : diagnostic? s with
    | none => exact absurd hd.1 (not_isDiagnostic_of_diagnostic? h)
    | some e => rw [hd.unique (isDiagnosticAt_of_diagnostic? h)]

/-- The search finds the leftmost diagnostic. -/
theorem search?_diagnostic?_eq_some_iff {s : List Char} {d : Diagnostic} :
    search? diagnostic? s = some d ↔ IsFirst s d := by
  rw [search?_eq_some_iff]
  constructor
  · rintro ⟨a, t, hs, ht, hfirst⟩
    refine ⟨a, t, hs, diagnostic?_eq_some_iff.mp ht, ?_⟩
    intro b u e hu hlen
    exact not_isDiagnostic_of_diagnostic? (hfirst b u hu hlen)
  · rintro ⟨a, t, hs, ht, hfirst⟩
    refine ⟨a, t, hs, diagnostic?_eq_some_iff.mpr ht, ?_⟩
    intro b u hu hlen
    cases h : diagnostic? u with
    | none => rfl
    | some e => exact absurd (isDiagnosticAt_of_diagnostic? h).1 (hfirst b u e hu hlen)

end Playground
