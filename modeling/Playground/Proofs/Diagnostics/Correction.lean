import Playground.Proofs.Diagnostics.Cuts
import Playground.Proofs.Diagnostics.Width

/-!
# What correcting a message changes

In a message with a reference, the number of each reference becomes that of the line of the
user's text, and everything else is kept: the message has one cut at its numbers, and the
corrected message is cut at the same places (`references_moved`).  A gutter at its start is among
what is kept.

In a message without one, the number of the gutter becomes that of the line, flush right, so the
bar and the code behind it stay in their columns (`gutter_aligned`).  A number never gets more
digits, since no line is moved down.  Only a gutter with more than `maxWidth` columns is not
corrected, and then nothing comes of the message (`gutter_unwritten_wideExcerpt`).

Where a number is no line number, it stays as it is.
-/

namespace Playground

open Text

/-- What the digits of a line number become. -/
inductive LineOffset.Moves (o : LineOffset) : List Char → List Char → Prop where
  /-- They become the digits of the line that the number is corrected to. -/
  | line {d : List Char} {n m : Nat} (number : readWord? d = some n)
      (corrected : o.correct n = .ok m) : Moves o d (wordDigits m)
  /-- They stay if they are no line number. -/
  | other {d : List Char} (noNumber : readWord? d = none) : Moves o d d

/-- The cuts have the same texts, and the numbers of the first one become those of the second. -/
inductive Cut.Moves (o : LineOffset) : Cut → Cut → Prop where
  /-- There is no number. -/
  | last (p : List Char) : Moves o (last p) (last p)
  /-- A number becomes another one, and the rest follows. -/
  | number {d e : List Char} {rest rest' : Cut} (p : List Char) (moves : o.Moves d e)
      (others : Moves o rest rest') : Moves o (number p d rest) (number p e rest')

/-! ## References -/

theorem LineOffset.moves_relocation {o : LineOffset} (ho : ∀ n, o.correct n = .ok (o.origin n))
    (hid : o.isIdentity = false) (d : List Char) : o.Moves d (o.relocation d) := by
  rw [relocation, hid, if_neg Bool.false_ne_true]
  cases hn : readWord? d with
  | none => exact .other hn
  | some n => exact .line hn (ho n)

theorem Cut.moves_map {o : LineOffset} {f : List Char → List Char} (hf : ∀ d, o.Moves d (f d))
    (c : Cut) : Moves o c (c.map f) := by
  induction c with
  | last p => exact .last p
  | number p d rest ih => exact .number p (hf d) ih

theorem Cut.Moves.length_numbers {o : LineOffset} {c e : Cut} (h : Moves o c e) :
    e.numbers.length = c.numbers.length := by
  induction h with
  | last p => rfl
  | number p moves others ih => rw [numbers, numbers, List.length_cons, List.length_cons, ih]

/-- Other digits in the references leave the gutter alone. -/
theorem IsGutter.renumber {s : List Char} {g : Gutter} (h : IsGutter s g)
    (f : List Char → List Char) :
    ∃ tail, IsGutter (renumber f s) ⟨g.indent, g.number, tail⟩ := by
  obtain ⟨gap, r, htail, hne, hgap⟩ := h.bar
  have hstart : '<' ∉ g.indent ++ (g.number ++ (gap ++ ['|', ' '])) := by
    rw [← List.append_assoc, List.mem_append]
    rintro (hin | hin)
    · exact h.bracket_notMem hin
    · rcases List.mem_append.mp hin with hin | hin
      · cases hgap _ hin
      · exact absurd hin (by decide)
  have hs : s = g.indent ++ (g.number ++ (gap ++ ['|', ' '])) ++ r := by
    rw [h.eq, htail]
    simp only [List.append_assoc, List.cons_append, List.nil_append]
  refine ⟨gap ++ '|' :: ' ' :: Playground.renumber f r, ?_, h.indent_ne_nil, h.eq_of_mem_indent,
    h.number_ne_nil, h.isDigit_of_mem_number, gap, _, rfl, hne, hgap⟩
  rw [hs, renumber_append hstart]
  simp only [List.append_assoc, List.cons_append, List.nil_append]

theorem numbers_cut_ne_nil {s : List Char} (h : HasReference s) : (cut s).numbers ≠ [] := by
  obtain ⟨a, d, b, hs, hnum⟩ := hasReference_iff.mp h
  exact List.ne_nil_of_mem (mem_numbers_cut_iff.mpr ⟨a, b, hs, hnum⟩)

/-- In a message with a reference the numbers of the references are corrected, and nothing else
is changed. -/
theorem references_moved {o : LineOffset} (hmoves : 0 < o.headerLines)
    (hfits : o.headerLines + o.includeLine < wordBound) {s : List Char} (href : HasReference s) :
    ∃ c e : Cut, Cuts s c ∧ (∀ d, Cuts s d → d = c) ∧ c.numbers ≠ [] ∧
      Cut.Moves o c e ∧ correctLineNumbers o s = .ok e.text ∧
      Cuts e.text e ∧ e.numbers.length = c.numbers.length ∧
      ∀ g, IsGutter s g → ∃ tail, IsGutter e.text ⟨g.indent, g.number, tail⟩ := by
  have hid := LineOffset.isIdentity_eq_false_iff.mpr hmoves
  have ho := LineOffset.correct_eq_origin (o := o) (by omega)
  have hcorrected := correctLineNumbers_of_any ho hid (any_isNumber_iff.mpr href)
  have hmap := Cut.moves_map (LineOffset.moves_relocation ho hid) (cut s)
  have hcut := cuts_cut (renumber o.relocation s)
  rw [cut_renumber o.keepsDigits_relocation] at hcut
  rw [renumber_eq_text] at hcorrected hcut
  refine ⟨cut s, (cut s).map o.relocation, cuts_cut s, fun d hd => hd.unique (cuts_cut s),
    numbers_cut_ne_nil href, hmap, hcorrected, hcut, hmap.length_numbers, fun g hg => ?_⟩
  rw [← renumber_eq_text]
  exact hg.renumber o.relocation

/-- Behind a gutter, a number with leading zeros, one of another script, one that is no line
number, a mark without a number, and a last number. -/
def references : List Char :=
  " 12 | <source>:0120:120: <source>:٣<source>:99999999999999999999 <source>: <source>:2".toList

/-- The same message with its line numbers corrected. -/
def correctedReferences : List Char :=
  " 12 | <source>:20:120: <source>:٣<source>:99999999999999999999 <source>: <source>:1".toList

theorem references_moved_references :
    0 < 100 ∧ 100 + 1 < wordBound ∧ HasReference references ∧
    ∃ c e : Cut, Cuts references c ∧ (∀ d, Cuts references d → d = c) ∧ c.numbers ≠ [] ∧
      Cut.Moves ⟨100, 1⟩ c e ∧ Cuts e.text e ∧ e.numbers.length = c.numbers.length ∧
      c.numbers = [['0', '1', '2', '0'], ['٣'], List.replicate 20 '9', ['2']] ∧
      e.text = correctedReferences := by
  have hfits : 100 + 1 < wordBound := by decide
  have href : HasReference references :=
    ⟨" 12 | ".toList, '0',
      "120:120: <source>:٣<source>:99999999999999999999 <source>: <source>:2".toList,
      by decide +kernel, by decide⟩
  obtain ⟨c, e, hc, honly, hne, hmoves, hcorrected, he, hlen, -⟩ :=
    references_moved (o := ⟨100, 1⟩) (by decide) hfits href
  refine ⟨by decide, hfits, href, c, e, hc, honly, hne, hmoves, he, hlen, ?_, ?_⟩
  · rw [← honly _ (cuts_cut references)]
    decide +kernel
  · have hshown : correctLineNumbers ⟨100, 1⟩ references = .ok correctedReferences := by
      decide +kernel
    rw [hshown] at hcorrected
    exact (Except.ok.inj hcorrected).symm

/-! ## Gutters -/

/-- The character is one of those that a gutter has before its bar. -/
def isGutterChar (c : Char) : Bool := c = ' ' || isDigit c

/-- The corrected message `t` has its columns where the message `s` has them. -/
structure Aligned (o : LineOffset) (s t : List Char) : Prop where
  /-- It has as many characters. -/
  length_eq : t.length = s.length
  /-- It differs at most in the run of spaces and digits at the start. -/
  behind : ∃ a, t = a ++ s.dropWhile isGutterChar ∧
    a.length = (s.takeWhile isGutterChar).length ∧ ∀ c ∈ a, isGutterChar c = true
  /-- A gutter with a line number gets the corrected one, which ends where the old one did, in
  front of the same tail. -/
  corrected : o.isIdentity = false → ∀ g n, IsGutter s g → readWord? g.number = some n →
    ∃ m indent, o.correct n = .ok m ∧ readWord? (wordDigits m) = some m ∧
      IsGutter t ⟨indent, wordDigits m, g.tail⟩ ∧
      indent.length + (wordDigits m).length = g.indent.length + g.number.length
  /-- In all other cases nothing is changed. -/
  kept : (o.isIdentity = true ∨ ∀ g n, IsGutter s g → readWord? g.number ≠ some n) → t = s

/-- The spaces and digits at the start of a message with a gutter end at the bar. -/
theorem IsGutter.run {s : List Char} {g : Gutter} (h : IsGutter s g) {gap r : List Char}
    (htail : g.tail = gap ++ '|' :: r) (hgap : ∀ c ∈ gap, c = ' ') :
    s.takeWhile isGutterChar = g.indent ++ (g.number ++ gap) ∧
      s.dropWhile isGutterChar = '|' :: r := by
  have hs : s = g.indent ++ (g.number ++ gap) ++ '|' :: r := by
    rw [h.eq, htail]
    simp only [List.append_assoc]
  rw [hs]
  refine takeWhile_append_of_head ?_ fun c hc => ?_
  · intro c hc
    rw [isGutterChar, Bool.or_eq_true, decide_eq_true_eq]
    rcases List.mem_append.mp hc with hin | hin
    · exact Or.inl (h.eq_of_mem_indent c hin)
    · rcases List.mem_append.mp hin with hin | hin
      · exact Or.inr (h.isDigit_of_mem_number c hin)
      · exact Or.inl (hgap c hin)
  · rw [← Option.some.inj hc]
    decide

theorem aligned_self {o : LineOffset} {s : List Char}
    (h : o.isIdentity = true ∨ ∀ g n, IsGutter s g → readWord? g.number ≠ some n) :
    Aligned o s s where
  length_eq := rfl
  behind := ⟨s.takeWhile isGutterChar, (List.takeWhile_append_dropWhile ..).symm, rfl,
    fun _ hc => List.mem_takeWhile_imp hc⟩
  corrected := by
    intro hid g n hg hn
    rcases h with h | h
    · rw [h] at hid
      cases hid
    · exact absurd hn (h g n hg)
  kept := fun _ => rfl

/-- A number in the place of that of a gutter, flush right, keeps the columns. -/
theorem IsGutter.aligned {o : LineOffset} {s : List Char} {g : Gutter} {n m : Nat}
    (hg : IsGutter s g) (hn : readWord? g.number = some n) (hid : o.isIdentity = false)
    (hm : o.correct n = .ok m) (hle : m ≤ n) :
    Aligned o s ((wordDigits m).leftpad g.width ' ' ++ g.tail) := by
  have hdigits : ∀ c ∈ wordDigits m, isDigit c = true := fun c hc =>
    isDigit_of_ascii (isDigit_of_mem_wordDigits hc)
  obtain ⟨indent, ht, hwidth⟩ :=
    hg.leftpad (wordDigits_ne_nil m) hdigits (length_wordDigits_le hn hle)
  rw [Gutter.width] at hwidth
  constructor
  case length_eq =>
    rw [ht.eq, hg.eq]
    simp only [List.length_append]
    omega
  case behind =>
    obtain ⟨gap, r, htail, -, hgap⟩ := hg.bar
    obtain ⟨hrun, hrest⟩ := hg.run htail hgap
    obtain ⟨hrun', hrest'⟩ := ht.run htail hgap
    have hsplit := List.takeWhile_append_dropWhile (p := isGutterChar)
      (l := (wordDigits m).leftpad g.width ' ' ++ g.tail)
    refine ⟨_, by rw [hrest, ← hrest', hsplit], ?_, fun c hc => List.mem_takeWhile_imp hc⟩
    rw [hrun, hrun']
    simp only [List.length_append]
    omega
  case corrected =>
    intro _ k l hk hl
    obtain rfl := hk.unique hg
    rw [hn] at hl
    obtain rfl := Option.some.inj hl
    exact ⟨m, indent, hm, readWord?_wordDigits (Nat.lt_of_le_of_lt hle (readWord?_lt hn)), ht,
      hwidth⟩
  case kept =>
    rintro (h | h)
    · rw [h] at hid
      cases hid
    · exact absurd hn (h g n hg)

theorem aligned_of_correctLineNumbers {o : LineOffset} (ho : ∀ n, o.correct n = .ok (o.origin n))
    {s t : List Char} (hnone : ¬HasReference s) (ht : correctLineNumbers o s = .ok t) :
    Aligned o s t := by
  cases hid : o.isIdentity with
  | true =>
    rw [correctLineNumbers_of_isIdentity hid] at ht
    cases ht
    exact aligned_self (Or.inl hid)
  | false =>
    rw [correctLineNumbers_of_not_any hid (any_isNumber_eq_false_iff.mpr hnone)] at ht
    by_cases hgutter : ∃ g n, IsGutter s g ∧ readWord? g.number = some n
    case pos =>
      obtain ⟨g, n, hg, hn⟩ := hgutter
      have hwidth : g.width ≤ maxWidth := by
        refine Nat.not_lt.mp fun hlt => ?_
        cases ht.symm.trans (correctGutter_of_lt_width hg hn (ho n) hlt)
      rw [correctGutter_of_width_le hg hn (ho n) hwidth] at ht
      cases ht
      exact hg.aligned hn hid (ho n) (o.origin_le n)
    case neg =>
      have hkeep : ∀ g n, IsGutter s g → readWord? g.number ≠ some n :=
        fun g n hg hn => hgutter ⟨g, n, hg, hn⟩
      rw [correctGutter_of_forall_ne hkeep] at ht
      cases ht
      exact aligned_self (Or.inr hkeep)

/-- A message without a reference is corrected exactly if its gutter is not too wide.  Then the
number of the gutter is corrected, and every column behind it is kept.  A message without a gutter
stays as it is. -/
theorem gutter_aligned {o : LineOffset} (hfits : o.headerLines + o.includeLine < wordBound)
    {s : List Char} (hnone : ¬HasReference s) :
    ((∃ t, correctLineNumbers o s = .ok t) ↔ ¬Overwide o s) ∧
      (Overwide o s → correctLineNumbers o s = .error .tooWide) ∧
      ∀ t, correctLineNumbers o s = .ok t → Aligned o s t := by
  have ho := LineOffset.correct_eq_origin (o := o) (by omega)
  exact ⟨exists_correctLineNumbers_iff ho, correctLineNumbers_of_overwide ho,
    fun t => aligned_of_correctLineNumbers ho hnone⟩

/-- An excerpt whose number has leading zeros. -/
def excerpt : List Char := " 00120  |  return x;".toList

theorem gutter_aligned_excerpt :
    100 + 1 < wordBound ∧ ¬HasReference excerpt ∧ ¬Overwide ⟨100, 1⟩ excerpt ∧
    correctLineNumbers ⟨100, 1⟩ excerpt = .ok "    20  |  return x;".toList ∧
    Aligned ⟨100, 1⟩ excerpt "    20  |  return x;".toList := by
  have hfits : 100 + 1 < wordBound := by decide
  have hnone : ¬HasReference excerpt := by
    rw [← any_isNumber_iff]
    decide +kernel
  have hshown : correctLineNumbers ⟨100, 1⟩ excerpt = .ok "    20  |  return x;".toList := by
    decide +kernel
  obtain ⟨hiff, -, haligned⟩ := gutter_aligned (o := ⟨100, 1⟩) hfits hnone
  exact ⟨hfits, hnone, hiff.mp ⟨_, hshown⟩, hshown, haligned _ hshown⟩

/-- Nothing comes of an excerpt whose gutter is too wide. -/
theorem gutter_unwritten_wideExcerpt :
    491 + 1 < wordBound ∧ ¬HasReference wideExcerpt ∧
    IsGutter wideExcerpt ⟨List.replicate maxWidth ' ', "900".toList, " | x".toList⟩ ∧
    ¬∃ t, correctLineNumbers ⟨491, 1⟩ wideExcerpt = .ok t := by
  have hfits : 491 + 1 < wordBound := by decide
  have hwide : Overwide ⟨491, 1⟩ wideExcerpt := overwide_wideExcerpt (by decide)
  refine ⟨hfits, hwide.2.1, isGutter_indented (by decide), fun h => ?_⟩
  exact (exists_correctLineNumbers_iff (LineOffset.correct_eq_origin hfits)).mp h hwide

end Playground
