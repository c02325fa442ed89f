import Playground.Diagnostics.Reference
import Playground.Proofs.Text.Runs

/-!
# Gutters of excerpts

The gutter of an excerpt has its number between spaces, and then a bar.

    spaces  digits  spaces  |  space  code

`IsGutter` states this part by part.  A message starts with at most one gutter, the one that is
corrected (`gutter?_eq_some_iff`).  A number that is no longer than the old one and is set flush
right makes a gutter again, with everything behind it where it was (`IsGutter.leftpad`).  But a
gutter with more than `maxWidth` columns is not written again (`correctGutter_of_lt_width`).
-/

namespace Playground

open Text

/-- A gutter is at the start of the message. -/
structure IsGutter (s : List Char) (g : Gutter) : Prop where
  /-- Its parts make up the message. -/
  eq : s = g.indent ++ (g.number ++ g.tail)
  /-- There are spaces before the number. -/
  indent_ne_nil : g.indent ≠ []
  /-- There is nothing else before it. -/
  eq_of_mem_indent : ∀ c ∈ g.indent, c = ' '
  /-- There is a number. -/
  number_ne_nil : g.number ≠ []
  /-- The number consists of digits. -/
  isDigit_of_mem_number : ∀ c ∈ g.number, isDigit c = true
  /-- Spaces, a bar and a space follow. -/
  bar : ∃ gap r, g.tail = gap ++ '|' :: ' ' :: r ∧ gap ≠ [] ∧ ∀ c ∈ gap, c = ' '

/-! ## Reading a gutter -/

theorem takeWhile_spaces {a r : List Char} (ha : ∀ c ∈ a, c = ' ')
    (hr : ∀ c, r.head? = some c → c ≠ ' ') :
    (a ++ r).takeWhile (· = ' ') = a ∧ (a ++ r).dropWhile (· = ' ') = r :=
  takeWhile_append_of_head (fun c hc => decide_eq_true (ha c hc)) fun c hc =>
    decide_eq_false (hr c hc)

theorem startsWithBar_iff {s : List Char} :
    startsWithBar s = true ↔
      ∃ gap r, s = gap ++ '|' :: ' ' :: r ∧ gap ≠ [] ∧ ∀ c ∈ gap, c = ' ' := by
  constructor
  · intro h
    have hs := List.takeWhile_append_dropWhile (p := (· = ' ')) (l := s)
    unfold startsWithBar at h
    split at h
    · next r hr =>
      refine ⟨s.takeWhile (· = ' '), r, by rw [← hr, hs], ?_, ?_⟩
      · obtain ⟨t, rfl⟩ := List.head?_eq_some_iff.mp (of_decide_eq_true h)
        exact List.cons_ne_nil ' ' _
      · intro c hc
        exact of_decide_eq_true (List.mem_takeWhile_imp (p := (· = ' ')) hc)
    · cases h
  · rintro ⟨gap, r, rfl, hne, hgap⟩
    have hbar : ∀ c, ('|' :: ' ' :: r).head? = some c → c ≠ ' ' := by
      rintro c hc rfl
      cases hc
    obtain ⟨c, gap, rfl⟩ := List.exists_cons_of_ne_nil hne
    obtain rfl := hgap c (List.mem_cons_self ..)
    rw [startsWithBar, (takeWhile_spaces hgap hbar).2]
    rfl

/-- The gutter that is found is the one at the start of the message. -/
theorem gutter?_eq_some_iff {s : List Char} {g : Gutter} : gutter? s = some g ↔ IsGutter s g := by
  constructor
  · intro h
    unfold gutter? at h
    dsimp only at h
    split at h
    · next hparts =>
      cases h
      refine ⟨?_, hparts.1,
        fun c hc => of_decide_eq_true (List.mem_takeWhile_imp (p := (· = ' ')) hc), hparts.2.1,
        fun c hc => List.mem_takeWhile_imp hc, startsWithBar_iff.mp hparts.2.2⟩
      rw [List.takeWhile_append_dropWhile, List.takeWhile_append_dropWhile]
    · cases h
  · intro h
    obtain ⟨gap, r, htail, hne, hgap⟩ := h.bar
    have hdigit : ∀ c, (g.number ++ g.tail).head? = some c → c ≠ ' ' := by
      rintro c hc rfl
      obtain ⟨d, ds, hd⟩ := List.exists_cons_of_ne_nil h.number_ne_nil
      rw [hd] at hc
      obtain rfl := Option.some.inj hc
      cases h.isDigit_of_mem_number _ (hd ▸ List.mem_cons_self ..)
    have hspace : ∀ c, g.tail.head? = some c → isDigit c = false := by
      intro c hc
      obtain ⟨d, ds, rfl⟩ := List.exists_cons_of_ne_nil hne
      rw [htail] at hc
      rw [← Option.some.inj hc, hgap d (List.mem_cons_self ..)]
      decide
    obtain ⟨hindent, hrest⟩ := takeWhile_spaces h.eq_of_mem_indent hdigit
    obtain ⟨hnumber, htail'⟩ := takeWhile_append_of_head h.isDigit_of_mem_number hspace
    unfold gutter?
    rw [h.eq]
    dsimp only
    rw [hindent, hrest, hnumber, htail',
      if_pos ⟨h.indent_ne_nil, h.number_ne_nil, startsWithBar_iff.mpr h.bar⟩]

theorem IsGutter.unique {s : List Char} {g k : Gutter} (hg : IsGutter s g) (hk : IsGutter s k) :
    g = k := by
  have h := gutter?_eq_some_iff.mpr hg
  rw [gutter?_eq_some_iff.mpr hk] at h
  exact (Option.some.inj h).symm

/-- No angle bracket stands before the tail of a gutter. -/
theorem IsGutter.bracket_notMem {s : List Char} {g : Gutter} (h : IsGutter s g) :
    '<' ∉ g.indent ++ g.number := by
  intro hmem
  rcases List.mem_append.mp hmem with hin | hin
  · cases h.eq_of_mem_indent _ hin
  · cases h.isDigit_of_mem_number _ hin

/-! ## Writing a gutter -/

/-- Other digits in the place of the number, flush right, make a gutter again. -/
theorem IsGutter.leftpad {s : List Char} {g : Gutter} (h : IsGutter s g) {ds : List Char}
    (hne : ds ≠ []) (hds : ∀ c ∈ ds, isDigit c = true) (hle : ds.length ≤ g.number.length) :
    ∃ indent, IsGutter (ds.leftpad g.width ' ' ++ g.tail) ⟨indent, ds, g.tail⟩ ∧
      indent.length + ds.length = g.width := by
  have hpos := List.length_pos_iff.mpr h.indent_ne_nil
  refine ⟨List.replicate (g.width - ds.length) ' ', ?_, ?_⟩
  · refine ⟨by rw [List.leftpad, List.append_assoc], ?_,
      fun c hc => List.eq_of_mem_replicate hc, hne, hds, h.bar⟩
    rw [← List.length_pos_iff, List.length_replicate, Gutter.width]
    omega
  · rw [List.length_replicate, Gutter.width]
    omega

/-! ## Correcting a gutter -/

variable {o : LineOffset} {s : List Char}

theorem correctGutter_of_number {g : Gutter} {n l : Nat} (hg : IsGutter s g)
    (hn : readWord? g.number = some n) (hl : o.correct n = .ok l) :
    correctGutter o s = (flushRight g.width (wordDigits l)).map (· ++ g.tail) := by
  rw [correctGutter, gutter?_eq_some_iff.mpr hg]
  simp only [hn, hl]
  rfl

theorem correctGutter_of_width_le {g : Gutter} {n l : Nat} (hg : IsGutter s g)
    (hn : readWord? g.number = some n) (hl : o.correct n = .ok l) (hwidth : g.width ≤ maxWidth) :
    correctGutter o s = .ok ((wordDigits l).leftpad g.width ' ' ++ g.tail) := by
  rw [correctGutter_of_number hg hn hl, flushRight, if_neg (Nat.not_lt.mpr hwidth)]
  rfl

/-- A gutter that is too wide is not written again. -/
theorem correctGutter_of_lt_width {g : Gutter} {n l : Nat} (hg : IsGutter s g)
    (hn : readWord? g.number = some n) (hl : o.correct n = .ok l) (hwidth : maxWidth < g.width) :
    correctGutter o s = .error .tooWide := by
  rw [correctGutter_of_number hg hn hl, flushRight, if_pos hwidth]
  rfl

/-- Without a gutter, or with one whose digits are no line number, a message stays as it is. -/
theorem correctGutter_of_forall_ne (h : ∀ g n, IsGutter s g → readWord? g.number ≠ some n) :
    correctGutter o s = .ok s := by
  rw [correctGutter]
  cases hg : gutter? s with
  | none => rfl
  | some g =>
    dsimp only
    cases hn : readWord? g.number with
    | none => rfl
    | some n => exact absurd hn (h g n (gutter?_eq_some_iff.mp hg))

end Playground
