import Playground.Proofs.Diagnostics.Renumber

/-!
# Cutting a message at its numbers

A message is cut up at the numbers of its references.

    text  number  text  number  ..  text

`IsNumber` says by position which digits are a number: all that stand right behind a mark
`<source>:`.  A cut is one of the message if its numbers are these and no others (`Cuts`).
Every message has one (`cuts_cut`), and only one (`Cuts.unique`).  With other digits in its
references, the message is cut at the same places (`cut_renumber`).
-/

namespace Playground

open Text

/-! ## Numbers by position -/

/-- The digits `d` are the number of a reference, with `a` before them and `b` behind. -/
structure IsNumber (a d b : List Char) : Prop where
  /-- A mark stands right before them. -/
  mark : sourceMark <:+ a
  /-- There is a digit. -/
  ne_nil : d ≠ []
  /-- There are digits only. -/
  isDigit_of_mem : ∀ c ∈ d, isDigit c = true
  /-- They go on as far as there are digits. -/
  stops : ∀ c, b.head? = some c → isDigit c = false

/-- A digit stands right behind a mark. -/
def HasReference (s : List Char) : Prop :=
  ∃ p c r, s = p ++ (sourceMark ++ c :: r) ∧ isDigit c = true

theorem isNumber_iff {a d b : List Char} :
    IsNumber a d b ↔
      sourceMark <:+ a ∧ referenceAt? (sourceMark ++ (d ++ b)) = some (d, b) := by
  constructor
  · intro h
    exact ⟨h.mark, referenceAt?_append h.ne_nil h.isDigit_of_mem h.stops⟩
  · rintro ⟨hmark, hat⟩
    obtain ⟨-, hne, hds, hstops⟩ := eq_of_referenceAt? hat
    exact ⟨hmark, hne, hds, hstops⟩

theorem IsNumber.append_left {a d b : List Char} (h : IsNumber a d b) (p : List Char) :
    IsNumber (p ++ a) d b :=
  ⟨h.mark.trans (List.suffix_append p a), h.ne_nil, h.isDigit_of_mem, h.stops⟩

theorem isNumber_of_referenceAt? {s d b : List Char} (h : referenceAt? s = some (d, b)) :
    IsNumber sourceMark d b := by
  obtain ⟨hs, -⟩ := eq_of_referenceAt? h
  exact isNumber_iff.mpr ⟨List.suffix_refl _, hs ▸ h⟩

/-- No reference starts inside of another one. -/
theorem reference_cases {s ds r p t d b : List Char} (h : referenceAt? s = some (ds, r))
    (hs : s = p ++ t) (ht : referenceAt? t = some (d, b)) :
    p = [] ∨ ∃ q, p = sourceMark ++ (ds ++ q) ∧ r = q ++ t := by
  obtain ⟨heq, -, hds, -⟩ := eq_of_referenceAt? h
  obtain ⟨hteq, -⟩ := eq_of_referenceAt? ht
  rw [heq, ← List.append_assoc] at hs
  rcases List.append_eq_append_iff.mp hs with ⟨q, hp, hr⟩ | ⟨x, hx, htx⟩
  · exact Or.inr ⟨q, by rw [hp, List.append_assoc], hr⟩
  · cases x with
    | nil =>
      rw [List.append_nil] at hx
      exact Or.inr ⟨[], by rw [List.append_nil, hx], htx.symm⟩
    | cons e x =>
      -- The bracket of the second mark would be among the other characters of the first one.
      have he : e = '<' := by
        rw [hteq] at htx
        exact (List.cons.inj htx).1.symm
      cases p with
      | nil => exact Or.inl rfl
      | cons c p =>
        have hx' : ['s', 'o', 'u', 'r', 'c', 'e', '>', ':'] ++ ds = p ++ e :: x :=
          (List.cons.inj hx).2
        have hmem : '<' ∈ ['s', 'o', 'u', 'r', 'c', 'e', '>', ':'] ++ ds := by
          rw [hx', he]
          simp
        rcases List.mem_append.mp hmem with hin | hin
        · exact absurd hin (by decide)
        · cases hds _ hin

/-! ## Cuts -/

/-- A message that is cut up at numbers. -/
inductive Cut where
  /-- The text behind the last number. -/
  | last (p : List Char)
  /-- A text, the number behind it, and what follows. -/
  | number (p d : List Char) (rest : Cut)

namespace Cut

/-- The message. -/
def text : Cut → List Char
  | last p => p
  | number p d rest => p ++ (d ++ rest.text)

/-- The numbers, in order. -/
def numbers : Cut → List (List Char)
  | last _ => []
  | number _ d rest => d :: rest.numbers

/-- The cut has the number `d` with `a` before it and `b` behind. -/
inductive Holds : Cut → List Char → List Char → List Char → Prop where
  /-- It is the first one. -/
  | here (p d : List Char) (rest : Cut) : Holds (number p d rest) p d rest.text
  /-- It is a later one. -/
  | there {rest : Cut} {a e b : List Char} (p d : List Char) (h : Holds rest a e b) :
      Holds (number p d rest) (p ++ (d ++ a)) e b

/-- The cut with other numbers. -/
def map (f : List Char → List Char) : Cut → Cut
  | last p => last p
  | number p d rest => number p (f d) (rest.map f)

/-- The cut with more text in front. -/
def prepend (q : List Char) : Cut → Cut
  | last p => last (q ++ p)
  | number p d rest => number (q ++ p) d rest

/-- The cut of a message in pieces. -/
def ofPieces : List Piece → Cut
  | [] => last []
  | .char c :: ps => (ofPieces ps).prepend [c]
  | .number ds :: ps => number [] ds (ofPieces ps)

theorem holds_number_iff {p d a e b : List Char} {rest : Cut} :
    (number p d rest).Holds a e b ↔
      (a = p ∧ e = d ∧ b = rest.text) ∨ ∃ q, a = p ++ (d ++ q) ∧ rest.Holds q e b := by
  constructor
  · intro h
    cases h with
    | here => exact Or.inl ⟨rfl, rfl, rfl⟩
    | there _ _ h => exact Or.inr ⟨_, rfl, h⟩
  · rintro (⟨rfl, rfl, rfl⟩ | ⟨q, rfl, h⟩)
    · exact .here a e rest
    · exact .there p d h

theorem holds_there_iff {p d q e b : List Char} {rest : Cut} (hd : d ≠ []) :
    (number p d rest).Holds (p ++ (d ++ q)) e b ↔ rest.Holds q e b := by
  rw [holds_number_iff]
  constructor
  · rintro (⟨hp, -, -⟩ | ⟨x, hx, h⟩)
    · have hnil := List.append_eq_nil_iff.mp (List.append_right_eq_self.mp hp)
      exact absurd hnil.1 hd
    · rwa [List.append_cancel_left (List.append_cancel_left hx)]
  · intro h
    exact Or.inr ⟨q, rfl, h⟩

theorem mem_numbers_iff {c : Cut} {d : List Char} : d ∈ c.numbers ↔ ∃ a b, c.Holds a d b := by
  induction c with
  | last p =>
    refine iff_of_false (List.not_mem_nil) ?_
    rintro ⟨a, b, h⟩
    cases h
  | number p e rest ih =>
    simp only [numbers, List.mem_cons, ih, holds_number_iff]
    constructor
    · rintro (rfl | ⟨a, b, h⟩)
      · exact ⟨p, rest.text, Or.inl ⟨rfl, rfl, rfl⟩⟩
      · exact ⟨p ++ (e ++ a), b, Or.inr ⟨a, rfl, h⟩⟩
    · rintro ⟨a, b, ⟨-, rfl, -⟩ | ⟨q, -, h⟩⟩
      · exact Or.inl rfl
      · exact Or.inr ⟨q, b, h⟩

theorem prepend_prepend (p q : List Char) (c : Cut) :
    (c.prepend q).prepend p = c.prepend (p ++ q) := by
  cases c <;> simp [prepend]

theorem text_prepend (q : List Char) (c : Cut) : (c.prepend q).text = q ++ c.text := by
  cases c <;> simp [prepend, text]

theorem numbers_prepend (q : List Char) (c : Cut) : (c.prepend q).numbers = c.numbers := by
  cases c <;> rfl

theorem map_prepend (f : List Char → List Char) (q : List Char) (c : Cut) :
    (c.prepend q).map f = (c.map f).prepend q := by
  cases c <;> rfl

theorem holds_prepend_iff {q a d b : List Char} {c : Cut} :
    (c.prepend q).Holds a d b ↔ ∃ x, a = q ++ x ∧ c.Holds x d b := by
  cases c with
  | last p =>
    refine iff_of_false (fun h => by cases h) ?_
    rintro ⟨x, -, h⟩
    cases h
  | number p e rest =>
    rw [prepend, holds_number_iff]
    simp only [holds_number_iff]
    constructor
    · rintro (⟨rfl, rfl, rfl⟩ | ⟨y, rfl, h⟩)
      · exact ⟨p, rfl, Or.inl ⟨rfl, rfl, rfl⟩⟩
      · exact ⟨p ++ (e ++ y), by simp, Or.inr ⟨y, rfl, h⟩⟩
    · rintro ⟨x, rfl, ⟨rfl, rfl, rfl⟩ | ⟨y, rfl, h⟩⟩
      · exact Or.inl ⟨rfl, rfl, rfl⟩
      · exact Or.inr ⟨y, by simp, h⟩

theorem ofPieces_char_append (q : List Char) (ps : List Piece) :
    ofPieces (q.map .char ++ ps) = (ofPieces ps).prepend q := by
  induction q with
  | nil => cases h : ofPieces ps <;> simp [h, prepend]
  | cons c q ih =>
    rw [List.map_cons, List.cons_append, ofPieces, ih, prepend_prepend]
    rfl

theorem mem_numbers_ofPieces {d : List Char} {ps : List Piece} :
    d ∈ (ofPieces ps).numbers ↔ .number d ∈ ps := by
  induction ps with
  | nil => simp [ofPieces, numbers]
  | cons p ps ih =>
    cases p with
    | char c => simp [ofPieces, numbers_prepend, ih]
    | number ds => simp [ofPieces, numbers, ih]

end Cut

/-! ## The cut of a message -/

/-- The cut is the message cut up at the numbers of its references. -/
structure Cuts (s : List Char) (c : Cut) : Prop where
  /-- It is the message. -/
  text_eq : c.text = s
  /-- Its numbers are those of the references, each in its place. -/
  holds_iff : ∀ a d b, c.Holds a d b ↔ s = a ++ (d ++ b) ∧ IsNumber a d b

/-- The message cut up at the numbers of its references. -/
def cut (s : List Char) : Cut := .ofPieces (pieces s)

theorem cut_nil : cut [] = .last [] := by
  rw [cut, pieces_nil, Cut.ofPieces]

theorem cut_of_none {c : Char} {s : List Char} (h : referenceAt? (c :: s) = none) :
    cut (c :: s) = (cut s).prepend [c] := by
  rw [cut, pieces_of_none h, Cut.ofPieces, cut]

theorem cut_of_some {s ds r : List Char} (h : referenceAt? s = some (ds, r)) :
    cut s = .number sourceMark ds (cut r) := by
  rw [cut, pieces_of_some h, Cut.ofPieces_char_append, Cut.ofPieces, Cut.prepend, cut,
    List.append_nil]

theorem cuts_cut_of_none {c : Char} {s : List Char} (h : referenceAt? (c :: s) = none)
    (hs : Cuts s (cut s)) : Cuts (c :: s) (cut (c :: s)) := by
  rw [cut_of_none h]
  refine ⟨by rw [Cut.text_prepend, hs.text_eq]; rfl, fun a d b => ?_⟩
  rw [Cut.holds_prepend_iff]
  constructor
  · rintro ⟨x, rfl, hx⟩
    obtain ⟨heq, hnum⟩ := (hs.holds_iff x d b).mp hx
    exact ⟨by rw [heq]; rfl, hnum.append_left [c]⟩
  · rintro ⟨heq, hnum⟩
    obtain ⟨⟨p, rfl⟩, hat⟩ := isNumber_iff.mp hnum
    cases p with
    | nil =>
      -- The mark would be at the start of the message.
      rw [heq, List.nil_append, hat] at h
      cases h
    | cons e p =>
      obtain ⟨rfl, hrest⟩ := List.cons.inj heq
      refine ⟨p ++ sourceMark, rfl, (hs.holds_iff _ d b).mpr ⟨hrest, ?_⟩⟩
      exact isNumber_iff.mpr ⟨List.suffix_append p sourceMark, hat⟩

theorem cuts_cut_of_some {s ds r : List Char} (h : referenceAt? s = some (ds, r))
    (hr : Cuts r (cut r)) : Cuts s (cut s) := by
  obtain ⟨hs, -⟩ := eq_of_referenceAt? h
  rw [cut_of_some h]
  refine ⟨by rw [Cut.text, hr.text_eq, hs], fun a d b => ?_⟩
  rw [Cut.holds_number_iff, hr.text_eq]
  constructor
  · rintro (⟨rfl, rfl, rfl⟩ | ⟨q, rfl, hq⟩)
    · exact ⟨hs, isNumber_of_referenceAt? h⟩
    · obtain ⟨heq, hnum⟩ := (hr.holds_iff q d b).mp hq
      refine ⟨by rw [hs, heq]; simp only [List.append_assoc], ?_⟩
      rw [← List.append_assoc]
      exact hnum.append_left (sourceMark ++ ds)
  · rintro ⟨heq, hnum⟩
    obtain ⟨⟨p, rfl⟩, hat⟩ := isNumber_iff.mp hnum
    rw [List.append_assoc] at heq
    rcases reference_cases h heq hat with rfl | ⟨q, rfl, hq⟩
    · rw [List.nil_append] at heq
      rw [heq, hat] at h
      cases h
      exact Or.inl ⟨List.nil_append _, rfl, rfl⟩
    · refine Or.inr ⟨q ++ sourceMark, by simp only [List.append_assoc], ?_⟩
      refine (hr.holds_iff _ d b).mpr ⟨by rw [hq, List.append_assoc], ?_⟩
      exact isNumber_iff.mpr ⟨List.suffix_append q sourceMark, hat⟩

/-- Every message is cut up at its numbers. -/
theorem cuts_cut (s : List Char) : Cuts s (cut s) := by
  induction s using pieces.induct with
  | case1 =>
    rw [cut_nil]
    refine ⟨rfl, fun a d b => iff_of_false (fun h => by cases h) ?_⟩
    rintro ⟨heq, hnum⟩
    exact hnum.ne_nil (List.append_eq_nil_iff.mp (List.append_eq_nil_iff.mp heq.symm).2).1
  | case2 c s h ih => exact cuts_cut_of_none h ih
  | case3 c s ds r h ih => exact cuts_cut_of_some h ih

/-! ## Only one cut -/

/-- Two cuts of one text with the same numbers in the same places are the same. -/
theorem Cut.eq_of_holds_iff {c e : Cut} (htext : c.text = e.text)
    (h : ∀ a d b, c.Holds a d b ↔ e.Holds a d b) (hne : ∀ a d b, c.Holds a d b → d ≠ []) :
    c = e := by
  induction c generalizing e with
  | last p =>
    cases e with
    | last q => exact congrArg last htext
    | number q d rest => cases (h q d rest.text).mpr (.here q d rest)
  | number p d rest ih =>
    cases e with
    | last q => cases (h p d rest.text).mp (.here p d rest)
    | number q d' rest' =>
      have hd : d ≠ [] := hne p d rest.text (.here p d rest)
      have hd' : d' ≠ [] := hne q d' rest'.text ((h _ _ _).mpr (.here q d' rest'))
      have hfirst := holds_number_iff.mp ((h _ _ _).mp (.here p d rest))
      have hfirst' := holds_number_iff.mp ((h _ _ _).mpr (.here q d' rest'))
      -- Neither first number stands behind the other one.
      obtain ⟨rfl, rfl, -⟩ : p = q ∧ d = d' ∧ rest.text = rest'.text := by
        rcases hfirst with hsame | ⟨x, hx, -⟩
        · exact hsame
        · rcases hfirst' with ⟨hq, hd, ht⟩ | ⟨y, hy, -⟩
          · exact ⟨hq.symm, hd.symm, ht.symm⟩
          · have hlen := List.length_pos_iff.mpr hd
            have hlens := congrArg List.length (hy ▸ hx)
            simp only [List.length_append] at hlens
            omega
      have hrest : ∀ a e b, rest.Holds a e b ↔ rest'.Holds a e b := by
        intro a e b
        rw [← holds_there_iff hd, h, holds_there_iff hd]
      have htext' := List.append_cancel_left (List.append_cancel_left htext)
      rw [ih htext' hrest fun a e b hr => hne _ e b (.there p d hr)]

/-- A message is cut up at its numbers in one way only. -/
theorem Cuts.unique {s : List Char} {c e : Cut} (hc : Cuts s c) (he : Cuts s e) : c = e := by
  refine Cut.eq_of_holds_iff (hc.text_eq.trans he.text_eq.symm) (fun a d b => ?_) ?_
  · rw [hc.holds_iff, he.holds_iff]
  · intro a d b h
    exact ((hc.holds_iff a d b).mp h).2.ne_nil

/-! ## References -/

theorem mem_numbers_cut_iff {s d : List Char} :
    d ∈ (cut s).numbers ↔ ∃ a b, s = a ++ (d ++ b) ∧ IsNumber a d b := by
  rw [Cut.mem_numbers_iff]
  simp only [(cuts_cut s).holds_iff]

/-- The numbers among the pieces of a message are those of its references. -/
theorem number_mem_pieces_iff {s d : List Char} :
    .number d ∈ pieces s ↔ ∃ a b, s = a ++ (d ++ b) ∧ IsNumber a d b := by
  rw [← mem_numbers_cut_iff, cut, Cut.mem_numbers_ofPieces]

theorem hasReference_iff {s : List Char} :
    HasReference s ↔ ∃ a d b, s = a ++ (d ++ b) ∧ IsNumber a d b := by
  constructor
  · rintro ⟨p, c, r, rfl, hc⟩
    have hcut := List.takeWhile_append_dropWhile (p := isDigit) (l := c :: r)
    refine ⟨p ++ sourceMark, (c :: r).takeWhile isDigit, (c :: r).dropWhile isDigit, ?_,
      List.suffix_append p sourceMark, ?_, fun e he => List.mem_takeWhile_imp he,
      fun e he => eq_false_of_head?_dropWhile he⟩
    · rw [hcut, List.append_assoc]
    · rw [List.takeWhile_cons_of_pos hc]
      exact List.cons_ne_nil _ _
  · rintro ⟨a, d, b, rfl, ⟨p, rfl⟩, hne, hds, -⟩
    obtain ⟨c, d, rfl⟩ := List.exists_cons_of_ne_nil hne
    exact ⟨p, c, d ++ b, by simp only [List.append_assoc, List.cons_append],
      hds c (List.mem_cons_self ..)⟩

theorem any_isNumber_iff {s : List Char} :
    (pieces s).any Piece.isNumber = true ↔ HasReference s := by
  rw [hasReference_iff, List.any_eq_true]
  constructor
  · rintro ⟨p, hp, hnum⟩
    cases p with
    | char c => cases hnum
    | number d =>
      obtain ⟨a, b, h⟩ := number_mem_pieces_iff.mp hp
      exact ⟨a, d, b, h⟩
  · rintro ⟨a, d, b, h⟩
    exact ⟨.number d, number_mem_pieces_iff.mpr ⟨a, b, h⟩, rfl⟩

theorem any_isNumber_eq_false_iff {s : List Char} :
    (pieces s).any Piece.isNumber = false ↔ ¬HasReference s := by
  rw [← any_isNumber_iff, Bool.not_eq_true]

/-! ## Other digits -/

theorem renumber_eq_text (f : List Char → List Char) (s : List Char) :
    renumber f s = ((cut s).map f).text := by
  induction s using pieces.induct with
  | case1 => rw [renumber_nil, cut_nil]; rfl
  | case2 c s h ih =>
    rw [renumber_of_none h, cut_of_none h, Cut.map_prepend, Cut.text_prepend, ih]
    rfl
  | case3 c s ds r h ih => rw [renumber_of_some h, cut_of_some h, Cut.map, Cut.text, ih]

/-- With other digits, a message is cut up at the same places. -/
theorem cut_renumber {f : List Char → List Char} (hf : KeepsDigits f) (s : List Char) :
    cut (renumber f s) = (cut s).map f := by
  induction s using pieces.induct with
  | case1 => rw [renumber_nil, cut_nil]; rfl
  | case2 c s h ih =>
    have hnew : referenceAt? (c :: renumber f s) = none := by
      rw [← renumber_of_none h, referenceAt?_renumber hf, h, Option.map_none]
    rw [renumber_of_none h, cut_of_none hnew, cut_of_none h, ih, Cut.map_prepend]
  | case3 c s ds r h ih =>
    have hnew : referenceAt? (renumber f (c :: s)) = some (f ds, renumber f r) := by
      rw [referenceAt?_renumber hf, h, Option.map_some]
    rw [cut_of_some hnew, cut_of_some h, ih, Cut.map]

end Playground
