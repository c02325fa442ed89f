import Mathlib.Algebra.Ring.Nat
import Mathlib.Tactic.Ring
import Playground.Proofs.Share.Carrying
import Playground.Proofs.Share.Expansion

/-!
# How much a fragment expands to

A fragment of `n` letters, whoever has written it, expands to `(n + 1) * (2 * n + 1)` units at
most, and its dictionary has no more than that many either (`expansion_bounded`).  Two things
bound the reader of its bits:

* Each code takes three bits or more, so that there are at most two codes to a letter
  (`Reached.length_le`).
* A phrase is at most one unit longer than the longest one before it, also if it is the one
  that is just being made (`Bounded.phrase?`).  So behind `k` codes there are at most
  `1 + 2 + ... + k` units.

`Reached` lists the readers that there are while some bits are expanded.  From each of them the
expansion goes on with the next one or ends (`Reached.goesOn`), so what it gives is what one of them
has read.
-/

namespace Playground.Share

open Text

/-! ## Bits of letters -/

/-- Exactly the texts of letters can be read. -/
theorem isSome_unpack?_iff {letters : List Char} :
    (unpack? letters).isSome ↔ ∀ c ∈ letters, IsLetter c := by
  have hvalues : (letters.mapM letterValue?).isSome ↔ ∀ c ∈ letters, IsLetter c := by
    induction letters with
    | nil => exact iff_of_true rfl (List.forall_mem_nil _)
    | cons c cs ih =>
      rw [List.forall_mem_cons, ← ih, ← isSome_letterValue?_iff, List.mapM_cons]
      cases letterValue? c <;> cases cs.mapM letterValue? <;> simp
  rw [← hvalues, unpack?]
  cases letters.mapM letterValue? <;> exact Iff.rfl

theorem length_flatMap_sixBits (values : List Nat) :
    (values.flatMap sixBits).length = 6 * values.length := by
  induction values with
  | nil => rfl
  | cons v vs ih =>
    have hv : (sixBits v).length = 6 := rfl
    rw [List.flatMap_cons, List.length_append, hv, ih, List.length_cons]
    omega

/-- Letters have six bits each, of which the very last one is not read. -/
theorem length_of_unpack? {letters : List Char} {bits : List Bool}
    (h : unpack? letters = some bits) : bits.length = 6 * letters.length - 1 := by
  obtain ⟨values, hvalues, hbits⟩ := Option.bind_eq_some_iff.mp h
  rw [← Option.some.inj hbits, List.length_dropLast, length_flatMap_sixBits,
    (mapM_letterValue?_eq_some_iff.mp hvalues).length_eq]

/-- A letter has one octet. -/
theorem size_of_unpack? {letters : List Char} {bits : List Bool}
    (h : unpack? letters = some bits) : Utf8.size letters = letters.length := by
  refine Utf8.size_of_ascii fun c hc => ?_
  have hletter := isSome_unpack?_iff.mp (h ▸ rfl) c hc
  obtain ⟨v, hv⟩ := Option.isSome_iff_exists.mp (isSome_letterValue?_iff.mpr hletter)
  exact (letterValue?_ascii hv).1

/-! ## Readers -/

/-- A reader reads one code, and the unit behind it if it is a mark, and goes on with another
reader and the rest of the bits. -/
inductive Reads (e : Expander) (bits : List Bool) : Expander → List Bool → Prop where
  | spelled {mark size u : Nat} {behind rest : List Bool}
      (marks : mark = narrowMark ∧ size = 8 ∨ mark = wideMark ∧ size = 16)
      (code : readCode? e.width.bits bits = some (mark, behind))
      (unit : readCode? size behind = some (u, rest)) : Reads e bits (e.spell (.ofNat u)) rest
  | phrase {n : Nat} {p : Phrase} {rest : List Bool}
      (code : readCode? e.width.bits bits = some (n, rest)) (named : e.phrase? n = some p) :
      Reads e bits (e.push p) rest

/-- The expansion of some bits comes to a reader behind as many codes, with a rest of the bits
before it. -/
inductive Reached (bits : List Bool) : Nat → Expander → List Bool → Prop where
  | first {mark size u : Nat} {behind rest : List Bool}
      (marks : mark = narrowMark ∧ size = 8 ∨ mark = wideMark ∧ size = 16)
      (code : readCode? Width.start.bits bits = some (mark, behind))
      (unit : readCode? size behind = some (u, rest)) : Reached bits 1 (.start (.ofNat u)) rest
  | next {k : Nat} {e e' : Expander} {rest rest' : List Bool} (before : Reached bits k e rest)
      (reads : Reads e rest e' rest') : Reached bits (k + 1) e' rest'

/-- What an expansion with a result does next: it goes on with a reader behind `k` codes, or it
ends with a failure or with some phrases. -/
def GoesOn (bits : List Bool) (k : Nat) (result : Option (List Phrase)) (phrases : List Phrase) :
    Prop :=
  (∃ e rest, Reached bits k e rest ∧ result = e.run rest) ∨ result = none ∨
    result = some phrases

/-- There is a reader behind the first unit, or the expansion fails or is empty. -/
theorem goesOn_expand? (bits : List Bool) : GoesOn bits 1 (expand? bits) [] := by
  rw [expand?]
  cases hcode : readCode? Width.start.bits bits with
  | none => exact .inr (.inl rfl)
  | some r =>
    obtain ⟨mark, behind⟩ := r
    simp only [Option.bind_eq_bind, Option.bind_some]
    split
    · exact .inr (.inr rfl)
    split
    · next hmark =>
      rw [hmark] at hcode
      cases hunit : readCode? 8 behind with
      | none => exact .inr (.inl rfl)
      | some r => exact .inl ⟨_, r.2, .first (.inl ⟨rfl, rfl⟩) hcode hunit, rfl⟩
    split
    · next hmark =>
      rw [hmark] at hcode
      cases hunit : readCode? 16 behind with
      | none => exact .inr (.inl rfl)
      | some r => exact .inl ⟨_, r.2, .first (.inr ⟨rfl, rfl⟩) hcode hunit, rfl⟩
    · exact .inr (.inl rfl)

/-- A reader reads a code and goes on, or the expansion fails, or it ends with what has been
read. -/
theorem run_cases (e : Expander) (bits : List Bool) :
    (∃ e' rest, Reads e bits e' rest ∧ e.run bits = e'.run rest) ∨ e.run bits = none ∨
      e.run bits = some e.phrases.reverse := by
  rw [Expander.run]
  split
  · exact .inr (.inl rfl)
  · next code behind hcode =>
    split
    · exact .inr (.inr rfl)
    split
    · next hmark =>
      rw [hmark] at hcode
      split
      · exact .inr (.inl rfl)
      · next u rest hunit => exact .inl ⟨_, rest, .spelled (.inl ⟨rfl, rfl⟩) hcode hunit, rfl⟩
    split
    · next hmark =>
      rw [hmark] at hcode
      split
      · exact .inr (.inl rfl)
      · next u rest hunit => exact .inl ⟨_, rest, .spelled (.inr ⟨rfl, rfl⟩) hcode hunit, rfl⟩
    split
    · exact .inr (.inl rfl)
    · next p hp => exact .inl ⟨_, behind, .phrase hcode hp, rfl⟩

theorem Reached.goesOn {bits rest : List Bool} {k : Nat} {e : Expander}
    (h : Reached bits k e rest) : GoesOn bits (k + 1) (e.run rest) e.phrases.reverse := by
  rcases run_cases e rest with ⟨e', rest', hreads, heq⟩ | hend
  · exact .inl ⟨e', rest', h.next hreads, heq⟩
  · exact .inr hend

/-! ## Phrases -/

/-- A phrase has at most `n` units. -/
structure Within (n : Nat) (p : Phrase) : Prop extends p.Sound where
  size_le : p.size ≤ n

namespace Within

variable {n m : Nat} {p : Phrase}

theorem length_le (h : Within n p) : p.units.length ≤ n := h.size_eq ▸ h.size_le

theorem mono (h : Within n p) (hle : n ≤ m) : Within m p :=
  ⟨h.toSound, Nat.le_trans h.size_le hle⟩

theorem single (n : Nat) (u : UInt16) : Within (n + 1) (.single u) :=
  ⟨.single u, Nat.le_add_left 1 n⟩

theorem snoc (h : Within n p) (u : UInt16) : Within (n + 1) (p.snoc u) :=
  ⟨h.toSound.snoc u, Nat.succ_le_succ h.size_le⟩

/-- One more phrase leaves the others as they are. -/
theorem forall_concat {ps : List Phrase} (h : ∀ q ∈ ps, Within n q) (hp : Within (n + 1) p) :
    ∀ q ∈ ps ++ [p], Within (n + 1) q := by
  intro q hq
  rcases List.mem_append.mp hq with hq | hq
  · exact (h q hq).mono n.le_succ
  · rw [List.mem_singleton.mp hq]
    exact hp

end Within

/-! ## What a reader holds -/

/-- Behind `n` codes the reader has no phrase of more than `n` units, and no more of them than
that gives. -/
structure Bounded (n : Nat) (e : Expander) : Prop where
  /-- The next code has three bits. -/
  three_le : 3 ≤ e.width.bits
  entries : ∀ p ∈ e.dictionary.toList, Within n p
  last : Within n e.last
  phrases : ∀ p ∈ e.phrases.reverse, Within n p
  /-- The phrases that have been read have `1 + 2 + ... + n` units. -/
  read_le : 2 * (phrasesUnits e.phrases.reverse).length ≤ n * (n + 1)
  /-- Each code has made an entry, and those that spell out a unit one more. -/
  entries_le : 2 * (phrasesUnits e.dictionary.toList).length ≤ n * (n + 3)

theorem length_phrasesUnits_concat (ps : List Phrase) (p : Phrase) :
    (phrasesUnits (ps ++ [p])).length = (phrasesUnits ps).length + p.units.length := by
  rw [phrasesUnits_concat, List.length_append, List.length_reverse]

namespace Bounded

variable {n : Nat} {e : Expander}

theorem start (u : UInt16) : Bounded 1 (.start u) where
  three_le := Nat.le_refl 3
  entries p hp := by
    rw [List.mem_singleton.mp hp]
    exact .single 0 u
  last := .single 0 u
  phrases p hp := by
    rw [List.mem_singleton.mp hp]
    exact .single 0 u
  read_le := Nat.le_refl 2
  entries_le := by
    show 2 * 1 ≤ 4
    omega

/-- A code names a phrase of at most one unit more than those before it. -/
theorem phrase? (h : Bounded n e) {code : Nat} {p : Phrase} (hp : e.phrase? code = some p) :
    Within (n + 1) p := by
  unfold Expander.phrase? at hp
  split at hp
  · cases hp
  split at hp
  · cases hp
    exact h.last.snoc _
  · have hmem := Array.mem_toList_iff.mpr (Array.mem_of_getElem? hp)
    exact (h.entries p hmem).mono n.le_succ

/-- Reading a phrase makes one entry. -/
theorem push (h : Bounded n e) {p : Phrase} (hp : Within (n + 1) p) :
    Bounded (n + 1) (e.push p) where
  three_le := Nat.le_trans h.three_le e.width.bits_le_bits_grow
  entries := by
    rw [Expander.push, Array.toList_push]
    exact Within.forall_concat h.entries (h.last.snoc _)
  last := hp
  phrases := by
    rw [Expander.push, List.reverse_cons]
    exact Within.forall_concat h.phrases hp
  read_le := by
    have hread := h.read_le
    have hlen := hp.length_le
    have hsum : (n + 1) * (n + 1 + 1) = n * (n + 1) + 2 * (n + 1) := by ring
    rw [Expander.push, List.reverse_cons, length_phrasesUnits_concat]
    omega
  entries_le := by
    have hentries := h.entries_le
    have hlen := (h.last.snoc p.first).length_le
    have hsum : (n + 1) * (n + 1 + 3) = n * (n + 3) + 2 * (n + 1) + 2 := by ring
    rw [Expander.push, Array.toList_push, length_phrasesUnits_concat]
    omega

/-- Reading a unit that is spelled out makes two entries, one of them of the unit alone. -/
theorem spell (h : Bounded n e) (u : UInt16) : Bounded (n + 1) (e.spell u) where
  three_le := Nat.le_trans h.three_le
    (Nat.le_trans e.width.bits_le_bits_grow e.width.grow.bits_le_bits_grow)
  entries := by
    rw [Expander.spell, Expander.push, Array.toList_push, Array.toList_push]
    intro p hp
    rcases List.mem_append.mp hp with hp | hp
    · exact Within.forall_concat h.entries (.single n u) p hp
    · rw [List.mem_singleton.mp hp]
      exact h.last.snoc u
  last := .single n u
  phrases := (h.push (.single n u)).phrases
  read_le := (h.push (.single n u)).read_le
  entries_le := by
    have hentries := h.entries_le
    have hsingle : (Phrase.single u).units.length = 1 := rfl
    have hlen := (h.last.snoc (Phrase.single u).first).length_le
    have hsum : (n + 1) * (n + 1 + 3) = n * (n + 3) + 2 * (n + 1) + 2 := by ring
    rw [Expander.spell, Expander.push, Array.toList_push, Array.toList_push,
      length_phrasesUnits_concat, length_phrasesUnits_concat, hsingle]
    dsimp only
    omega

theorem reads (h : Bounded n e) {e' : Expander} {bits rest : List Bool}
    (hreads : Reads e bits e' rest) : Bounded (n + 1) e' := by
  cases hreads with
  | spelled marks code unit => exact h.spell _
  | phrase code named => exact h.push (h.phrase? named)

end Bounded

namespace Reached

variable {k : Nat} {e : Expander} {bits rest : List Bool}

theorem bounded (h : Reached bits k e rest) : Bounded k e := by
  induction h with
  | first marks code unit => exact .start _
  | next before reads ih => exact ih.reads reads

/-- Each code has taken three bits. -/
theorem length_le (h : Reached bits k e rest) : 3 * k + rest.length ≤ bits.length := by
  induction h with
  | first marks code unit =>
    have := length_of_readCode? code
    have := length_of_readCode? unit
    have : Width.start.bits = 2 := rfl
    omega
  | next before reads ih =>
    have hthree := before.bounded.three_le
    cases reads with
    | spelled marks code unit =>
      have := length_of_readCode? code
      have := length_of_readCode? unit
      omega
    | phrase code named =>
      have := length_of_readCode? code
      omega

end Reached

/-- What a reader ends with has been read by a reader that is reached from it. -/
theorem Reached.exists_of_run_eq {bits rest : List Bool} {k : Nat} {e : Expander}
    {ps : List Phrase} (h : Reached bits k e rest) (hrun : e.run rest = some ps) :
    ∃ k' e' rest', Reached bits k' e' rest' ∧ ps = e'.phrases.reverse := by
  -- There are fewer codes left behind each one, since each takes bits.
  induction hleft : bits.length - 3 * k using Nat.strongRecOn generalizing k e rest with
  | ind left ih =>
    rcases h.goesOn with ⟨e', rest', hreached, heq⟩ | hnone | hsome
    · have hlength := hreached.length_le
      exact ih (bits.length - 3 * (k + 1)) (by omega) hreached (heq ▸ hrun) rfl
    · rw [hnone] at hrun
      cases hrun
    · rw [hsome] at hrun
      exact ⟨k, e, rest, h, (Option.some.inj hrun).symm⟩

/-- An expanded text is empty, or has been read by a reader that is reached. -/
theorem exists_reached_of_expand? {bits : List Bool} {ps : List Phrase}
    (h : expand? bits = some ps) :
    ps = [] ∨ ∃ k e rest, Reached bits k e rest ∧ ps = e.phrases.reverse := by
  rcases goesOn_expand? bits with ⟨e, rest, hreached, heq⟩ | hnone | hsome
  · exact .inr (hreached.exists_of_run_eq (heq ▸ h))
  · rw [hnone] at h
    cases h
  · rw [hsome] at h
    exact .inl (Option.some.inj h).symm

/-! ## Fragments -/

/-- The readers of `n` letters are behind `2 * n` codes at most, and have no more units than that
gives. -/
theorem Reached.units_le {letters : List Char} {bits rest : List Bool} {k : Nat} {e : Expander}
    (h : Reached bits k e rest) (hbits : unpack? letters = some bits) :
    k ≤ 2 * letters.length ∧
      (phrasesUnits e.phrases.reverse).length ≤ (letters.length + 1) * (2 * letters.length + 1) ∧
      (phrasesUnits e.dictionary.toList).length ≤
        (letters.length + 1) * (2 * letters.length + 1) := by
  have hread := h.bounded.read_le
  have hentries := h.bounded.entries_le
  have hlength := h.length_le
  rw [length_of_unpack? hbits] at hlength
  generalize letters.length = n at hlength ⊢
  have hk : k ≤ 2 * n := by omega
  have hreadMax : k * (k + 1) ≤ 2 * n * (2 * n + 1) :=
    Nat.mul_le_mul hk (Nat.succ_le_succ hk)
  have hentriesMax : k * (k + 3) ≤ 2 * n * (2 * n + 3) :=
    Nat.mul_le_mul hk (Nat.add_le_add_right hk 3)
  have hfew : 2 * n * (2 * n + 1) = 2 * (n * (2 * n + 1)) := by ring
  have hmore : 2 * n * (2 * n + 3) = 2 * (n * (2 * n + 1)) + 4 * n := by ring
  have hbound : (n + 1) * (2 * n + 1) = n * (2 * n + 1) + (2 * n + 1) := by ring
  refine ⟨hk, ?_, ?_⟩
  · omega
  · omega

/-- A link opens a reader if its expansion comes to it: the fragment is not too long, its letters
have bits, and the reader is reached behind `k` codes of these. -/
def Opens (url : String) (k : Nat) (e : Expander) : Prop :=
  ∃ letters bits rest, HasFragment url letters ∧ letters ≠ [] ∧ Utf8.size letters ≤ maxFragment ∧
    unpack? letters = some bits ∧ Reached bits k e rest

/-- The fields of a link are those of a text that one of its readers has read, or of the empty
text. -/
theorem exists_opens_of_fields? {url : String} {fields : Fields}
    (h : fields? url = some fields) :
    ∃ phrases text, (phrases = [] ∨ ∃ k e, Opens url k e ∧ phrases = e.phrases.reverse) ∧
      (phrasesUnits phrases).length ≤ maxPayload ∧
      Utf16.decode? (phrasesUnits phrases) = some text ∧ fields = fieldsOfQuery text := by
  obtain ⟨text, ⟨letters, hfragment, hne, hsize, values, phrases, hvalues, hphrases, hlimit,
    htext⟩, hfields⟩ := fields?_eq_some_iff.mp h
  have hbits : unpack? letters = some (values.flatMap sixBits).dropLast := by
    rw [unpack?, hvalues]
    rfl
  rcases exists_reached_of_expand? hphrases with rfl | ⟨k, e, rest, hreached, rfl⟩
  · exact ⟨[], text, .inl rfl, Nat.zero_le _, htext, hfields⟩
  · refine ⟨e.phrases.reverse, text, .inr ⟨k, e, ?_, rfl⟩, ?_, htext, hfields⟩
    · exact ⟨letters, _, rest, hfragment, hne, hsize, hbits, hreached⟩
    · rwa [← phrasesSize_eq fun p hp => (hreached.bounded.phrases p hp).toSound]

/-- Letters expand in at most two codes a letter, to failure or to a bounded number of units,
whatever they are.  So whatever a link is, no reader that its fragment opens has more units than
the longest fragment allows, in what it has read or in its dictionary, and the fields of a link
are those of a text within the limit. -/
theorem expansion_bounded :
    (∀ letters : List Char, (∀ c ∈ letters, IsLetter c) → ∃ bits, unpack? letters = some bits ∧
      GoesOn bits 1 (expand? bits) [] ∧
      (∀ k e rest, Reached bits k e rest →
        GoesOn bits (k + 1) (e.run rest) e.phrases.reverse ∧ k ≤ 2 * letters.length ∧
        (phrasesUnits e.phrases.reverse).length ≤
          (letters.length + 1) * (2 * letters.length + 1) ∧
        (phrasesUnits e.dictionary.toList).length ≤
          (letters.length + 1) * (2 * letters.length + 1)) ∧
      (expand? bits = none ∨ ∃ phrases, expand? bits = some phrases ∧
        (phrasesUnits phrases).length ≤ (letters.length + 1) * (2 * letters.length + 1))) ∧
    (∀ url k e, Opens url k e →
      (phrasesUnits e.phrases.reverse).length ≤ 16385 * 32769 ∧
      (phrasesUnits e.dictionary.toList).length ≤ 16385 * 32769) ∧
    ∀ url fields, fields? url = some fields →
      ∃ phrases text, (phrases = [] ∨ ∃ k e, Opens url k e ∧ phrases = e.phrases.reverse) ∧
        (phrasesUnits phrases).length ≤ maxPayload ∧
        Utf16.decode? (phrasesUnits phrases) = some text ∧ fields = fieldsOfQuery text := by
  refine ⟨?_, ?_, fun url fields h => exists_opens_of_fields? h⟩
  · intro letters hletters
    obtain ⟨bits, hbits⟩ := Option.isSome_iff_exists.mp (isSome_unpack?_iff.mpr hletters)
    refine ⟨bits, hbits, goesOn_expand? bits, fun k e rest h => ⟨h.goesOn, h.units_le hbits⟩, ?_⟩
    cases hexpand : expand? bits with
    | none => exact .inl rfl
    | some phrases =>
      refine .inr ⟨phrases, rfl, ?_⟩
      rcases exists_reached_of_expand? hexpand with rfl | ⟨k, e, rest, hreached, rfl⟩
      · exact Nat.zero_le _
      · exact (hreached.units_le hbits).2.1
  · rintro url k e ⟨letters, bits, rest, -, -, hsize, hbits, hreached⟩
    rw [size_of_unpack? hbits, maxFragment] at hsize
    have hmax : (letters.length + 1) * (2 * letters.length + 1) ≤ 16385 * 32769 :=
      Nat.mul_le_mul (by omega) (by omega)
    obtain ⟨-, hread, hentries⟩ := hreached.units_le hbits
    exact ⟨Nat.le_trans hread hmax, Nat.le_trans hentries hmax⟩

/-- Phrases of 1, 2, ..., 24 units. -/
def growingLetters : List Char := "IY18ZXTt/DFOS1b0c1oA".toList

theorem expansion_bounded_growingLetters :
    (∀ c ∈ growingLetters, IsLetter c) ∧
    ((unpack? growingLetters).bind expand?).map (fun ps => (phrasesUnits ps).length) = some 300 ∧
    ∃ bits, unpack? growingLetters = some bits ∧ ∀ k e rest, Reached bits k e rest →
      k ≤ 40 ∧ (phrasesUnits e.phrases.reverse).length ≤ 861 := by
  have hletters : ∀ c ∈ growingLetters, IsLetter c := isSome_unpack?_iff.mp (by decide +kernel)
  obtain ⟨bits, hbits, -, hreached, -⟩ := expansion_bounded.1 growingLetters hletters
  refine ⟨hletters, by decide +kernel, bits, hbits, ?_⟩
  intro k e rest h
  obtain ⟨-, hk, hread, -⟩ := hreached k e rest h
  exact ⟨hk, hread⟩

end Playground.Share
