import Playground.Proofs.Share.Packing
import Playground.Proofs.Share.Reading
import Playground.Proofs.State.Fields
import Playground.Proofs.Text.Pieces
import Playground.Share.Link

/-!
# What a link carries

A link carries a text if the letters behind its first `#` spell it: they are not too many,
each has a value, their bits expand, and not to too much (`Carries`).  The fields of the
link are those that the pieces of the text give (`fields?_eq_some_iff`).

The text may have no piece that gives a field, and it may be empty.  It is empty exactly if
the first two bits are the end mark, which the first letter decides (`carries_nil_iff`).
-/

namespace Playground.Share

open Text

/-! ## Spelled texts -/

/-- Some letters spell a text of at most `limit` units. -/
structure Spells (limit : Nat) (letters text : List Char) : Prop where
  /-- The letters take no more octets than a fragment may. -/
  size_le : Utf8.size letters ≤ maxFragment
  /-- Every letter has a value, and the bits of the values expand to the units of the text. -/
  expands : ∃ values phrases, letters.mapM letterValue? = some values ∧
    expand? (values.flatMap sixBits).dropLast = some phrases ∧ phrasesSize phrases ≤ limit ∧
    Utf16.decode? (phrasesUnits phrases) = some text

theorem payload?_eq_some_iff {limit : Nat} {letters text : List Char} :
    payload? limit letters = some text ↔ Spells limit letters text := by
  unfold payload? unpack?
  constructor
  · intro h
    split at h
    · cases h
    · next hle =>
      simp only [Option.bind_eq_bind, Option.bind_eq_some_iff] at h
      obtain ⟨bits, ⟨values, hvalues, hbits⟩, phrases, hphrases, h⟩ := h
      cases hbits
      split at h
      · cases h
      · next hlimit =>
        exact ⟨Nat.le_of_not_lt hle, values, phrases, hvalues, hphrases, Nat.le_of_not_lt hlimit, h⟩
  · rintro ⟨hsize, values, phrases, hvalues, hphrases, hlimit, htext⟩
    simp [Nat.not_lt_of_le hsize, hvalues, hphrases, Nat.not_lt_of_le hlimit, htext]

/-- The letters behind the first `#` of a link, without the white space around them. -/
def HasFragment (url : String) (letters : List Char) : Prop :=
  ∃ page rest, url.toList = page ++ '#' :: rest ∧ '#' ∉ page ∧ trim rest = letters

/-- The link carries a text. -/
def Carries (url : String) (text : List Char) : Prop :=
  ∃ letters, HasFragment url letters ∧ letters ≠ [] ∧ Spells maxPayload letters text

/-- A link has fields exactly if it carries a text. -/
theorem fields?_eq_some_iff {url : String} {fields : Fields} :
    fields? url = some fields ↔ ∃ text, Carries url text ∧ fields = fieldsOfQuery text := by
  unfold fields? fieldsWithin?
  simp only [Option.bind_eq_bind, Option.bind_eq_some_iff, splitFirst?_eq_some_iff, Prod.exists]
  constructor
  · rintro ⟨page, rest, ⟨hurl, hpage⟩, h⟩
    split at h
    · cases h
    · next hne =>
      obtain ⟨text, htext, h⟩ := Option.bind_eq_some_iff.mp h
      cases h
      exact ⟨text, ⟨trim rest, ⟨page, rest, hurl, hpage, rfl⟩, hne,
        payload?_eq_some_iff.mp htext⟩, rfl⟩
  · rintro ⟨text, ⟨letters, ⟨page, rest, hurl, hpage, rfl⟩, hne, hspells⟩, rfl⟩
    refine ⟨page, rest, ⟨hurl, hpage⟩, ?_⟩
    rw [if_neg hne, payload?_eq_some_iff.mpr hspells]
    rfl

/-! ## Pieces -/

/-- A piece of a text is a pair of a key and a value that can be read. -/
theorem pair?_eq_some_iff {piece : List Char} {key value : String} :
    pair? piece = some (key, value) ↔ ∃ rest, piece = key.toList ++ '=' :: rest ∧
      '=' ∉ key.toList ∧ Percent.decode? rest = some value.toList := by
  unfold pair?
  simp only [Option.bind_eq_bind, Option.bind_eq_some_iff, splitFirst?_eq_some_iff, Prod.exists]
  constructor
  · rintro ⟨a, rest, ⟨rfl, ha⟩, text, htext, h⟩
    cases h
    refine ⟨rest, ?_, ?_, ?_⟩ <;> rw [String.toList_ofList]
    · exact ha
    · exact htext
  · rintro ⟨rest, rfl, hkey, hvalue⟩
    refine ⟨key.toList, rest, ⟨rfl, hkey⟩, value.toList, hvalue, ?_⟩
    rw [String.ofList_toList, String.ofList_toList]
    rfl

/-- A text has a field exactly if one of its pieces is the key with a value that can be
read. -/
theorem isSome_get?_fieldsOfQuery {text : List Char} {key : String} :
    ((fieldsOfQuery text).get? key).isSome ↔ ∃ rest, key.toList ++ '=' :: rest ∈ splitOn '&' text ∧
      '=' ∉ key.toList ∧ (Percent.decode? rest).isSome := by
  rw [Option.isSome_iff_ne_none, fieldsOfQuery, ne_eq, Fields.get?_ofList_eq_none_iff, not_not,
    List.mem_map]
  constructor
  · rintro ⟨⟨k, value⟩, hp, rfl⟩
    obtain ⟨piece, hpiece, hpair⟩ := List.mem_filterMap.mp hp
    obtain ⟨rest, rfl, hkey, hrest⟩ := pair?_eq_some_iff.mp hpair
    exact ⟨rest, hpiece, hkey, by rw [hrest]; rfl⟩
  · rintro ⟨rest, hpiece, hkey, hrest⟩
    obtain ⟨value, hvalue⟩ := Option.isSome_iff_exists.mp hrest
    refine ⟨(key, String.ofList value), List.mem_filterMap.mpr ⟨_, hpiece, ?_⟩, rfl⟩
    exact pair?_eq_some_iff.mpr ⟨rest, rfl, hkey, by rw [String.toList_ofList, hvalue]⟩

/-! ## Empty texts -/

/-- The phrases that have been read stay in front. -/
theorem exists_run_eq_append {e : Expander} {bits : List Bool} {ps : List Phrase}
    (h : e.run bits = some ps) : ∃ qs, ps = e.phrases.reverse ++ qs := by
  -- One more phrase in front of the rest is one phrase less in it.
  have hcons : ∀ (e : Expander) (p : Phrase), (∃ qs, ps = (p :: e.phrases).reverse ++ qs) →
      ∃ qs, ps = e.phrases.reverse ++ qs := by
    rintro e p ⟨qs, hqs⟩
    rw [List.reverse_cons, List.append_assoc] at hqs
    exact ⟨_, hqs⟩
  fun_induction Expander.run e bits with
  | case1 => cases h
  | case2 => cases h; exact ⟨[], (List.append_nil _).symm⟩
  | case3 => cases h
  | case4 _ _ _ _ _ _ _ _ ih => exact hcons _ _ (ih h)
  | case5 => cases h
  | case6 _ _ _ _ _ _ _ _ _ ih => exact hcons _ _ (ih h)
  | case7 => cases h
  | case8 _ _ _ _ _ _ _ _ _ _ ih => exact hcons _ _ (ih h)

/-- An expanded text is empty behind the end mark, and starts with a unit behind any other
code. -/
theorem expand?_cases {bits : List Bool} {ps : List Phrase} (h : expand? bits = some ps) :
    (ps = [] ∧ ∃ rest, bits = false :: true :: rest) ∨ ∃ u qs, ps = Phrase.single u :: qs := by
  have hstart : ∀ size rest, (readCode? size rest).bind
      (fun r => (Expander.start (UInt16.ofNat r.1)).run r.2) = some ps →
      ∃ u qs, ps = Phrase.single u :: qs := by
    intro size rest h
    obtain ⟨⟨u, rest⟩, -, hrun⟩ := Option.bind_eq_some_iff.mp h
    obtain ⟨qs, hqs⟩ := exists_run_eq_append hrun
    exact ⟨_, qs, hqs⟩
  match bits with
  | [] => cases h
  | [_] => cases h
  | false :: true :: rest =>
    cases h
    exact Or.inl ⟨rfl, rest, rfl⟩
  | false :: false :: rest => exact Or.inr (hstart 8 rest h)
  | true :: false :: rest => exact Or.inr (hstart 16 rest h)
  | true :: true :: rest => cases h

theorem expand?_endMark (rest : List Bool) : expand? (false :: true :: rest) = some [] := rfl

/-- After any unit there is a character, or a surrogate that waits for its partner. -/
theorem ne_nil_or_isSome_of_step {r r' : Utf16.Reader} {u : UInt16} (h : r.step u = some r') :
    r'.text ≠ [] ∨ r'.high.isSome := by
  unfold Utf16.Reader.step at h
  dsimp only at h
  repeat' split at h
  all_goals cases h
  all_goals simp

/-- Only no units at all give the empty text. -/
theorem eq_nil_of_decode? {units : List UInt16} (h : Utf16.decode? units = some []) :
    units = [] := by
  rcases List.eq_nil_or_concat units with hnil | ⟨us, u, rfl⟩
  · exact hnil
  · rw [List.concat_eq_append, Utf16.decode?, List.foldlM_append] at h
    simp only [Option.bind_eq_bind, Option.bind_eq_some_iff, List.foldlM_cons, List.foldlM_nil] at h
    obtain ⟨r', ⟨r, -, r'', hstep, hpure⟩, hend⟩ := h
    cases hpure
    split at hend
    · cases hend
    · next hhigh =>
      have htext : r'.text = [] := by simpa using hend
      rcases ne_nil_or_isSome_of_step hstep with hne | hsome
      · exact absurd htext hne
      · exact absurd hsome hhigh

theorem lt_of_letterValue? {c : Char} {v : Nat} (h : letterValue? c = some v) : v < 64 := by
  unfold letterValue? at h
  dsimp only at h
  repeat' split at h
  all_goals cases h
  all_goals omega

theorem lt_of_mapM_letterValue? {letters : List Char} {v : Nat} {values : List Nat}
    (h : letters.mapM letterValue? = some (v :: values)) : v < 64 := by
  obtain ⟨c, cs, hv, -, -⟩ :=
    List.forall₂_cons_right_iff.mp (mapM_letterValue?_eq_some_iff.mp h)
  exact lt_of_letterValue? hv

/-- The first two bits of some letters are those of the first value. -/
theorem exists_bits_eq (v : Nat) (values : List Nat) :
    ∃ rest, ((v :: values).flatMap sixBits).dropLast = v.testBit 5 :: v.testBit 4 :: rest :=
  ⟨_, rfl⟩

/-- Letters spell the empty text exactly if the first one starts with the end mark. -/
theorem spells_nil_iff {limit : Nat} {letters : List Char} :
    Spells limit letters [] ↔ Utf8.size letters ≤ maxFragment ∧
      ∃ v values, letters.mapM letterValue? = some (v :: values) ∧ 16 ≤ v ∧ v < 32 := by
  have hbits : ∀ v < 64, (v.testBit 5 = false ∧ v.testBit 4 = true) ↔ 16 ≤ v ∧ v < 32 := by decide
  constructor
  · rintro ⟨hsize, values, phrases, hvalues, hexpand, -, htext⟩
    refine ⟨hsize, ?_⟩
    rcases expand?_cases hexpand with ⟨-, rest, hrest⟩ | ⟨u, qs, rfl⟩
    · cases values with
      | nil => cases hrest
      | cons v values =>
        obtain ⟨rest', hrest'⟩ := exists_bits_eq v values
        rw [hrest'] at hrest
        obtain ⟨hfive, hrest⟩ := List.cons.inj hrest
        obtain ⟨hfour, -⟩ := List.cons.inj hrest
        exact ⟨v, values, hvalues, (hbits v (lt_of_mapM_letterValue? hvalues)).mp ⟨hfive, hfour⟩⟩
    · have hunits := eq_nil_of_decode? htext
      simp [phrasesUnits, Phrase.single] at hunits
  · rintro ⟨hsize, v, values, hvalues, hv⟩
    obtain ⟨rest, hrest⟩ := exists_bits_eq v values
    obtain ⟨hfive, hfour⟩ := (hbits v (lt_of_mapM_letterValue? hvalues)).mpr hv
    refine ⟨hsize, v :: values, [], hvalues, ?_, Nat.zero_le limit, rfl⟩
    rw [hrest, hfive, hfour, expand?_endMark]

/-- A link carries the empty text exactly if its letters have values and the first value is
one of sixteen, those of the letters from `Q` to `Z` and from `a` to `f`. -/
theorem carries_nil_iff {url : String} :
    Carries url [] ↔ ∃ letters, HasFragment url letters ∧ Utf8.size letters ≤ maxFragment ∧
      ∃ v values, letters.mapM letterValue? = some (v :: values) ∧ 16 ≤ v ∧ v < 32 := by
  unfold Carries
  simp only [spells_nil_iff]
  constructor
  · rintro ⟨letters, hfragment, -, h⟩
    exact ⟨letters, hfragment, h⟩
  · rintro ⟨letters, hfragment, hsize, v, values, hvalues, hv⟩
    refine ⟨letters, hfragment, ?_, hsize, v, values, hvalues, hv⟩
    rintro rfl
    cases hvalues

end Playground.Share
