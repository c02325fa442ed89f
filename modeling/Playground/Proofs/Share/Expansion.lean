import Mathlib.Algebra.Ring.Nat
import Mathlib.Data.List.Basic
import Playground.Proofs.Share.Reading

/-!
# Expanding what was compressed

The writer and the reader build the same dictionary.  The writer enters a phrase as soon
as it has read the unit behind it, the reader only when it reads the next code, so the
reader lags behind by the last entry, and by a unit if that was new.

    writer   ..., [u] if it is new, w u      w is written, and a phrase from u on is read
    reader   ...                             w is the last phrase

`Pending` is this state of things.  Writing the phrase brings the reader up to the writer
(`Pending.flush`), and reading a unit either makes the phrase longer or writes it
(`Pending.step`).
-/

namespace Playground.Share

/-! ## Phrases -/

/-- The first unit and the size of a phrase are those of its units. -/
structure Phrase.Sound (p : Phrase) : Prop where
  /-- The first unit stands at the end of the list. -/
  getLast?_units : p.units.getLast? = some p.first
  /-- The size is the length of the list. -/
  size_eq : p.size = p.units.length

namespace Phrase.Sound

theorem single (u : UInt16) : (Phrase.single u).Sound := ⟨rfl, rfl⟩

theorem snoc {p : Phrase} (h : p.Sound) (u : UInt16) : (p.snoc u).Sound := by
  constructor
  · show (u :: p.units).getLast? = some p.first
    rw [List.getLast?_cons, h.getLast?_units]
    rfl
  · show p.size + 1 = (u :: p.units).length
    rw [h.size_eq, List.length_cons]

end Phrase.Sound

theorem phrasesUnits_concat (ps : List Phrase) (p : Phrase) :
    phrasesUnits (ps ++ [p]) = phrasesUnits ps ++ p.units.reverse := by
  simp [phrasesUnits]

theorem phrasesSize_eq {ps : List Phrase} (h : ∀ p ∈ ps, p.Sound) :
    phrasesSize ps = (phrasesUnits ps).length := by
  have hfold : ∀ n, ps.foldl (fun n p => n + p.size) n = n + (phrasesUnits ps).length := by
    induction ps with
    | nil => intro n; rfl
    | cons p ps ih =>
      intro n
      rw [List.foldl_cons, ih fun q hq => h q (List.mem_cons_of_mem p hq),
        (h p (List.mem_cons_self ..)).size_eq, phrasesUnits, phrasesUnits, List.flatMap_cons,
        List.length_append, List.length_reverse, Nat.add_assoc]
  rw [phrasesSize, hfold, Nat.zero_add]

/-! ## Widths -/

/-- The entries that a width has room for and those there are already make up the codes of
its bits. -/
structure Width.Supplies (w : Width) (entries : Nat) : Prop where
  /-- No code is left over. -/
  two_pow_eq : 2 ^ w.bits = w.room + (firstPhrase + entries)
  /-- There is room for one more entry. -/
  room_pos : 0 < w.room

namespace Width.Supplies

theorem grow {w : Width} {entries : Nat} (h : w.Supplies entries) :
    w.grow.Supplies (entries + 1) := by
  have hpow := h.two_pow_eq
  have hroom := h.room_pos
  unfold Width.grow
  split
  · refine ⟨?_, ?_⟩
    · show 2 ^ (w.bits + 1) = 1 <<< w.bits + (firstPhrase + (entries + 1))
      rw [Nat.one_shiftLeft, Nat.pow_succ]
      omega
    · show 0 < 1 <<< w.bits
      rw [Nat.one_shiftLeft]
      exact Nat.two_pow_pos _
  · refine ⟨?_, ?_⟩
    · show 2 ^ w.bits = w.room - 1 + (firstPhrase + (entries + 1))
      omega
    · show 0 < w.room - 1
      omega

/-- The code behind the last one fits. -/
theorem lt_two_pow {w : Width} {entries code : Nat} (h : w.Supplies entries)
    (hcode : code ≤ firstPhrase + entries) : code < 2 ^ w.bits := by
  have hpow := h.two_pow_eq
  have hroom := h.room_pos
  omega

end Width.Supplies

/-! ## The reader -/

/-- The reader has read `written`, which stands for the units `done`, and the next code
has the width `width`. -/
structure InStep (width : Width) (written : List Code) (e : Expander) (done : List UInt16) :
    Prop where
  /-- The reader reads the next code with its width. -/
  width_eq : e.width = width
  /-- The width goes with the number of entries. -/
  supplies : width.Supplies e.dictionary.size
  /-- The entries are sound. -/
  sound : ∀ p ∈ e.dictionary.toList, p.Sound
  /-- So is the last phrase. -/
  sound_last : e.last.Sound
  /-- So are the phrases read. -/
  sound_phrases : ∀ p ∈ e.phrases, p.Sound
  /-- A text that starts with what is written goes on with the reader. -/
  expand?_eq : ∀ rest, expand? (writtenBits written ++ rest) = e.run rest
  /-- The phrases read are the units. -/
  units_eq : phrasesUnits e.phrases.reverse = done

/-- The phrases of the dictionary of a reader. -/
def Expander.entries (e : Expander) : List (List UInt16) := e.dictionary.toList.map Phrase.units

theorem Expander.length_entries (e : Expander) : e.entries.length = e.dictionary.size := by
  rw [entries, List.length_map, Array.length_toList]

theorem Expander.entries_push (e : Expander) (p : Phrase) :
    (e.push p).entries = e.entries ++ [p.first :: e.last.units] := by
  rw [entries, push, Array.toList_push, List.map_append]
  rfl

theorem Expander.entries_spell (e : Expander) (u : UInt16) :
    (e.spell u).entries = e.entries ++ [[u], u :: e.last.units] := by
  rw [entries, spell, push, Array.toList_push, Array.toList_push, List.map_append, List.map_append,
    List.append_assoc]
  rfl

namespace InStep

variable {width : Width} {written : List Code} {e : Expander} {done : List UInt16}

theorem start (u : UInt16) :
    InStep Width.start.grow.grow (spelled Width.start.bits u) (Expander.start u) [u] where
  width_eq := rfl
  supplies := ⟨rfl, by decide⟩
  sound := fun p hp => by
    rw [List.mem_singleton.mp hp]
    exact Phrase.Sound.single u
  sound_last := Phrase.Sound.single u
  sound_phrases := fun p hp => by
    rw [List.mem_singleton.mp hp]
    exact Phrase.Sound.single u
  expand?_eq := expand?_spelled u
  units_eq := rfl

theorem endMark_lt (h : InStep width written e done) : endMark < 2 ^ e.width.bits := by
  rw [h.width_eq]
  exact h.supplies.lt_two_pow (by rw [endMark, firstPhrase]; omega)

theorem push (h : InStep width written e done) {code : Nat} {p : Phrase} (hp : p.Sound)
    (hphrase : e.phrase? code = some p) (hcode : code ≤ firstPhrase + e.dictionary.size) :
    InStep width.grow (⟨width.bits, code⟩ :: written) (e.push p) (done ++ p.units.reverse) where
  width_eq := by rw [← h.width_eq]; rfl
  supplies := by
    have hgrow := h.supplies.grow
    rwa [← Array.size_push (e.last.snoc p.first)] at hgrow
  sound := by
    intro q hq
    rw [Expander.push, Array.toList_push] at hq
    cases List.mem_append.mp hq with
    | inl hq => exact h.sound q hq
    | inr hq =>
      rw [List.mem_singleton.mp hq]
      exact h.sound_last.snoc p.first
  sound_last := hp
  sound_phrases := by
    intro q hq
    cases List.mem_cons.mp hq with
    | inl hq => rw [hq]; exact hp
    | inr hq => exact h.sound_phrases q hq
  expand?_eq := by
    intro rest
    have hlt : code < 2 ^ e.width.bits := by
      rw [h.width_eq]
      exact h.supplies.lt_two_pow hcode
    rw [← List.singleton_append, writtenBits_append, List.append_assoc, h.expand?_eq,
      writtenBits_singleton, ← h.width_eq, Expander.run_phrase hlt hphrase]
  units_eq := by
    show phrasesUnits (p :: e.phrases).reverse = _
    rw [List.reverse_cons, phrasesUnits_concat, h.units_eq]

theorem spell (h : InStep width written e done) (u : UInt16) :
    InStep width.grow.grow (spelled width.bits u ++ written) (e.spell u) (done ++ [u]) where
  width_eq := by rw [← h.width_eq]; rfl
  supplies := by
    have hgrow := h.supplies.grow.grow
    rwa [← Array.size_push (.single u), ← Array.size_push (e.last.snoc u)] at hgrow
  sound := by
    intro q hq
    rw [Expander.spell, Expander.push, Array.toList_push, Array.toList_push] at hq
    simp only [List.mem_append, List.mem_singleton] at hq
    rcases hq with (hq | rfl) | rfl
    · exact h.sound q hq
    · exact Phrase.Sound.single u
    · exact h.sound_last.snoc u
  sound_last := Phrase.Sound.single u
  sound_phrases := by
    intro q hq
    cases List.mem_cons.mp hq with
    | inl hq => rw [hq]; exact Phrase.Sound.single u
    | inr hq => exact h.sound_phrases q hq
  expand?_eq := by
    intro rest
    rw [writtenBits_append, List.append_assoc, h.expand?_eq, ← h.width_eq,
      Expander.run_spelled h.endMark_lt]
  units_eq := by
    show phrasesUnits (Phrase.single u :: e.phrases).reverse = _
    rw [List.reverse_cons, phrasesUnits_concat, h.units_eq]
    rfl

/-- The code of a phrase that the reader has, or is just making, gives that phrase. -/
theorem exists_phrase?_eq (h : InStep width written e done) {u : UInt16} {x : List UInt16} {k : Nat}
    (hx : (e.entries ++ [u :: e.last.units])[k]? = some x) (hu : x.getLast? = some u) :
    ∃ p, p.Sound ∧ p.units = x ∧ e.phrase? (firstPhrase + k) = some p := by
  have hnot : ¬firstPhrase + k < firstPhrase := by omega
  rw [Expander.phrase?, if_neg hnot, Nat.add_sub_cancel_left, ← e.length_entries]
  by_cases hk : k = e.entries.length
  · rw [if_pos hk]
    rw [hk, List.getElem?_concat_length] at hx
    cases hx
    have hfirst : e.last.first = u := by
      rw [List.getLast?_cons, h.sound_last.getLast?_units] at hu
      exact Option.some.inj hu
    exact ⟨e.last.snoc e.last.first, h.sound_last.snoc _, by rw [Phrase.snoc, hfirst], rfl⟩
  · have hlt : k < e.entries.length := by
      have hlen := (List.getElem?_eq_some_iff.mp hx).1
      rw [List.length_append, List.length_singleton] at hlen
      omega
    rw [if_neg hk]
    rw [List.getElem?_append_left hlt, Expander.entries, List.getElem?_map,
      Option.map_eq_some_iff] at hx
    obtain ⟨p, hp, hunits⟩ := hx
    exact ⟨p, h.sound p (List.mem_of_getElem? hp), hunits, by rw [← Array.getElem?_toList, hp]⟩

end InStep

/-! ## The writer -/

/-- The dictionary of the writer holds the phrases `l`, in the order of their codes, and
every unit of them. -/
structure Holds (c : Compressor) (l : List (List UInt16)) : Prop where
  /-- The next code is the one behind theirs. -/
  next_eq : c.next = firstPhrase + l.length
  /-- A code is that of its phrase. -/
  of_getElem? : ∀ x n, c.dictionary[x]? = some n → ∃ k, n = firstPhrase + k ∧ l[k]? = some x
  /-- Every phrase has a code. -/
  mem : ∀ x ∈ l, x ∈ c.dictionary
  /-- Every unit of a phrase is a phrase. -/
  unit_mem : ∀ x ∈ l, ∀ v ∈ x, [v] ∈ l

namespace Holds

variable {c : Compressor} {l : List (List UInt16)}

theorem exists_code (h : Holds c l) {x : List UInt16} (hx : x ∈ c.dictionary) :
    ∃ k, c.dictionary.getD x 0 = firstPhrase + k ∧ l[k]? = some x := by
  have hsome : c.dictionary[x]? = some c.dictionary[x] := Std.HashMap.getElem?_eq_some_getElem hx
  obtain ⟨k, hcode, hk⟩ := h.of_getElem? x _ hsome
  exact ⟨k, by rw [Std.HashMap.getD_eq_getD_getElem?, hsome, Option.getD_some, hcode], hk⟩

theorem mem_iff (h : Holds c l) (x : List UInt16) : x ∈ c.dictionary ↔ x ∈ l := by
  constructor
  · intro hx
    obtain ⟨k, -, hk⟩ := h.exists_code hx
    exact List.mem_of_getElem? hk
  · exact h.mem x

theorem enter (h : Holds c l) {x : List UInt16} (hunit : ∀ v ∈ x, [v] ∈ l ++ [x]) :
    Holds (c.enter x) (l ++ [x]) where
  next_eq := by
    show c.next + 1 = _
    rw [h.next_eq, List.length_append, List.length_singleton, Nat.add_assoc]
  of_getElem? := by
    intro y n hy
    rw [Compressor.enter, Std.HashMap.getElem?_insert] at hy
    split at hy
    · next hxy =>
      cases hy
      exact ⟨l.length, h.next_eq, by rw [List.getElem?_concat_length, eq_of_beq hxy]⟩
    · obtain ⟨k, hn, hk⟩ := h.of_getElem? y n hy
      have hlt := (List.getElem?_eq_some_iff.mp hk).1
      exact ⟨k, hn, by rw [List.getElem?_append_left hlt, hk]⟩
  mem := by
    intro y hy
    rw [Compressor.enter, Std.HashMap.mem_insert]
    cases List.mem_append.mp hy with
    | inl hy => exact Or.inr (h.mem y hy)
    | inr hy => exact Or.inl (by rw [List.mem_singleton.mp hy]; exact beq_self_eq_true x)
  unit_mem := by
    intro y hy v hv
    cases List.mem_append.mp hy with
    | inl hy => exact List.mem_append_left _ (h.unit_mem y hy v hv)
    | inr hy => exact hunit v (List.mem_singleton.mp hy ▸ hv)

end Holds

/-- The writer holds a phrase that is not written yet, behind the units that the reader
has.  All units so far are the third argument. -/
inductive Pending (c : Compressor) (l : List (List UInt16)) : List UInt16 → Prop where
  /-- Only one unit has been read. -/
  | first (u : UInt16) (phrase_eq : c.phrase = [u]) (fresh_eq : c.fresh = true)
      (list_eq : l = [[u]]) (width_eq : c.width = .start) (written_eq : c.written = []) :
      Pending c l [u]
  /-- The phrase starts with the unit `u`, which came behind the last phrase of the reader.
  If it is new, it is all of the phrase, and no other phrase starts with it. -/
  | behind (e : Expander) (u : UInt16) (done : List UInt16)
      (inStep : InStep c.width c.written e done)
      (list_eq : l = e.entries ++ ((if c.fresh then [[u]] else []) ++ [u :: e.last.units]))
      (phrase_mem : c.phrase ∈ l) (starts : c.phrase.getLast? = some u)
      (fresh : c.fresh = true → c.phrase = [u] ∧ ∀ x ∈ l, x.getLast? = some u → x = [u]) :
      Pending c l (done ++ c.phrase.reverse)

/-! ## Writing the phrase -/

namespace Compressor

theorem flush_dictionary (c : Compressor) : c.flush.dictionary = c.dictionary := by
  unfold flush
  split
  · rfl
  · split <;> rfl

theorem flush_next (c : Compressor) : c.flush.next = c.next := by
  unfold flush
  split
  · rfl
  · split <;> rfl

theorem flush_of_fresh {c : Compressor} {u : UInt16} (hphrase : c.phrase = [u])
    (hfresh : c.fresh = true) :
    c.flush.width = c.width.grow.grow ∧
      c.flush.written = spelled c.width.bits u ++ c.written := by
  unfold flush
  rw [hphrase]
  dsimp only
  rw [if_pos hfresh]
  exact ⟨rfl, rfl⟩

theorem flush_of_not_fresh {c : Compressor} (hphrase : c.phrase ≠ []) (hfresh : c.fresh = false) :
    c.flush.width = c.width.grow ∧
      c.flush.written = ⟨c.width.bits, c.dictionary.getD c.phrase 0⟩ :: c.written := by
  obtain ⟨u, us, hus⟩ := List.exists_cons_of_ne_nil hphrase
  unfold flush
  rw [hus]
  dsimp only
  rw [hfresh]
  exact ⟨rfl, rfl⟩

end Compressor

/-- Writing the phrase brings the reader up to the writer. -/
theorem Pending.flush {c : Compressor} {l : List (List UInt16)} {read : List UInt16}
    (h : Pending c l read) (hl : Holds c l) :
    ∃ e, InStep c.flush.width c.flush.written e read ∧ e.entries = l ∧
      e.last.units = c.phrase ∧ c.phrase ∈ l := by
  cases h with
  | first u phrase_eq fresh_eq list_eq width_eq written_eq =>
    obtain ⟨hwidth, hwritten⟩ := Compressor.flush_of_fresh phrase_eq fresh_eq
    rw [width_eq] at hwidth hwritten
    rw [written_eq, List.append_nil] at hwritten
    rw [hwidth, hwritten, phrase_eq, list_eq]
    exact ⟨.start u, .start u, rfl, rfl, List.mem_singleton_self _⟩
  | behind e u done inStep list_eq phrase_mem starts fresh =>
    cases hf : c.fresh with
    | true =>
      obtain ⟨hphrase, -⟩ := fresh hf
      obtain ⟨hwidth, hwritten⟩ := Compressor.flush_of_fresh hphrase hf
      refine ⟨e.spell u, ?_, ?_, by rw [hphrase]; rfl, phrase_mem⟩
      · rw [hwidth, hwritten, hphrase]
        exact inStep.spell u
      · rw [e.entries_spell, list_eq, hf]
        rfl
    | false =>
      have hne : c.phrase ≠ [] := by
        intro hnil
        rw [hnil] at starts
        cases starts
      obtain ⟨hwidth, hwritten⟩ := Compressor.flush_of_not_fresh hne hf
      rw [hf] at list_eq
      obtain ⟨k, hcode, hk⟩ := hl.exists_code (hl.mem _ phrase_mem)
      rw [list_eq] at hk
      have hle : k ≤ e.dictionary.size := by
        have hlen := (List.getElem?_eq_some_iff.mp hk).1
        rw [← e.length_entries]
        simp at hlen
        omega
      obtain ⟨p, hp, hunits, hphrase⟩ := inStep.exists_phrase?_eq hk starts
      have hfirst : p.first = u := by
        have hlast := hp.getLast?_units
        rw [hunits, starts] at hlast
        exact (Option.some.inj hlast).symm
      refine ⟨e.push p, ?_, ?_, hunits, phrase_mem⟩
      · rw [hwidth, hwritten, hcode, ← hunits]
        exact inStep.push hp hphrase (by omega)
      · rw [e.entries_push, hfirst, list_eq]
        rfl

/-! ## Reading a unit -/

/-- The writer after it has written its phrase and entered it with the unit behind it. -/
def Compressor.advance (c : Compressor) (u : UInt16) (fresh : Bool) : Compressor :=
  { c.flush.enter (u :: c.phrase) with phrase := [u], fresh }

namespace Holds

variable {c : Compressor} {l : List (List UInt16)}

/-- The dictionary of the writer says what it holds. -/
theorem congr {c' : Compressor} (h : Holds c l) (hd : c'.dictionary = c.dictionary)
    (hn : c'.next = c.next) : Holds c' l where
  next_eq := by rw [hn, h.next_eq]
  of_getElem? := by rw [hd]; exact h.of_getElem?
  mem := by rw [hd]; exact h.mem
  unit_mem := h.unit_mem

theorem flush (h : Holds c l) : Holds c.flush l :=
  h.congr c.flush_dictionary c.flush_next

theorem start : Holds .start [] where
  next_eq := rfl
  of_getElem? := by
    intro x n hx
    rw [Compressor.start, Std.HashMap.getElem?_empty] at hx
    cases hx
  mem := by
    intro x hx
    cases hx
  unit_mem := by
    intro x hx
    cases hx

end Holds

/-- A unit that is no phrase occurs in no phrase. -/
theorem Holds.not_mem_of_unit {c : Compressor} {l : List (List UInt16)} (h : Holds c l) {u : UInt16}
    (hu : [u] ∉ l) {x : List UInt16} (hx : x ∈ l) : u ∉ x :=
  fun hmem => hu (h.unit_mem x hx u hmem)

namespace Compressor

variable {c : Compressor} {u : UInt16}

theorem step_of_extends (hu : [u] ∈ c.dictionary) (hx : u :: c.phrase ∈ c.dictionary) :
    c.step u = { c with phrase := u :: c.phrase, fresh := false } := by
  rw [step, Std.HashMap.contains_iff_mem.mpr hu]
  simp only [Bool.not_true, Bool.false_eq_true, ↓reduceIte]
  rw [if_pos (Std.HashMap.contains_iff_mem.mpr hx)]

theorem step_of_known (hu : [u] ∈ c.dictionary) (hx : u :: c.phrase ∉ c.dictionary) :
    c.step u = c.advance u false := by
  rw [step, Std.HashMap.contains_iff_mem.mpr hu]
  simp only [Bool.not_true, Bool.false_eq_true, ↓reduceIte]
  rw [if_neg (by rwa [Std.HashMap.contains_iff_mem])]
  rfl

theorem step_of_new (hu : [u] ∉ c.dictionary) (hne : c.phrase ≠ [])
    (hx : u :: c.phrase ∉ c.dictionary) : c.step u = (c.enter [u]).advance u true := by
  have hne' : ([u] == u :: c.phrase) = false := by
    rw [beq_eq_false_iff_ne]
    intro h
    exact hne (List.cons.inj h).2.symm
  have hx' : ¬(c.enter [u]).dictionary.contains (u :: c.phrase) = true := by
    rw [enter, Std.HashMap.contains_insert, hne', Bool.false_or, Std.HashMap.contains_iff_mem]
    exact hx
  have hcontains : c.dictionary.contains [u] = false := by
    rw [← Bool.not_eq_true, Std.HashMap.contains_iff_mem]
    exact hu
  rw [step, hcontains]
  simp only [Bool.not_false, ↓reduceIte]
  exact if_neg hx'

/-- Entering another phrase does not change what is written. -/
theorem flush_enter {x : List UInt16} (hx : x ≠ c.phrase) :
    (c.enter x).flush.width = c.flush.width ∧ (c.enter x).flush.written = c.flush.written := by
  have hget : (c.enter x).dictionary.getD c.phrase 0 = c.dictionary.getD c.phrase 0 := by
    rw [enter, Std.HashMap.getD_insert, if_neg (by simpa using hx)]
  have hphrase : (c.enter x).phrase = c.phrase := rfl
  have hfresh : (c.enter x).fresh = c.fresh := rfl
  unfold flush
  rw [hphrase, hfresh]
  split
  · exact ⟨rfl, rfl⟩
  · next v vs hvs =>
    rw [hvs] at hget
    split
    · exact ⟨rfl, rfl⟩
    · exact ⟨rfl, by rw [hget]; rfl⟩

end Compressor

/-- What is pending once the writer has written its phrase. -/
theorem pending_advance {c : Compressor} {l : List (List UInt16)} {e : Expander}
    {read : List UInt16} {u : UInt16} {fresh : Bool}
    (hl : Holds c (l ++ if fresh then [[u]] else []))
    (he : InStep c.flush.width c.flush.written e read) (hentries : e.entries = l)
    (hlast : e.last.units = c.phrase) (hphrase : c.phrase ∈ l)
    (hu : [u] ∈ l ++ if fresh then [[u]] else []) (hnew : fresh = true → ∀ x ∈ l, u ∉ x) :
    ∃ l', Holds (c.advance u fresh) l' ∧ Pending (c.advance u fresh) l' (read ++ [u]) := by
  refine ⟨(l ++ if fresh then [[u]] else []) ++ [u :: c.phrase], ?_, ?_⟩
  · refine (hl.flush.enter ?_).congr rfl rfl
    intro v hv
    refine List.mem_append_left _ ?_
    cases List.mem_cons.mp hv with
    | inl hv => rw [hv]; exact hu
    | inr hv => exact hl.unit_mem c.phrase (List.mem_append_left _ hphrase) v hv
  · refine .behind e u read he ?_ ?_ rfl ?_
    · rw [hentries, hlast, List.append_assoc]
      rfl
    · exact List.mem_append_left _ hu
    · intro hf
      refine ⟨rfl, ?_⟩
      intro x hx hstarts
      have hmem := List.mem_of_getLast? hstarts
      have hf' : fresh = true := hf
      rw [hf', if_pos rfl] at hx
      simp only [List.mem_append, List.mem_singleton] at hx
      rcases hx with (hx | hx) | hx
      · exact absurd hmem (hnew hf' x hx)
      · exact hx
      · -- A longer phrase starts with a unit of the last one.
        cases hus : c.phrase with
        | nil => rw [hx, hus]
        | cons v vs =>
          rw [hx, hus, List.getLast?_cons_cons] at hstarts
          refine absurd (List.mem_of_getLast? hstarts) ?_
          rw [← hus]
          exact hnew hf' c.phrase hphrase

theorem Pending.step {c : Compressor} {l : List (List UInt16)} {read : List UInt16}
    (h : Pending c l read) (hl : Holds c l) (u : UInt16) :
    ∃ l', Holds (c.step u) l' ∧ Pending (c.step u) l' (read ++ [u]) := by
  by_cases hx : u :: c.phrase ∈ c.dictionary
  · -- The phrase gets longer.
    have hxl := (hl.mem_iff _).mp hx
    have hu : [u] ∈ c.dictionary := hl.mem _ (hl.unit_mem _ hxl u (List.mem_cons_self ..))
    rw [Compressor.step_of_extends hu hx]
    refine ⟨l, hl.congr rfl rfl, ?_⟩
    cases h with
    | first v phrase_eq fresh_eq list_eq width_eq written_eq =>
      rw [phrase_eq, list_eq] at hxl
      simp at hxl
    | behind e v done inStep list_eq phrase_mem starts fresh =>
      obtain ⟨w, ws, hws⟩ : ∃ w ws, c.phrase = w :: ws := by
        cases hphrase : c.phrase with
        | nil => rw [hphrase] at starts; cases starts
        | cons w ws => exact ⟨w, ws, rfl⟩
      have hstarts : (u :: c.phrase).getLast? = some v := by
        rw [hws, List.getLast?_cons_cons, ← hws, starts]
      cases hf : c.fresh with
      | true =>
        have hone := (fresh hf).2 _ hxl hstarts
        rw [hws] at hone
        cases hone
      | false =>
        rw [hf] at list_eq
        have hread : done ++ c.phrase.reverse ++ [u] = done ++ (u :: c.phrase).reverse := by
          rw [List.reverse_cons, List.append_assoc]
        rw [hread]
        exact .behind e v done inStep list_eq hxl hstarts (fun hfalse => by cases hfalse)
  · obtain ⟨e, he, hentries, hlast, hphrase⟩ := h.flush hl
    by_cases hu : [u] ∈ c.dictionary
    · rw [Compressor.step_of_known hu hx]
      have hul := (hl.mem_iff _).mp hu
      refine pending_advance ?_ he hentries hlast hphrase ?_ (fun hfalse => by cases hfalse)
      · simpa using hl
      · simpa using hul
    · have hul : [u] ∉ l := fun hmem => hu (hl.mem _ hmem)
      have hnil : c.phrase ≠ [] := by
        rw [← hlast]
        intro hnil
        have hsound := he.sound_last.getLast?_units
        rw [hnil] at hsound
        cases hsound
      have hne : [u] ≠ c.phrase := fun heq => hul (heq ▸ hphrase)
      obtain ⟨hwidth, hwritten⟩ := Compressor.flush_enter hne
      rw [Compressor.step_of_new hu hnil hx]
      rw [← hwidth, ← hwritten] at he
      refine pending_advance ?_ he hentries hlast hphrase ?_ ?_
      · exact hl.enter fun v hv => by
          rw [List.mem_singleton.mp hv]
          exact List.mem_append_right l (List.mem_singleton_self _)
      · exact List.mem_append_right l (List.mem_singleton_self _)
      · intro _ x hx
        exact hl.not_mem_of_unit hul hx

/-- The writer that has read one unit. -/
theorem pending_start (u : UInt16) :
    ∃ l, Holds (Compressor.start.step u) l ∧ Pending (Compressor.start.step u) l [u] := by
  have hl : Holds (Compressor.start.enter [u]) [[u]] := Holds.start.enter fun v hv => by
    rw [List.mem_singleton.mp hv]
    exact List.mem_singleton_self _
  have hstep : Compressor.start.step u =
      { Compressor.start.enter [u] with phrase := [u], fresh := true } := by
    simp [Compressor.step, Compressor.start, Compressor.enter]
  rw [hstep]
  exact ⟨[[u]], hl.congr rfl rfl, .first u rfl rfl rfl rfl rfl⟩

theorem Pending.foldl {c : Compressor} {l : List (List UInt16)} {read : List UInt16}
    (h : Pending c l read) (hl : Holds c l) (units : List UInt16) :
    ∃ l', Holds (units.foldl Compressor.step c) l' ∧
      Pending (units.foldl Compressor.step c) l' (read ++ units) := by
  induction units generalizing c l read with
  | nil => exact ⟨l, hl, by rwa [List.append_nil]⟩
  | cons u units ih =>
    obtain ⟨l', hl', h'⟩ := h.step hl u
    rw [← List.singleton_append, ← List.append_assoc]
    exact ih h' hl'

/-! ## Whole texts -/

/-- The units of a text are found again in its codes, whatever follows these. -/
theorem expand?_compress (units : List UInt16) (rest : List Bool) :
    ∃ ps, expand? ((compress units).flatMap Code.bits ++ rest) = some ps ∧
      phrasesUnits ps = units ∧ phrasesSize ps = units.length := by
  cases units with
  | nil =>
    refine ⟨[], ?_, rfl, rfl⟩
    exact expand?_end rest
  | cons u units =>
    obtain ⟨l, hl, h⟩ := pending_start u
    obtain ⟨l', hl', h'⟩ := h.foldl hl units
    obtain ⟨e, he, -⟩ := h'.flush hl'
    refine ⟨e.phrases.reverse, ?_, he.units_eq, ?_⟩
    · rw [compress, List.foldl_cons, Compressor.finish, ← writtenBits,
        ← List.singleton_append, writtenBits_append, List.append_assoc, he.expand?_eq,
        writtenBits_singleton, ← he.width_eq, Expander.run_end he.endMark_lt]
    · have hsound : ∀ p ∈ e.phrases.reverse, p.Sound := fun p hp =>
        he.sound_phrases p (List.mem_reverse.mp hp)
      rw [phrasesSize_eq hsound, he.units_eq]
      rfl

end Playground.Share
