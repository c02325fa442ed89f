import Playground.Desk.Cycle
import Playground.Proofs.Diagnostics.Correction
import Playground.Proofs.Diagnostics.Landing
import Playground.Proofs.Service.Parsing
import Playground.Rendering.Plain

/-!
# Logs that cannot be corrected

Correcting a message fails with an overflow for one reason: the line behind the header is no line
number, and a number behind the include line is looked up (`correctLineNumbers_eq_overflow_iff`).
The numbers that are looked up are those of the references, wherever they are in the message, and
only without a reference that of the gutter (`Consults`).  If nothing overflows, it fails only
because of a gutter that is too wide (`correctLineNumbers_eq_tooWide_iff`).

An offset that comes from putting a header into a code never overflows, since the lines of both are
fewer than the line numbers (`inlineHeader_fits`).  So a log has a rendering, and a cycle that
parses here gets its entries, unless a gutter that is shown is too wide
(`fails_iff_overflow_or_width`).
-/

namespace Playground

open Text

/-! ## Lines -/

/-- A line is above the header, inside of it or below it.  Below it, what is taken off is no more
than the line. -/
theorem LineOffset.correct_cases {o : LineOffset} {n m : Nat} (h : o.correct n = .ok m) :
    (n ≤ o.includeLine ∧ m = n) ∨
      (o.includeLine < n ∧ n ≤ o.includeLine + o.headerLines ∧ m = o.includeLine) ∨
      (o.includeLine + o.headerLines < n ∧ m + o.headerLines = n) := by
  unfold correct at h
  split at h
  · next habove =>
    cases h
    exact Or.inl ⟨habove, rfl⟩
  · next hbehind =>
    split at h
    · cases h
    · split at h
      · next hinside =>
        cases h
        exact Or.inr (Or.inl ⟨by omega, hinside, rfl⟩)
      · next hbelow =>
        cases h
        exact Or.inr (Or.inr ⟨by omega, by omega⟩)

/-! ## Messages -/

/-- The line numbers that are looked up when a message is corrected. -/
inductive Consults (s : List Char) : Nat → Prop where
  /-- The number of a reference is looked up. -/
  | reference {a d b : List Char} {n : Nat} (eq : s = a ++ (d ++ b)) (number : IsNumber a d b)
      (word : readWord? d = some n) : Consults s n
  /-- The number of the gutter is looked up if there is no reference. -/
  | gutter {g : Gutter} {n : Nat} (noReference : ¬HasReference s) (gutter : IsGutter s g)
      (word : readWord? g.number = some n) : Consults s n

theorem Consults.lt {s : List Char} {n : Nat} (h : Consults s n) : n < wordBound := by
  cases h with
  | reference _ _ hn => exact readWord?_lt hn
  | gutter _ _ hn => exact readWord?_lt hn

theorem LineOffset.eq_overflow_of_correct {o : LineOffset} {n : Nat} {e : Failure}
    (h : o.correct n = .error e) : e = .overflow := by
  unfold correct at h
  split at h
  · cases h
  · split at h
    · cases h
      rfl
    · split at h <;> cases h

theorem correctDigits_eq_error_iff {o : LineOffset} {d : List Char} {e : LineOffset.Failure} :
    correctDigits o d = .error e ↔ ∃ n, readWord? d = some n ∧ o.correct n = .error e := by
  rw [correctDigits]
  cases readWord? d with
  | none => simp
  | some n => simp [map_eq_error_iff]

theorem mapM_corrected_eq_error_iff {o : LineOffset} {s : List Char} {e : LineOffset.Failure} :
    (pieces s).mapM (Piece.corrected o) = .error e ↔ e = .overflow ∧
      ∃ a d b n, s = a ++ (d ++ b) ∧ IsNumber a d b ∧ readWord? d = some n ∧
        o.correct n = .error .overflow := by
  have honly : ∀ p f, Piece.corrected o p = .error f → f = .overflow := by
    intro p f hf
    cases p with
    | char c => cases hf
    | number d =>
      obtain ⟨n, -, hfail⟩ := correctDigits_eq_error_iff.mp hf
      exact LineOffset.eq_overflow_of_correct hfail
  rw [mapM_eq_error_iff honly]
  refine and_congr_right fun _ => ⟨?_, ?_⟩
  · rintro ⟨p, hp, hfail⟩
    cases p with
    | char c => cases hfail
    | number d =>
      obtain ⟨a, b, hs, hnum⟩ := number_mem_pieces_iff.mp hp
      obtain ⟨n, hn, hover⟩ := correctDigits_eq_error_iff.mp hfail
      exact ⟨a, d, b, n, hs, hnum, hn, hover⟩
  · rintro ⟨a, d, b, n, hs, hnum, hn, hover⟩
    exact ⟨.number d, number_mem_pieces_iff.mpr ⟨a, b, hs, hnum⟩,
      correctDigits_eq_error_iff.mpr ⟨n, hn, hover⟩⟩

/-- A gutter is not corrected if its number is not, or if it is too wide for the number. -/
theorem correctGutter_eq_error_iff {o : LineOffset} {s : List Char} {e : LineOffset.Failure} :
    correctGutter o s = .error e ↔ ∃ g n, IsGutter s g ∧ readWord? g.number = some n ∧
      (o.correct n = .error e ∨ e = .tooWide ∧ maxWidth < g.width ∧ ∃ m, o.correct n = .ok m) := by
  by_cases hgutter : ∃ g n, IsGutter s g ∧ readWord? g.number = some n
  case neg =>
    rw [correctGutter_of_forall_ne fun g n hg hn => hgutter ⟨g, n, hg, hn⟩]
    exact iff_of_false (fun h => by cases h) fun ⟨g, n, hg, hn, _⟩ => hgutter ⟨g, n, hg, hn⟩
  case pos =>
    obtain ⟨g, n, hg, hn⟩ := hgutter
    have hone : (∃ k l, IsGutter s k ∧ readWord? k.number = some l ∧ (o.correct l = .error e ∨
        e = .tooWide ∧ maxWidth < k.width ∧ ∃ m, o.correct l = .ok m)) ↔
        (o.correct n = .error e ∨
          e = .tooWide ∧ maxWidth < g.width ∧ ∃ m, o.correct n = .ok m) := by
      constructor
      · rintro ⟨k, l, hk, hl, h⟩
        obtain rfl := hk.unique hg
        rw [hn] at hl
        cases hl
        exact h
      · exact fun h => ⟨g, n, hg, hn, h⟩
    rw [hone]
    cases hm : o.correct n with
    | error f =>
      rw [correctGutter, gutter?_eq_some_iff.mpr hg]
      simp [hn, hm, bind, Except.bind]
    | ok m =>
      by_cases hwidth : maxWidth < g.width
      · simp [correctGutter_of_lt_width hg hn hm hwidth, hwidth, eq_comm]
      · simp [correctGutter_of_width_le hg hn hm (Nat.not_lt.mp hwidth), hwidth]

/-- Correcting a message overflows exactly if a number that is looked up does. -/
theorem correctLineNumbers_eq_overflow_iff {o : LineOffset} {s : List Char} :
    correctLineNumbers o s = .error .overflow ↔
      0 < o.headerLines ∧ ∃ n, Consults s n ∧ o.correct n = .error .overflow := by
  cases hid : o.isIdentity with
  | true =>
    have hzero := LineOffset.isIdentity_eq_true_iff.mp hid
    rw [correctLineNumbers_of_isIdentity hid]
    exact iff_of_false (fun h => by cases h) (fun h => by omega)
  | false =>
    rw [and_iff_right (LineOffset.isIdentity_eq_false_iff.mp hid)]
    by_cases href : HasReference s
    · rw [correctLineNumbers, hid, if_neg Bool.false_ne_true, if_pos (any_isNumber_iff.mpr href),
        map_eq_error_iff, mapM_corrected_eq_error_iff, and_iff_right rfl]
      constructor
      · rintro ⟨a, d, b, n, hs, hnum, hn, hover⟩
        exact ⟨n, .reference hs hnum hn, hover⟩
      · rintro ⟨n, hn, hover⟩
        cases hn with
        | reference hs hnum hn => exact ⟨_, _, _, n, hs, hnum, hn, hover⟩
        | gutter hno _ _ => exact absurd href hno
    · rw [correctLineNumbers_of_not_any hid (any_isNumber_eq_false_iff.mpr href),
        correctGutter_eq_error_iff]
      constructor
      · rintro ⟨g, n, hg, hn, hover | ⟨hwide, -⟩⟩
        · exact ⟨n, .gutter href hg hn, hover⟩
        · cases hwide
      · rintro ⟨n, hn, hover⟩
        cases hn with
        | reference hs hnum hn => exact absurd (hasReference_iff.mpr ⟨_, _, _, hs, hnum⟩) href
        | gutter _ hg hn => exact ⟨_, n, hg, hn, .inl hover⟩

/-- Correcting a message fails because of a gutter that is too wide exactly if it has one, and the
number that is looked up does not overflow. -/
theorem correctLineNumbers_eq_tooWide_iff {o : LineOffset} {s : List Char} :
    correctLineNumbers o s = .error .tooWide ↔
      Overwide o s ∧ ∀ n, Consults s n → ∃ m, o.correct n = .ok m := by
  constructor
  · intro h
    cases hid : o.isIdentity with
    | true =>
      rw [correctLineNumbers_of_isIdentity hid] at h
      cases h
    | false =>
      by_cases href : HasReference s
      · rw [correctLineNumbers, hid, if_neg Bool.false_ne_true, if_pos (any_isNumber_iff.mpr href),
          map_eq_error_iff, mapM_corrected_eq_error_iff] at h
        cases h.1
      · rw [correctLineNumbers_of_not_any hid (any_isNumber_eq_false_iff.mpr href),
          correctGutter_eq_error_iff] at h
        obtain ⟨g, n, hg, hn, hfail | ⟨-, hwidth, hm⟩⟩ := h
        · cases LineOffset.eq_overflow_of_correct hfail
        refine ⟨⟨LineOffset.isIdentity_eq_false_iff.mp hid, href, g, n, hg, hn, hwidth⟩, ?_⟩
        intro l hl
        cases hl with
        | reference hs hnum _ => exact absurd (hasReference_iff.mpr ⟨_, _, _, hs, hnum⟩) href
        | gutter _ hk hl =>
          obtain rfl := hk.unique hg
          rw [hn] at hl
          cases hl
          exact hm
  · rintro ⟨⟨hmoves, hnone, g, n, hg, hn, hwidth⟩, hlookup⟩
    obtain ⟨m, hm⟩ := hlookup n (.gutter hnone hg hn)
    rw [correctLineNumbers_of_not_any (LineOffset.isIdentity_eq_false_iff.mpr hmoves)
      (any_isNumber_eq_false_iff.mpr hnone)]
    exact correctGutter_of_lt_width hg hn hm hwidth

/-! ## Offsets of compiled texts -/

theorem includeLine?_le {code : List Char} {line : Nat} (h : includeLine? code = some line) :
    line ≤ newlines code + 1 := by
  obtain ⟨i, hi, rfl⟩ := Option.map_eq_some_iff.mp h
  have hlt := (List.findIdx?_eq_some_iff_findIdx_eq.mp hi).1
  rw [length_splitOn] at hlt
  exact Nat.succ_le_of_lt hlt

/-- The line behind the header is a line number. -/
theorem inlineHeader_fits {header code : String} (hheader : newlines header.toList < 2 ^ 63)
    (hcode : Fits code) :
    (inlineHeader header code).1.includeLine + (inlineHeader header code).1.headerLines <
      wordBound := by
  unfold inlineHeader
  split
  · next line before behind hline hsplit =>
    have hle := includeLine?_le hline
    have hlines := hcode.newlines_lt
    rw [wordBound]
    dsimp only
    omega
  · exact (by decide : 0 + 0 < wordBound)

/-- A number that is looked up overflows exactly if the line behind the header does and the
number is behind the include line. -/
theorem exists_consults_overflow_iff {o : LineOffset} {s : List Char} :
    (∃ n, Consults s n ∧ o.correct n = .error .overflow) ↔
      wordBound ≤ o.headerLines + o.includeLine ∧
        ∃ n, Consults s n ∧ o.includeLine < n ∧ n < wordBound := by
  simp only [LineOffset.correct_eq_overflow_iff, Nat.add_comm o.headerLines]
  constructor
  · rintro ⟨n, hn, hlt, hbound⟩
    exact ⟨hbound, n, hn, hlt, hn.lt⟩
  · rintro ⟨hbound, n, hn, hlt, -⟩
    exact ⟨n, hn, hlt, hbound⟩

/-- Every number that is looked up is found unless one of them overflows. -/
theorem forall_exists_correct_iff {o : LineOffset} {s : List Char} :
    (∀ n, Consults s n → ∃ m, o.correct n = .ok m) ↔
      ¬(wordBound ≤ o.headerLines + o.includeLine ∧
        ∃ n, Consults s n ∧ o.includeLine < n ∧ n < wordBound) := by
  rw [← exists_consults_overflow_iff]
  constructor
  · rintro h ⟨n, hn, hover⟩
    obtain ⟨m, hm⟩ := h n hn
    cases hm.symm.trans hover
  · intro h n hn
    cases hm : o.correct n with
    | ok m => exact ⟨m, rfl⟩
    | error e =>
      obtain rfl := LineOffset.eq_overflow_of_correct hm
      exact absurd ⟨n, hn, hm⟩ h

/-- The texts of the two failures tell them apart. -/
theorem exists_message_iff {α : Type} {x : Except LineOffset.Failure α} (e : LineOffset.Failure) :
    (∃ f, x = .error f ∧ f.message = e.message) ↔ x = .error e := by
  constructor
  · rintro ⟨f, hf, hmessage⟩
    cases f <;> cases e
    case overflow.tooWide => exact absurd hmessage (by decide)
    case tooWide.overflow => exact absurd hmessage (by decide)
    all_goals exact hf
  · exact fun h => ⟨e, h, rfl⟩

/-- Correcting a message overflows exactly if the line behind the header does and a number behind
the include line is looked up, and fails otherwise exactly if its gutter is too wide.  No line is
taken off below zero.  If the offset comes from putting a header into the code, a log is rendered,
and a cycle that parses it here gets the entries, exactly if no line that is shown has a gutter
too wide.  Nothing overflows then. -/
theorem fails_iff_overflow_or_width (o : LineOffset) (s : List Char) :
    ((∃ e, correctLineNumbers o s = .error e ∧ e.message = "attempt to add with overflow") ↔
      0 < o.headerLines ∧ wordBound ≤ o.headerLines + o.includeLine ∧
        ∃ n, Consults s n ∧ o.includeLine < n ∧ n < wordBound) ∧
    ((∃ e, correctLineNumbers o s = .error e ∧ e.message = "Formatting argument out of range") ↔
      Overwide o s ∧ ¬(wordBound ≤ o.headerLines + o.includeLine ∧
        ∃ n, Consults s n ∧ o.includeLine < n ∧ n < wordBound)) ∧
    (∀ n m, o.correct n = .ok m → (n ≤ o.includeLine ∧ m = n) ∨
      (o.includeLine < n ∧ n ≤ o.includeLine + o.headerLines ∧ m = o.includeLine) ∨
      (o.includeLine + o.headerLines < n ∧ m + o.headerLines = n)) ∧
    (∀ header code, Fits header → Fits code → ∀ log verbose succeeded showMarkers,
      let spliced := (inlineHeader header code).1
      let rendered := (parseLog spliced verbose log).map
        fun es => (Rendering.ofEntries succeeded es code).plain showMarkers
      ((∃ text, rendered = .ok text) ↔
        (verbose = true → ∀ line ∈ log, ¬Overwide spliced line.toList)) ∧
      rendered ≠ .error .overflow) ∧
    ∀ state : State, Fits state.code → ∀ log,
      (∃ es, ParseService.here (state.parseRequest log) = .ok (.ok es)) ↔
        (state.showCompilerLog = true →
          ∀ line ∈ log, ¬Overwide (includeHeader state.code).1 line.toList) := by
  refine ⟨?overflow, ?tooWide, fun n m => LineOffset.correct_cases, ?rendered,
    fun state hfits log => ?here⟩
  case overflow =>
    rw [← exists_consults_overflow_iff, ← correctLineNumbers_eq_overflow_iff]
    exact exists_message_iff .overflow
  case tooWide =>
    rw [← forall_exists_correct_iff, ← correctLineNumbers_eq_tooWide_iff]
    exact exists_message_iff .tooWide
  case rendered =>
    intro header code hheader hcode log verbose succeeded showMarkers spliced rendered
    have hcorrect : ∀ n, spliced.correct n = .ok (spliced.origin n) :=
      LineOffset.correct_eq_origin (inlineHeader_fits hheader.newlines_lt hcode)
    refine ⟨?_, fun hover => ?_⟩
    · rw [← exists_parseLog_iff hcorrect]
      simp only [rendered, map_eq_ok_iff]
      exact ⟨fun ⟨_, es, hes, _⟩ => ⟨es, hes⟩, fun ⟨es, hes⟩ => ⟨_, es, hes, rfl⟩⟩
    · cases ((parse_eq_error_iff hcorrect).mp (map_eq_error_iff.mp hover)).1
  case here =>
    refine Iff.trans ?_ ((state.parseRequest log).exists_entries_iff
      (inlineHeader_fits newlines_bundledHeader_lt hfits))
    simp only [ParseService.here_eq_ok_iff]
    exact ⟨fun ⟨_, es, hes, _⟩ => ⟨es, hes⟩, fun ⟨es, hes⟩ => ⟨es, es, hes, rfl⟩⟩

/-- An offset with which there is no line number behind the header. -/
def farOffset : LineOffset := ⟨wordBound - 1, 1⟩

/-- Only the last reference names a line behind the include line. -/
def lateReference : List Char := "  7 | <source>:1: see <source>:٣ and <source>:0002".toList

theorem overflow_lateReference :
    0 < farOffset.headerLines ∧ wordBound ≤ farOffset.headerLines + farOffset.includeLine ∧
    Consults lateReference 2 ∧ ¬Consults lateReference 7 ∧
    (∃ e, correctLineNumbers farOffset lateReference = .error e ∧
      e.message = "attempt to add with overflow") ∧
    Fits "\n" ∧ Fits bareDirective ∧
    ∃ text, (parseLog (inlineHeader "\n" bareDirective).1 false
        [String.ofList lateReference, " 18446744073709551615 | x"]).map
      (fun es => (Rendering.ofEntries true es bareDirective).plain true) = .ok text := by
  have hpos : 0 < farOffset.headerLines := by decide
  have hbound : wordBound ≤ farOffset.headerLines + farOffset.includeLine := by decide
  have hmem : ['0', '0', '0', '2'] ∈ (cut lateReference).numbers := by decide +kernel
  obtain ⟨a, b, hs, hnum⟩ := mem_numbers_cut_iff.mp hmem
  have htwo : Consults lateReference 2 := .reference hs hnum (by decide)
  have hseven : ¬Consults lateReference 7 := by
    have hall : ∀ d ∈ (cut lateReference).numbers, readWord? d ≠ some 7 := by decide +kernel
    intro h
    cases h with
    | reference hs hnum hn => exact hall _ (mem_numbers_cut_iff.mpr ⟨_, _, hs, hnum⟩) hn
    | gutter hno _ _ => exact hno (hasReference_iff.mpr ⟨a, _, b, hs, hnum⟩)
  have hcode : Fits bareDirective := by decide +kernel
  have hheader : Fits "\n" := by decide +kernel
  obtain ⟨hiff, -, -, hrendered, -⟩ := fails_iff_overflow_or_width farOffset lateReference
  exact ⟨hpos, hbound, htwo, hseven, hiff.mpr ⟨hpos, hbound, 2, htwo, by decide, by decide⟩,
    hheader, hcode, (hrendered "\n" bareDirective hheader hcode _ false true true).1.mpr nofun⟩

/-- A cycle is lost whose log is shown and has an excerpt with a gutter too wide. -/
theorem here_fails_wideExcerpt :
    Fits bareDirective ∧ ParseService.here
      ({ State.initial with code := bareDirective }.parseRequest [String.ofList wideExcerpt]) =
        .error .tooWide := by
  have hfits : Fits bareDirective := by decide +kernel
  have hmoves : 0 < (includeHeader bareDirective).1.headerLines := by
    rw [includeHeader_bareDirective]
    decide +kernel
  have hcorrect := LineOffset.correct_eq_origin (inlineHeader_fits newlines_bundledHeader_lt hfits)
  have hwide : Record.Overwide (includeHeader bareDirective).1
      (.compiler (String.ofList wideExcerpt)) := by
    rw [Record.Overwide, String.toList_ofList]
    exact overwide_wideExcerpt hmoves
  refine ⟨hfits, ?_⟩
  rw [ParseService.here, map_eq_error_iff, ParseRequest.entries, State.parseRequest]
  exact (parse_eq_error_iff hcorrect).mpr ⟨rfl, rfl, _, List.mem_singleton_self _, hwide⟩

end Playground
