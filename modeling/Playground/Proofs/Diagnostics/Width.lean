import Playground.Diagnostics.Entry
import Playground.Proofs.Diagnostics.Relocation

/-!
# Gutters that are too wide

A line of a log that is not corrected because of its gutter is lost together with the log: the
log has entries exactly if it has no such line (`exists_parse_iff`).  No such line is an error
or a warning, so it counts only while the log is shown.
-/

namespace Playground

open Text

/-! ## A wide excerpt -/

/-- An excerpt behind some spaces. -/
def indented (n : Nat) : List Char := List.replicate n ' ' ++ "900 | x".toList

theorem isGutter_indented {n : Nat} (hn : 0 < n) :
    IsGutter (indented n) ⟨List.replicate n ' ', "900".toList, " | x".toList⟩ where
  eq := rfl
  indent_ne_nil := List.ne_nil_of_length_pos (by rwa [List.length_replicate])
  eq_of_mem_indent := fun _ hc => List.eq_of_mem_replicate hc
  number_ne_nil := (by decide : "900".toList ≠ [])
  isDigit_of_mem_number := List.all_eq_true.mp (by decide : "900".toList.all isDigit = true)
  bar := ⟨[' '], ['x'], rfl, by decide, fun _ => List.eq_of_mem_singleton⟩

theorem overwide_indented {o : LineOffset} (h : 0 < o.headerLines) {n : Nat}
    (hn : maxWidth ≤ n) : Overwide o (indented n) := by
  have hpos : 0 < n := Nat.lt_of_lt_of_le (by decide) hn
  have hnumber : readWord? "900".toList = some 900 := by decide
  refine ⟨h, ?_, _, 900, isGutter_indented hpos, hnumber, ?_⟩
  · rintro ⟨p, c, r, hs, -⟩
    have hbracket : '<' ∈ indented n := by simp [hs, sourceMark]
    have hmem := (List.mem_append.mp hbracket).imp_left List.eq_of_mem_replicate
    exact absurd hmem (by decide)
  · have hdigits : "900".toList.length = 3 := by decide
    rw [Gutter.width, List.length_replicate, hdigits]
    omega

/-- An excerpt behind as many spaces as can be filled. -/
def wideExcerpt : List Char := indented maxWidth

theorem overwide_wideExcerpt {o : LineOffset} (h : 0 < o.headerLines) : Overwide o wideExcerpt :=
  overwide_indented h (Nat.le_refl _)

/-! ## Records -/

theorem map_eq_error_iff {α β ε : Type} {x : Except ε α} {f : α → β} {e : ε} :
    x.map f = .error e ↔ x = .error e := by
  cases x <;> simp [Except.map]

theorem map_eq_ok_iff {α β ε : Type} {x : Except ε α} {f : α → β} {b : β} :
    x.map f = .ok b ↔ ∃ a, x = .ok a ∧ f a = b := by
  cases x <;> simp [Except.map]

/-- An error or a warning has a reference, so its gutter is not corrected. -/
theorem not_overwide_of_isErrorOrWarning {o : LineOffset} {s : List Char}
    (h : isErrorOrWarning s = true) : ¬Overwide o s := by
  rintro ⟨-, hnone, -⟩
  have hsearch := (follows_headlineAt? o.keepsDigits_relocation).search?_of_any
    (any_isNumber_eq_false_iff.mpr hnone)
  rw [isErrorOrWarning, hsearch] at h
  cases h

/-- The record is a line of the compiler whose gutter is too wide. -/
def Record.Overwide (o : LineOffset) : Record → Prop
  | .program _ _ => False
  | .compiler message => Playground.Overwide o message.toList

variable {o : LineOffset} {verbose : Bool}

theorem correctLineNumbers_eq_error_iff (ho : ∀ n, o.correct n = .ok (o.origin n)) {s : List Char}
    {e : LineOffset.Failure} : correctLineNumbers o s = .error e ↔ e = .tooWide ∧ Overwide o s := by
  by_cases h : Overwide o s
  · rw [correctLineNumbers_of_overwide ho h, and_iff_left h, Except.error.injEq, eq_comm]
  · obtain ⟨t, ht, -⟩ := exists_correctLineNumbers_eq ho h
    rw [ht]
    exact iff_of_false (fun h' => by cases h') fun h' => h h'.2

theorem Record.entry?_eq_error_iff (ho : ∀ n, o.correct n = .ok (o.origin n)) {r : Record}
    {e : LineOffset.Failure} :
    r.entry? o verbose = .error e ↔ e = .tooWide ∧ verbose = true ∧ r.Overwide o := by
  cases r with
  | program message stderr => exact iff_of_false (fun h => by cases h) fun h => h.2.2
  | compiler message =>
    rw [Record.entry?, Overwide]
    split
    · next hkept =>
      rw [map_eq_error_iff, correctLineNumbers_eq_error_iff ho]
      refine and_congr_right fun _ => ⟨fun hwide => ⟨?_, hwide⟩, And.right⟩
      refine (Bool.or_eq_true_iff.mp hkept).resolve_right fun herror => ?_
      exact not_overwide_of_isErrorOrWarning herror hwide
    · next hhidden =>
      refine iff_of_false (fun h => by cases h) fun h => hhidden ?_
      rw [h.2.1, Bool.true_or]

/-! ## Logs -/

/-- Of computations that fail in one way only, the first failure is the failure of all. -/
theorem mapM_eq_error_iff {α β ε : Type} {f : α → Except ε β} {e : ε}
    (hf : ∀ a d, f a = .error d → d = e) {as : List α} {d : ε} :
    as.mapM f = .error d ↔ d = e ∧ ∃ a ∈ as, f a = .error e := by
  induction as with
  | nil => exact iff_of_false (fun h => by cases h) (fun ⟨_, _, h, _⟩ => by cases h)
  | cons a as ih =>
    rw [List.mapM_cons, List.exists_mem_cons_iff]
    cases ha : f a with
    | error d' =>
      cases hf a d' ha
      simp [bind, Except.bind, eq_comm]
    | ok b =>
      simp only [bind, Except.bind, reduceCtorEq, false_or, ← ih]
      cases as.mapM f <;> simp [pure, Except.pure]

/-- The entries of records are those of the first one and those of the rest. -/
theorem parse_cons_eq_ok_iff {r : Record} {rs : List Record} {es : List Entry} :
    parse o verbose (r :: rs) = .ok es ↔
      ∃ e? fs, r.entry? o verbose = .ok e? ∧ parse o verbose rs = .ok fs ∧ es = e?.toList ++ fs := by
  simp only [parse]
  rw [List.mapM_cons]
  cases r.entry? o verbose with
  | error e => exact iff_of_false (fun h => by cases h) fun ⟨_, _, h, _⟩ => by cases h
  | ok e? =>
    cases rs.mapM (Record.entry? o verbose) with
    | error e => exact iff_of_false (fun h => by cases h) fun ⟨_, _, _, h, _⟩ => by cases h
    | ok rest =>
      constructor
      · intro h
        cases h
        exact ⟨e?, _, rfl, rfl, rfl⟩
      · rintro ⟨d?, fs, hr, hrs, rfl⟩
        cases hr
        cases hrs
        rfl

theorem parse_eq_error_iff (ho : ∀ n, o.correct n = .ok (o.origin n)) {rs : List Record}
    {e : LineOffset.Failure} :
    parse o verbose rs = .error e ↔ e = .tooWide ∧ verbose = true ∧ ∃ r ∈ rs, r.Overwide o := by
  have honly : ∀ r d, Record.entry? o verbose r = .error d → d = .tooWide :=
    fun r d h => ((Record.entry?_eq_error_iff ho).mp h).1
  rw [parse, map_eq_error_iff, mapM_eq_error_iff honly]
  refine and_congr_right fun _ => ?_
  simp only [Record.entry?_eq_error_iff ho, true_and]
  exact ⟨fun ⟨r, hr, hv, hw⟩ => ⟨hv, r, hr, hw⟩, fun ⟨hv, r, hr, hw⟩ => ⟨r, hr, hv, hw⟩⟩

/-- A list of records has entries exactly if it has no line that is lost. -/
theorem exists_parse_iff (ho : ∀ n, o.correct n = .ok (o.origin n)) {rs : List Record} :
    (∃ es, parse o verbose rs = .ok es) ↔ (verbose = true → ∀ r ∈ rs, ¬r.Overwide o) := by
  cases h : parse o verbose rs with
  | error e =>
    obtain ⟨-, hv, r, hr, hw⟩ := (parse_eq_error_iff ho).mp h
    exact iff_of_false (fun ⟨_, h'⟩ => by cases h') fun hnone => hnone hv r hr hw
  | ok es =>
    refine iff_of_true ⟨es, rfl⟩ fun hv r hr hw => ?_
    have hfail : parse o verbose rs = .error .tooWide :=
      (parse_eq_error_iff ho).mpr ⟨rfl, hv, r, hr, hw⟩
    rw [h] at hfail
    cases hfail

theorem exists_parseLog_iff (ho : ∀ n, o.correct n = .ok (o.origin n)) {log : List String} :
    (∃ es, parseLog o verbose log = .ok es) ↔
      (verbose = true → ∀ line ∈ log, ¬Overwide o line.toList) := by
  rw [parseLog, exists_parse_iff ho, List.forall_mem_map]
  rfl

end Playground
