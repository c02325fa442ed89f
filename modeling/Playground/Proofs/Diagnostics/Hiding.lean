import Playground.Proofs.Diagnostics.Landing

/-!
# Hiding the log

A message is an error or a warning before its line numbers are moved exactly if it is one
afterwards (`isErrorOrWarning_of_correctLineNumbers`).  So a hidden log is the log that is shown
without some of its lines (`parse_hidden`), and none of these has a marker.  The status is that of
the shown log as well, except for a success of which every compiler line is hidden
(`hiding_hides_lines`).

A hidden log always has entries.  A log that is shown has none if a gutter in it is too wide
(`hiding_wideExcerpt`).
-/

namespace Playground

open Text

/-! ## Messages -/

/-- A message is an error or a warning before and after its line numbers are moved. -/
theorem isErrorOrWarning_of_correctLineNumbers {o : LineOffset}
    (ho : ∀ n, o.correct n = .ok (o.origin n)) {s t : List Char}
    (ht : correctLineNumbers o s = .ok t) : isErrorOrWarning t = isErrorOrWarning s := by
  have hsearch := search?_of_correctLineNumbers ho ht (follows_headlineAt? o.keepsDigits_relocation)
  rw [isErrorOrWarning, hsearch, Option.isSome_map]
  rfl

/-! ## Entries -/

/-- The entry stays when the log is hidden. -/
def Entry.stays (e : Entry) : Bool := !e.isCompilerOutput || isErrorOrWarning e.message.toList

theorem Entry.stays_program (message : String) (stderr : Bool) :
    (Entry.program message stderr).stays = true := rfl

theorem Entry.stays_compiler (s : List Char) :
    (Entry.compiler (String.ofList s)).stays = isErrorOrWarning s := by
  rw [stays, compiler, String.toList_ofList]
  rfl

/-- A record has an entry while the log is shown, and the same one or none when it is hidden. -/
theorem entry?_hidden {o : LineOffset} (ho : ∀ n, o.correct n = .ok (o.origin n)) {r : Record}
    {e? : Option Entry} (h : r.entry? o true = .ok e?) :
    ∃ e, e? = some e ∧ r.entry? o false = .ok (if e.stays then some e else none) := by
  cases r with
  | program message stderr =>
    cases h
    refine ⟨.program message stderr, rfl, ?_⟩
    rw [Entry.stays_program, if_pos rfl]
    rfl
  | compiler message =>
    rw [Record.entry?, Bool.true_or, if_pos rfl] at h
    obtain ⟨t, ht, rfl⟩ := map_eq_ok_iff.mp h
    refine ⟨.compiler (String.ofList t), rfl, ?_⟩
    rw [Record.entry?, Entry.stays_compiler, isErrorOrWarning_of_correctLineNumbers ho ht,
      Bool.false_or, ht]
    split <;> rfl

/-- The entries of a hidden log are those of the shown one that stay. -/
theorem parse_hidden {o : LineOffset} (ho : ∀ n, o.correct n = .ok (o.origin n))
    {rs : List Record} {es : List Entry} (h : parse o true rs = .ok es) :
    parse o false rs = .ok (es.filter Entry.stays) := by
  induction rs generalizing es with
  | nil =>
    cases h
    rfl
  | cons r rs ih =>
    obtain ⟨e?, fs, hr, hrs, rfl⟩ := parse_cons_eq_ok_iff.mp h
    obtain ⟨e, rfl, hr'⟩ := entry?_hidden ho hr
    refine parse_cons_eq_ok_iff.mpr ⟨_, _, hr', ih hrs, ?_⟩
    rw [Option.toList_some, List.singleton_append, List.filter_cons]
    split <;> rfl

/-! ## Renderings -/

/-- An entry that goes has no marker. -/
theorem markers_filter_stays (doc : Document) (es : List Entry) :
    markers doc (es.filter Entry.stays) = markers doc es := by
  induction es with
  | nil => rfl
  | cons e es ih =>
    have hcons : e :: es = [e] ++ es := rfl
    rw [List.filter_cons]
    split
    · rw [← List.singleton_append, markers_append, ih, ← markers_append, ← hcons]
    · next hgoes =>
      simp only [Entry.stays, Bool.or_eq_true, Bool.not_eq_true', not_or, Bool.not_eq_false,
        Bool.not_eq_true] at hgoes
      have hnone : Marker.ofMessage? doc e.message = none := by
        rw [ofMessage?_eq, isErrorOrWarning_of_search? hgoes.2, Option.bind_none]
      have hempty : markers doc [e] = [] := by
        rw [markers, List.filter_cons_of_pos hgoes.1, List.filter_nil, List.filterMap_cons, hnone]
        rfl
      rw [ih, hcons, markers_append, hempty, List.nil_append]

/-- There is output of the compiler, and all of it goes when the log is hidden. -/
def Silenced (es : List Entry) : Prop :=
  (∃ e ∈ es, e.isCompilerOutput = true) ∧ ∀ e ∈ es, e.isCompilerOutput = true → e.stays = false

theorem Silenced.any {es : List Entry} (h : Silenced es) :
    es.any (·.isCompilerOutput) = true ∧
      (es.filter Entry.stays).any (·.isCompilerOutput) = false := by
  obtain ⟨⟨e, he, hcompiler⟩, hgoes⟩ := h
  refine ⟨List.any_eq_true.mpr ⟨e, he, hcompiler⟩, ?_⟩
  rw [List.any_eq_false]
  intro d hd hd'
  obtain ⟨hmem, hstays⟩ := List.mem_filter.mp hd
  rw [hgoes d hmem hd'] at hstays
  cases hstays

/-- Unless all of it goes, there is output of the compiler in both cases or in none. -/
theorem any_filter_stays {es : List Entry} (h : ¬Silenced es) :
    (es.filter Entry.stays).any (·.isCompilerOutput) = es.any (·.isCompilerOutput) := by
  cases hall : es.any (·.isCompilerOutput) with
  | false =>
    rw [List.any_eq_false] at hall ⊢
    intro e he
    exact hall e (List.mem_filter.mp he).1
  | true =>
    by_contra hnone
    rw [Bool.not_eq_true, List.any_eq_false] at hnone
    refine h ⟨List.any_eq_true.mp hall, fun e he hcompiler => ?_⟩
    by_contra hstays
    exact hnone e (List.mem_filter.mpr ⟨he, by simpa using hstays⟩) hcompiler

/-- The renderings of the same output, with the log shown and hidden. -/
structure Alike (succeeded : Bool) (es : List Entry) (shown hidden : Rendering) : Prop where
  /-- They have the same markers. -/
  markers_eq : hidden.markers = shown.markers
  /-- A success of which all compiler lines go is clean when the log is hidden. -/
  status_of_silenced : succeeded = true → Silenced es →
    shown.status = .warning ∧ hidden.status = .ok
  /-- Otherwise they have the same status. -/
  status_eq : ¬(succeeded = true ∧ Silenced es) → hidden.status = shown.status

theorem alike_ofEntries (succeeded : Bool) (es : List Entry) (code : String) :
    Alike succeeded es (.ofEntries succeeded es code)
      (.ofEntries succeeded (es.filter Entry.stays) code) where
  markers_eq := markers_filter_stays (.ofText code) es
  status_of_silenced := by
    rintro rfl h
    simp only [Rendering.ofEntries, h.any]
    exact ⟨rfl, rfl⟩
  status_eq := by
    intro h
    simp only [Rendering.ofEntries]
    cases succeeded with
    | false => rfl
    | true => rw [any_filter_stays fun hs => h ⟨rfl, hs⟩]

/-- Hiding the log only hides lines.  Moving the line numbers of a message makes no error
or warning of it, and none is lost.  The entries are those of the shown log, without the
compiler's that are no error or warning.  The markers are the same, and so is the status,
except that a success of which every compiler line is hidden is clean.  Only a gutter that is too
wide has no place in a log that is shown, while the log without it has entries. -/
theorem hiding_hides_lines {o : LineOffset} (ho : o.includeLine + o.headerLines < wordBound) :
    (∀ s, ((∃ t, correctLineNumbers o s = .ok t) ↔ ¬Overwide o s) ∧
      ∀ t, correctLineNumbers o s = .ok t → isErrorOrWarning t = isErrorOrWarning s) ∧
    ∀ rs, (∃ fs, parse o false rs = .ok fs) ∧
      ((∃ es, parse o true rs = .ok es) ↔ ∀ r ∈ rs, ¬r.Overwide o) ∧
      ∀ es, parse o true rs = .ok es →
        parse o false rs = .ok (es.filter fun e =>
          !e.isCompilerOutput || isErrorOrWarning e.message.toList) ∧
        ∀ succeeded code, Alike succeeded es (.ofEntries succeeded es code)
          (.ofEntries succeeded (es.filter Entry.stays) code) := by
  have hcorrect := LineOffset.correct_eq_origin ho
  refine ⟨fun s => ⟨exists_correctLineNumbers_iff hcorrect,
    fun t => isErrorOrWarning_of_correctLineNumbers hcorrect⟩, fun rs => ⟨?_, ?_, fun es hes => ?_⟩⟩
  · exact (exists_parse_iff hcorrect).mpr fun h => by cases h
  · rw [exists_parse_iff hcorrect, imp_iff_right rfl]
  · exact ⟨parse_hidden hcorrect hes, fun succeeded code => alike_ofEntries succeeded es code⟩

/-- A note with a reference, an excerpt with its gutter, and output of the program. -/
def chatter : List Record :=
  [.compiler "<source>:120:3: note: see <source>:٣ and <source>:7", .compiler "  120 | int b;",
    .program "<source>:120:1: note" false]

/-- An error in front of it, with a number that is no line number. -/
def complaint : List Record :=
  .compiler "<source>:99999999999999999999:1: fatal error: <source>:120 " :: chatter

/-- The entries of the error, with the log shown. -/
def complaintEntries : List Entry :=
  [.compiler "<source>:99999999999999999999:1: fatal error: <source>:20 ",
    .compiler "<source>:20:3: note: see <source>:٣ and <source>:1", .compiler "   20 | int b;",
    .program "<source>:120:1: note" false]

theorem hiding_complaint :
    1 + 100 < wordBound ∧
    parse ⟨100, 1⟩ true complaint = .ok complaintEntries ∧
    parse ⟨100, 1⟩ false complaint = .ok
      [.compiler "<source>:99999999999999999999:1: fatal error: <source>:20 ",
        .program "<source>:120:1: note" false] ∧
    Alike true complaintEntries.tail (.ofEntries true complaintEntries.tail "")
      (.ofEntries true (complaintEntries.tail.filter Entry.stays) "") := by
  have hfits : 1 + 100 < wordBound := by decide
  obtain ⟨-, hparse⟩ := hiding_hides_lines (o := ⟨100, 1⟩) hfits
  have hall : parse ⟨100, 1⟩ true complaint = .ok complaintEntries := by decide +kernel
  have htail : parse ⟨100, 1⟩ true chatter = .ok complaintEntries.tail := by decide +kernel
  obtain ⟨-, -, hshown⟩ := hparse complaint
  obtain ⟨-, -, hshown'⟩ := hparse chatter
  refine ⟨hfits, hall, ?_, (hshown' _ htail).2 true ""⟩
  rw [(hshown _ hall).1]
  decide +kernel

/-- An excerpt whose gutter is too wide is hidden, and cannot be shown. -/
theorem hiding_wideExcerpt :
    1 + 491 < wordBound ∧ parse ⟨491, 1⟩ false [.compiler (String.ofList wideExcerpt)] = .ok [] ∧
    ¬∃ es, parse ⟨491, 1⟩ true [.compiler (String.ofList wideExcerpt)] = .ok es := by
  have hfits : 1 + 491 < wordBound := by decide
  have hcorrect := LineOffset.correct_eq_origin (o := ⟨491, 1⟩) hfits
  have hwide : Overwide ⟨491, 1⟩ wideExcerpt := overwide_wideExcerpt (by decide)
  have hquiet : isErrorOrWarning wideExcerpt = false :=
    Bool.eq_false_iff.mpr fun h => not_overwide_of_isErrorOrWarning h hwide
  refine ⟨hfits, ?_, fun h => ?_⟩
  · refine parse_cons_eq_ok_iff.mpr ⟨none, [], ?_, rfl, rfl⟩
    rw [Record.entry?, String.toList_ofList, hquiet]
    rfl
  · have hnone := (exists_parse_iff hcorrect).mp h rfl _ (List.mem_singleton_self _)
    rw [Record.Overwide, String.toList_ofList] at hnone
    exact hnone hwide

end Playground
