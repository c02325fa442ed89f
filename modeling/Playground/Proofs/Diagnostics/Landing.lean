import Playground.Proofs.Diagnostics.Width
import Playground.Rendering

/-!
# Where diagnostics land

The compiler reads the code with the header in it, and names lines of that text in its
log.  Each line of the log with a diagnostic of such a line gives one marker, on the line
of the code from which the named line comes, and no other line of the log gives one
(`markers_land`).  Whether the log is shown makes no difference, since a line with a
diagnostic is shown in any case.
-/

namespace Playground

open Text

/-! ## Markers of a message -/

/-- The marker of a diagnostic, if the document has its line. -/
def Diagnostic.marker? (doc : Document) (d : Diagnostic) : Option Marker :=
  (readWord? d.number).bind fun line =>
    if line = 0 ∨ doc.lineCount < line then none
    else some {
      line
      startCol := doc.firstColumn line
      endCol := doc.lastColumn line
      severity := .ofWord (String.ofList d.word)
      source := String.ofList d.word
      message := String.ofList (trimEnd d.text) }

/-- The headline at the start of a text with what is behind it. -/
def reading? (s : List Char) : Option (Headline × List Char × List Char) :=
  (headlineAt? s).bind fun h => (capture? h.rest).map fun found => (h, found)

theorem diagnosticAt?_eq (s : List Char) :
    diagnosticAt? s = (reading? s).map fun r => (r.1, trimEnd r.2.2) := by
  rw [diagnosticAt?, reading?]
  cases headlineAt? s with
  | none => rfl
  | some h =>
    simp only [Option.bind_eq_bind, Option.bind_some, diagnosticText?_eq]
    cases capture? h.rest <;> rfl

theorem diagnostic?_eq (s : List Char) :
    diagnostic? s = (reading? s).map fun r =>
      ⟨r.1.line, r.1.column, r.1.word, r.2.1, r.2.2⟩ := by
  rw [diagnostic?, reading?]
  cases headlineAt? s with
  | none => rfl
  | some h =>
    simp only [Option.bind_some]
    cases capture? h.rest <;> rfl

theorem ofMessage?_eq (doc : Document) (message : String) :
    Marker.ofMessage? doc message =
      (search? diagnostic? message.toList).bind (Diagnostic.marker? doc) := by
  rw [funext diagnostic?_eq, search?_map, Marker.ofMessage?, funext diagnosticAt?_eq, search?_map]
  cases search? reading? message.toList with
  | none => rfl
  | some r =>
    simp only [Option.map_some, Option.bind_eq_bind, Option.bind_some, Diagnostic.marker?]
    rfl

/-- A message with a diagnostic has a headline. -/
theorem isErrorOrWarning_of_search? {s : List Char} (h : isErrorOrWarning s = false) :
    search? diagnostic? s = none := by
  have hnone : search? headlineAt? s = none := by simpa [isErrorOrWarning] using h
  rw [search?_eq_none_iff] at hnone ⊢
  intro a b hs
  rw [diagnostic?, hnone a b hs, Option.bind_none]

/-! ## The lines of the compiled text -/

/-- The offset of a compiled text corrects every line. -/
theorem Inlined.correct_eq {header code : String} {result : LineOffset × String}
    (h : Inlined header code result) (n : Nat) : result.1.correct n = .ok (result.1.origin n) := by
  by_cases hd : HasDirective code.toList
  · exact (h.1 hd).correct n
  · have hzero : LineOffset.identity.includeLine + LineOffset.identity.headerLines < wordBound := by
      decide
    rw [h.2 hd]
    exact LineOffset.correct_eq_origin hzero n

theorem lineCount_ofText (code : String) :
    (Document.ofText code).lineCount = lineCount code.toList := by
  rw [Document.lineCount, Document.ofText, List.length_map]
  rfl

/-- A line of the compiled text comes from a line of the code, and a number that is no
line of the one is moved to a number that is no line of the other. -/
theorem Inlined.origin_iff {header code : String} {result : LineOffset × String}
    (h : Inlined header code result) (n : Nat) :
    1 ≤ result.1.origin n ∧ result.1.origin n ≤ lineCount code.toList ↔
      1 ≤ n ∧ n ≤ lineCount result.2.toList := by
  by_cases hd : HasDirective code.toList
  · have hl := h.1 hd
    obtain ⟨l, -, -, -, hline, -⟩ := hl.inside
    have hinclude : 1 ≤ result.1.includeLine ∧
        result.1.includeLine ≤ lineCount code.toList := by
      cases hi : result.1.includeLine with
      | zero => rw [hi] at hline; cases hline
      | succ i =>
        rw [hi, line?] at hline
        exact ⟨Nat.succ_pos i, (List.getElem?_eq_some_iff.mp hline).1⟩
    rw [hl.lineCount, LineOffset.origin]
    split
    · omega
    · split <;> omega
  · rw [h.2 hd, LineOffset.origin_of_isIdentity rfl]

/-! ## Lines of the log -/

/-- What a line of the log gives for a code that was compiled as `result`. -/
inductive Landing (code : String) (result : LineOffset × String) (line : String) :
    Option Marker → Prop where
  /-- The first diagnostic names a line of the compiled text. -/
  | marked (d : Diagnostic) (n : Nat) (m : Marker) (first : IsFirst line.toList d)
      (number : readWord? d.number = some n) (exists_line : 1 ≤ n ∧ n ≤ lineCount result.2.toList)
      (at_line : m.line = result.1.origin n)
      (startCol : m.startCol = (Document.ofText code).firstColumn m.line)
      (endCol : m.endCol = (Document.ofText code).lastColumn m.line)
      (source : m.source = String.ofList d.word)
      (severity : m.severity = .warning ↔ m.source = "warning")
      (message : m.message = String.ofList (trimEnd (renumber result.1.relocation d.text))) :
      Landing code result line (some m)
  /-- There is no diagnostic, or the first one names no line of the compiled text. -/
  | unmarked (none_named : ∀ d n, IsFirst line.toList d → readWord? d.number = some n →
      ¬(1 ≤ n ∧ n ≤ lineCount result.2.toList)) : Landing code result line none

theorem landing_of_none {code line : String} {result : LineOffset × String}
    (h : search? diagnostic? line.toList = none) : Landing code result line none := by
  refine .unmarked fun d n hd _ => ?_
  rw [search?_diagnostic?_eq_some_iff.mpr hd] at h
  cases h

/-- What the moved diagnostic gives is what the line of the log has to give. -/
theorem landing_marker? {header code line : String} {result : LineOffset × String}
    (hin : Inlined header code result) {d : Diagnostic}
    (h : search? diagnostic? line.toList = some d) :
    Landing code result line
      ((d.renumbered result.1.relocation).marker? (.ofText code)) := by
  have honly : ∀ e, IsFirst line.toList e → e = d := by
    intro e he
    rw [search?_diagnostic?_eq_some_iff.mpr he] at h
    exact Option.some.inj h
  rw [Diagnostic.marker?, Diagnostic.renumbered, LineOffset.readWord?_relocation]
  cases hn : readWord? d.number with
  | none =>
    refine .unmarked fun e n he hen => ?_
    rw [honly e he, hn] at hen
    cases hen
  | some n =>
    rw [Option.map_some, Option.bind_some, lineCount_ofText]
    have hiff := hin.origin_iff n
    split
    · next hout =>
      refine .unmarked fun e k he hek => ?_
      rw [honly e he, hn] at hek
      rw [← Option.some.inj hek, ← hiff]
      omega
    · next hout =>
      have hwarning : Severity.ofWord (String.ofList d.word) = .warning ↔
          String.ofList d.word = "warning" := by
        unfold Severity.ofWord
        split <;> simp_all
      refine .marked d n _ (search?_diagnostic?_eq_some_iff.mp h) hn (hiff.mp (by omega)) ?_ ?_ ?_
        ?_ ?_ ?_
      · rfl
      · rfl
      · rfl
      · rfl
      · exact hwarning
      · rfl

/-- A line of the log lands where its first diagnostic says, whether the log is shown or
not. -/
theorem landing_of_entry? {header code : String} {result : LineOffset × String}
    (hin : Inlined header code result) {verbose : Bool} {line : String} {e? : Option Entry}
    (h : Record.entry? result.1 verbose (.compiler line) = .ok e?) :
    (∀ e ∈ e?, e.isCompilerOutput = true) ∧
      Landing code result line
        (e?.bind fun e => Marker.ofMessage? (.ofText code) e.message) := by
  rw [Record.entry?] at h
  split at h
  · obtain ⟨t, ht, rfl⟩ := map_eq_ok_iff.mp h
    have hsearch := search?_of_correctLineNumbers hin.correct_eq ht
      (follows_diagnostic? result.1.keepsDigits_relocation)
    constructor
    · intro e he
      rw [← Option.some.inj he]
      rfl
    · rw [Option.bind_some, ofMessage?_eq, Entry.compiler, String.toList_ofList, hsearch]
      cases hd : search? diagnostic? line.toList with
      | none => exact landing_of_none hd
      | some d => exact landing_marker? hin hd
  · next hquiet =>
    cases h
    have hempty : ∀ e ∈ (none : Option Entry), e.isCompilerOutput = true := by
      intro e he
      cases he
    refine ⟨hempty, ?_⟩
    apply landing_of_none
    apply isErrorOrWarning_of_search?
    simp only [Bool.or_eq_true, not_or, Bool.not_eq_true] at hquiet
    exact hquiet.2

/-! ## The log -/

theorem markers_append (doc : Document) (es fs : List Entry) :
    markers doc (es ++ fs) = markers doc es ++ markers doc fs := by
  rw [markers, List.filter_append, List.filterMap_append]
  rfl

theorem markers_toList (doc : Document) {e? : Option Entry}
    (h : ∀ e ∈ e?, e.isCompilerOutput = true) :
    markers doc e?.toList = (e?.bind fun e => Marker.ofMessage? doc e.message).toList := by
  cases e? with
  | none => rfl
  | some e =>
    have he := h e rfl
    rw [Option.toList_some, markers, List.filter_cons_of_pos he, List.filter_nil,
      List.filterMap_cons, Option.bind_some]
    cases Marker.ofMessage? doc e.message <;> rfl

theorem exists_landing_of_parseLog {header code : String} {result : LineOffset × String}
    (hin : Inlined header code result) {verbose : Bool} {log : List String} {es : List Entry}
    (h : parseLog result.1 verbose log = .ok es) :
    ∃ ms, markers (.ofText code) es = ms.flatMap Option.toList ∧
      List.Forall₂ (Landing code result) log ms := by
  induction log generalizing es with
  | nil =>
    cases h
    exact ⟨[], rfl, .nil⟩
  | cons line log ih =>
    obtain ⟨e?, fs, he, hfs, rfl⟩ := parse_cons_eq_ok_iff.mp h
    obtain ⟨ms, hms, hall⟩ := ih hfs
    obtain ⟨hcompiler, hland⟩ := landing_of_entry? hin he
    refine ⟨_, ?_, .cons hland hall⟩
    rw [markers_append, markers_toList _ hcompiler, hms, List.flatMap_cons]

/-- A log has entries exactly if no line that is shown has a gutter too wide to be corrected.
Then the markers of its rendering are those that the lines of the log give, in order, each on
the line of the code from which the line it names comes. -/
theorem markers_land (code : String) (hone : OneLine code.toList) (hcode : Fits code)
    (log : List String) (verbose succeeded : Bool) :
    Inlined bundledHeader code (includeHeader code) ∧
    ((∃ es, parseLog (includeHeader code).1 verbose log = .ok es) ↔
      (verbose = true → ∀ line ∈ log, ¬Overwide (includeHeader code).1 line.toList)) ∧
    ∀ es, parseLog (includeHeader code).1 verbose log = .ok es →
      ∃ ms, (Rendering.ofEntries succeeded es code).markers = ms.flatMap Option.toList ∧
        List.Forall₂ (Landing code (includeHeader code)) log ms :=
  have hin := inlined_includeHeader hone hcode
  ⟨hin, exists_parseLog_iff hin.correct_eq, fun _ => exists_landing_of_parseLog hin⟩

/-- A code with a carriage return at the end of each line. -/
def undeclared : String := "int a;\r\n#include <ctp/ctp.hpp>\r\n  int b = c;\r\n"

/-- A log that names lines of the code and of the header, one that is no line, and a line
without a severity. -/
def undeclaredLog : List String :=
  ["<source>:494:11: error:  'c' was not declared, see <source>:1 ", "  494 |   int b = c;",
    "<source>:40:1: warning: in <source>:494", "<source>:999:1: error: end", "<source>:1:1: note: a"]

theorem includeHeader_undeclared :
    (includeHeader undeclared).1 = ⟨bundledHeaderLines.length, 2⟩ := by
  have hline : includeLine? undeclared.toList = some 2 := by decide +kernel
  have hsplit : splitDirective? undeclared.toList =
      some ("int a;\r\n".toList, "\r\n  int b = c;\r\n".toList) := by decide +kernel
  rw [includeHeader, inlineHeader, hline, hsplit, newlines_bundledHeader]

/-- The markers of the log. -/
def undeclaredMarkers : List Marker :=
  [⟨3, 3, 13, .error, "error", "'c' was not declared, see <source>:1"⟩,
    ⟨2, 1, 23, .warning, "warning", "in <source>:3"⟩]

theorem markers_undeclared :
    OneLine undeclared.toList ∧ Fits undeclared ∧
    Inlined bundledHeader undeclared (includeHeader undeclared) ∧
    ∃ es ms, parseLog (includeHeader undeclared).1 false undeclaredLog = .ok es ∧
      (Rendering.ofEntries false es undeclared).markers = ms.flatMap Option.toList ∧
      List.Forall₂ (Landing undeclared (includeHeader undeclared)) undeclaredLog ms ∧
      ms.flatMap Option.toList = undeclaredMarkers := by
  have hone : OneLine undeclared.toList := by decide +kernel
  have hfits : Fits undeclared := by decide +kernel
  obtain ⟨hin, hiff, hland⟩ := markers_land undeclared hone hfits undeclaredLog false false
  obtain ⟨es, hes⟩ := hiff.mpr fun h => by cases h
  obtain ⟨ms, hms, hall⟩ := hland es hes
  have hshown : (parseLog ⟨bundledHeaderLines.length, 2⟩ false undeclaredLog).map
      (fun es => (Rendering.ofEntries false es undeclared).markers) = .ok undeclaredMarkers := by
    decide +kernel
  refine ⟨hone, hfits, hin, es, ms, hes, hms, hall, ?_⟩
  rw [includeHeader_undeclared] at hes
  rw [hes] at hshown
  rw [← hms]
  exact Except.ok.inj hshown

/-- A directive and nothing else. -/
def bareDirective : String := "#include <ctp/ctp.hpp>"

theorem includeHeader_bareDirective :
    (includeHeader bareDirective).1 = ⟨bundledHeaderLines.length, 1⟩ := by
  have hline : includeLine? bareDirective.toList = some 1 := by decide +kernel
  have hsplit : splitDirective? bareDirective.toList = some ([], []) := by decide +kernel
  rw [includeHeader, inlineHeader, hline, hsplit, newlines_bundledHeader]

/-- A log that is shown is lost together with a line whose gutter is too wide. -/
theorem markers_lost_wideExcerpt :
    OneLine bareDirective.toList ∧ Fits bareDirective ∧
    ¬∃ es, parseLog (includeHeader bareDirective).1 true [String.ofList wideExcerpt] = .ok es := by
  have hone : OneLine bareDirective.toList := by decide +kernel
  have hfits : Fits bareDirective := by decide +kernel
  have hmoves : 0 < (includeHeader bareDirective).1.headerLines := by
    rw [includeHeader_bareDirective]
    decide +kernel
  refine ⟨hone, hfits, fun h => ?_⟩
  have hnone := (exists_parseLog_iff (inlined_includeHeader hone hfits).correct_eq).mp h rfl _
    (List.mem_singleton_self _)
  rw [String.toList_ofList] at hnone
  exact hnone (overwide_wideExcerpt hmoves)

end Playground
