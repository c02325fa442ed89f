import Mathlib.Data.List.DropRight
import Playground.Proofs.Diagnostics.Landing

/-!
# Where markers are placed

A marker of any entry fits the document that it is made for (`Marker.Fitting`).  Its line is
one of the text, and on that line it reaches from the first to the last character that is no
white space, counted from 1 and with the end behind the last one:

    columns       ....+....1....+..
    line          ␣␣int a = b;␣␣␍
    marker          [         )

A line of white space has the columns 0 and 0.  The message of a marker is on one line and
has no white space at its ends.  It cannot start with white space because the longest gap
before it counts (`IsDiagnosticAt.isTrimmed_text`).
-/

namespace Playground

open Text

/-! ## Columns -/

/-- The character in a column of a line, from 1, if there is one. -/
def column? (shown : List Char) : Nat → Option Char
  | 0 => none
  | n + 1 => shown[n]?

/-- The columns of a line that a marker on it covers. -/
inductive Covers (line : List Char) : Nat → Nat → Prop where
  /-- The line is white space. -/
  | blank (all_space : ∀ c ∈ line, isSpace c = true) : Covers line 0 0
  /-- The first and the last character in the columns are no white space, and all others
  outside are. -/
  | ink {startCol endCol : Nat} {first last : Char} (pos : 1 ≤ startCol) (lt : startCol < endCol)
      (le : endCol ≤ line.length + 1) (first_eq : column? line startCol = some first)
      (first_ink : isSpace first = false) (last_eq : column? line (endCol - 1) = some last)
      (last_ink : isSpace last = false)
      (outside : ∀ n c, n < startCol ∨ endCol ≤ n → column? line n = some c → isSpace c = true) :
      Covers line startCol endCol

theorem findIdx?_blank {s : List Char} (h : ∀ c ∈ s, isSpace c = true) :
    s.findIdx? (fun c => !isSpace c) = none := by
  rw [List.findIdx?_eq_none_iff]
  intro c hc
  rw [h c hc]
  rfl

theorem firstInk_eq {a b : List Char} {c : Char} (ha : ∀ d ∈ a, isSpace d = true)
    (hc : isSpace c = false) : Document.firstInk (a ++ c :: b) = a.length + 1 := by
  have hfind : (a ++ c :: b).findIdx? (fun d => !isSpace d) = some a.length := by
    rw [List.findIdx?_append, findIdx?_blank ha, List.findIdx?_cons, hc]
    simp
  rw [Document.firstInk, hfind]

theorem trimEnd_append {a b : List Char} {c : Char} (hb : ∀ d ∈ b, isSpace d = true)
    (hc : isSpace c = false) : trimEnd (a ++ c :: b) = a ++ [c] := by
  have hdrop : (a ++ c :: b).reverse.dropWhile isSpace = (c :: a.reverse) := by
    rw [List.reverse_append, List.reverse_cons, List.append_assoc, List.singleton_append,
      List.dropWhile_append_of_pos fun d hd => hb d (List.mem_reverse.mp hd)]
    exact List.dropWhile_cons_of_neg (by simp [hc])
  rw [trimEnd, hdrop, List.reverse_cons, List.reverse_reverse]

theorem lastInk_eq {a b : List Char} {c : Char} (hb : ∀ d ∈ b, isSpace d = true)
    (hc : isSpace c = false) : Document.lastInk (a ++ c :: b) = a.length + 2 := by
  rw [Document.lastInk, trimEnd_append hb hc]
  cases a with
  | nil => rfl
  | cons d a => simp

/-- A line that is not white space has a first and a last character that is none. -/
theorem exists_ink {line : List Char} {c : Char} (hmem : c ∈ line) (hc : isSpace c = false) :
    (∃ a first b, line = a ++ first :: b ∧ (∀ d ∈ a, isSpace d = true) ∧ isSpace first = false) ∧
      ∃ a last b, line = a ++ last :: b ∧ (∀ d ∈ b, isSpace d = true) ∧ isSpace last = false := by
  have hfirst : line.dropWhile isSpace ≠ [] := by
    intro hnil
    rw [List.dropWhile_eq_nil_iff.mp hnil c hmem] at hc
    cases hc
  have hlast : line.rdropWhile isSpace ≠ [] := by
    intro hnil
    rw [List.rdropWhile_eq_nil_iff.mp hnil c hmem] at hc
    cases hc
  constructor
  · refine ⟨line.takeWhile isSpace, (line.dropWhile isSpace).head hfirst,
      (line.dropWhile isSpace).tail, ?_, fun d hd => List.mem_takeWhile_imp hd, ?_⟩
    · rw [List.cons_head_tail, List.takeWhile_append_dropWhile]
    · simpa using List.head_dropWhile_not isSpace hfirst
  · refine ⟨(line.rdropWhile isSpace).dropLast, (line.rdropWhile isSpace).getLast hlast,
      line.rtakeWhile isSpace, ?_, fun d hd => List.mem_rtakeWhile_imp hd, ?_⟩
    · rw [← List.singleton_append, ← List.append_assoc, List.dropLast_append_getLast,
        List.rdropWhile_append_rtakeWhile]
    · simpa using List.rdropWhile_last_not isSpace line hlast

/-- A line that has been cut at its first and at its last character that is no white space is
covered between them. -/
theorem covers_of_eq {shown a b a' b' : List Char} {first last : Char}
    (hab : shown = a ++ first :: b) (ha : ∀ d ∈ a, isSpace d = true)
    (hfirst : isSpace first = false) (hab' : shown = a' ++ last :: b')
    (hb' : ∀ d ∈ b', isSpace d = true) (hlast : isSpace last = false) :
    Covers shown (a.length + 1) (a'.length + 2) := by
  have hfirstAt : shown[a.length]? = some first := by rw [hab]; simp
  have hlastAt : shown[a'.length]? = some last := by rw [hab']; simp
  have hle : a.length ≤ a'.length := by
    by_contra hlt
    have hspace : last ∈ a := by
      rw [hab, List.getElem?_append_left (by omega)] at hlastAt
      exact List.mem_of_getElem? hlastAt
    rw [ha last hspace] at hlast
    cases hlast
  have hlength : shown.length = a'.length + 1 + b'.length := by
    rw [hab', List.length_append, List.length_cons]
    omega
  refine .ink (Nat.succ_pos _) (by omega) (by omega) hfirstAt hfirst hlastAt hlast ?_
  intro n d hn hd
  cases n with
  | zero => cases hd
  | succ n =>
    change shown[n]? = some d at hd
    rcases hn with hn | hn
    · rw [hab, List.getElem?_append_left (by omega)] at hd
      exact ha d (List.mem_of_getElem? hd)
    · have hbehind : n = (a' ++ [last]).length + (n - (a'.length + 1)) := by
        rw [List.length_append, List.length_singleton]
        omega
      rw [hab', List.append_cons, hbehind, List.getElem?_append_right (Nat.le_add_right ..),
        Nat.add_sub_cancel_left] at hd
      exact hb' d (List.mem_of_getElem? hd)

theorem ink_of_blank {shown : List Char} (h : ∀ c ∈ shown, isSpace c = true) :
    Document.firstInk shown = 0 ∧ Document.lastInk shown = 0 := by
  constructor
  · rw [Document.firstInk, findIdx?_blank h]
  · have hnil : trimEnd shown = [] := List.rdropWhile_eq_nil_iff.mpr h
    rw [Document.lastInk, hnil]

/-- The columns of a line are those that a marker covers. -/
theorem covers_ink (shown : List Char) :
    Covers shown (Document.firstInk shown) (Document.lastInk shown) := by
  by_cases hblank : ∀ c ∈ shown, isSpace c = true
  · obtain ⟨hfirst, hlast⟩ := ink_of_blank hblank
    rw [hfirst, hlast]
    exact .blank hblank
  · simp only [not_forall, Bool.not_eq_true] at hblank
    obtain ⟨c, hmem, hc⟩ := hblank
    obtain ⟨⟨a, first, b, hab, ha, hfirst⟩, a', last, b', hab', hb', hlast⟩ := exists_ink hmem hc
    have hstart : Document.firstInk shown = a.length + 1 := by rw [hab, firstInk_eq ha hfirst]
    have hend : Document.lastInk shown = a'.length + 2 := by rw [hab', lastInk_eq hb' hlast]
    rw [hstart, hend]
    exact covers_of_eq hab ha hfirst hab' hb' hlast

/-! ## Lines -/

/-- What a line of the text shows, without one carriage return at its end. -/
inductive WithoutReturn : List Char → List Char → Prop where
  | returned (line : List Char) : WithoutReturn (line ++ ['\r']) line
  | whole (line : List Char) (no_return : line.getLast? ≠ some '\r') : WithoutReturn line line

theorem withoutReturn_dropReturn (line : List Char) : WithoutReturn line (dropReturn line) := by
  unfold dropReturn
  split
  · next h =>
    obtain ⟨before, rfl⟩ := List.getLast?_eq_some_iff.mp h
    rw [List.dropLast_concat]
    exact .returned before
  · next h => exact .whole line h

/-- The document has the lines of the text. -/
theorem line?_ofText (text : String) (n : Nat) :
    (Document.ofText text).line? n = (line? text.toList n).map dropReturn := by
  cases n with
  | zero => rfl
  | succ n => exact List.getElem?_map

/-! ## Texts -/

/-- There is no white space at either end. -/
structure IsTrimmed (s : List Char) : Prop where
  head : ∀ c ∈ s.head?, isSpace c = false
  last : ∀ c ∈ s.getLast?, isSpace c = false

/-- The text of a diagnostic starts with white space only if it is nothing else. -/
theorem IsDiagnosticAt.head_or_singleton {s : List Char} {d : Diagnostic} {c : Char}
    {t : List Char} (h : IsDiagnosticAt s d) (ht : d.text = c :: t) :
    isSpace c = false ∨ t = [] := by
  obtain ⟨⟨rest, hline, hcap⟩, hcounts⟩ := h
  by_contra hnot
  rw [not_or, Bool.not_eq_false] at hnot
  obtain ⟨hspace, hne⟩ := hnot
  obtain ⟨r, hr⟩ := hcap.eq
  rw [ht] at hr
  -- The white space could go to the gap.
  have hlonger : IsDiagnostic s ⟨d.number, d.column, d.word, d.gap ++ [c], t⟩ := by
    refine ⟨rest, hline, ⟨r, ?_⟩, by simp, ?_, hne, ?_⟩
    · rw [hr, List.append_assoc]
      rfl
    · intro e he
      rcases List.mem_append.mp he with he | he
      · exact hcap.isSpace_of_mem e he
      · rw [List.mem_singleton.mp he]
        exact hspace
    · intro hmem
      refine hcap.newline_notMem ?_
      rw [ht]
      exact List.mem_cons_of_mem c hmem
  rcases hcounts _ hlonger with hlt | ⟨heq, -⟩
  · rw [List.length_append, List.length_singleton] at hlt
    omega
  · simp at heq

theorem IsDiagnosticAt.isTrimmed_text {s : List Char} {d : Diagnostic} (h : IsDiagnosticAt s d) :
    IsTrimmed (trimEnd d.text) := by
  constructor
  · obtain ⟨c, t, ht⟩ := List.exists_cons_of_ne_nil h.1.choose_spec.2.text_ne_nil
    intro e he
    obtain ⟨r, hr⟩ : trimEnd d.text <+: d.text := List.rdropWhile_prefix isSpace d.text
    cases htrim : trimEnd d.text with
    | nil =>
      rw [htrim] at he
      cases he
    | cons e' t' =>
      rw [htrim] at he hr
      cases he
      rw [ht] at hr
      obtain ⟨rfl, -⟩ := List.cons.inj hr
      rcases h.head_or_singleton ht with hink | hnil
      · exact hink
      · by_contra hspace
        rw [ht, hnil, trimEnd] at htrim
        simp [hspace] at htrim
  · intro c hc
    obtain ⟨before, hbefore⟩ := List.getLast?_eq_some_iff.mp hc
    have hne : d.text.rdropWhile isSpace ≠ [] := by
      change trimEnd d.text ≠ []
      simp [hbefore]
    have hlast := List.rdropWhile_last_not isSpace d.text hne
    change ¬isSpace ((trimEnd d.text).getLast hne) = true at hlast
    simpa [hbefore] using hlast

/-! ## Markers -/

/-- The marker fits the text. -/
structure Marker.Fitting (text : String) (m : Marker) : Prop where
  /-- The text has the line. -/
  line : 1 ≤ m.line ∧ m.line ≤ lineCount text.toList
  /-- The columns are those of what the line shows. -/
  columns : ∃ line shown, line? text.toList m.line = some line ∧ WithoutReturn line shown ∧
    Covers shown m.startCol m.endCol
  /-- The source is a severity word. -/
  source : m.source = "error" ∨ m.source = "fatal error" ∨ m.source = "warning"
  /-- Only this word means a warning. -/
  severity : m.severity = .warning ↔ m.source = "warning"
  /-- The message is on one line. -/
  newline_notMem : '\n' ∉ m.message.toList
  /-- The message has no white space at its ends. -/
  isTrimmed : IsTrimmed m.message.toList

theorem exists_line?_of_le {s : List Char} {n : Nat} (h : 1 ≤ n ∧ n ≤ lineCount s) :
    ∃ line, line? s n = some line := by
  cases n with
  | zero => exact absurd h.1 (Nat.not_succ_le_zero 0)
  | succ n => exact ⟨_, List.getElem?_eq_getElem h.2⟩

/-- The columns of a line of the text are those that a marker covers. -/
theorem exists_covers {text : String} {n : Nat} (h : 1 ≤ n ∧ n ≤ lineCount text.toList) :
    ∃ line shown, line? text.toList n = some line ∧ WithoutReturn line shown ∧
      Covers shown ((Document.ofText text).firstColumn n)
        ((Document.ofText text).lastColumn n) := by
  obtain ⟨line, hline⟩ := exists_line?_of_le h
  refine ⟨line, dropReturn line, hline, withoutReturn_dropReturn line, ?_⟩
  rw [Document.firstColumn, Document.lastColumn, line?_ofText, hline]
  exact covers_ink (dropReturn line)

/-- What an entry gives in a text. -/
inductive Placing (text : String) (e : Entry) : Option Marker → Prop where
  /-- Output of the program is not marked. -/
  | program (from_program : e.isCompilerOutput = false) : Placing text e none
  /-- There is no diagnostic, or the first one names no line of the text. -/
  | unmarked (from_compiler : e.isCompilerOutput = true)
      (none_named : ∀ d n, IsFirst e.message.toList d → readWord? d.number = some n →
        ¬(1 ≤ n ∧ n ≤ lineCount text.toList)) : Placing text e none
  /-- The first diagnostic names a line of the text. -/
  | marked (from_compiler : e.isCompilerOutput = true) (d : Diagnostic) (m : Marker)
      (first : IsFirst e.message.toList d) (number : readWord? d.number = some m.line)
      (source : m.source = String.ofList d.word)
      (message : m.message = String.ofList (trimEnd d.text)) (fitting : m.Fitting text) :
      Placing text e (some m)

/-- The marker of a diagnostic fits the text. -/
theorem placing_marker? {text : String} {e : Entry} {d : Diagnostic}
    (he : e.isCompilerOutput = true) (hd : IsFirst e.message.toList d) :
    Placing text e (d.marker? (.ofText text)) := by
  have honly : ∀ f, IsFirst e.message.toList f → f = d := by
    intro f hf
    rw [← search?_diagnostic?_eq_some_iff] at hd hf
    rw [hd] at hf
    exact (Option.some.inj hf).symm
  rw [Diagnostic.marker?]
  cases hn : readWord? d.number with
  | none =>
    refine .unmarked he fun f n hf hfn => ?_
    rw [honly f hf, hn] at hfn
    cases hfn
  | some n =>
    rw [Option.bind_some, lineCount_ofText]
    split
    · next hout =>
      refine .unmarked he fun f k hf hfk => ?_
      rw [honly f hf, hn] at hfk
      cases hfk
      omega
    · next hin =>
      obtain ⟨t, hat⟩ : ∃ t, IsDiagnosticAt t d := by
        obtain ⟨_, t, -, hat, -⟩ := hd
        exact ⟨t, hat⟩
      obtain ⟨rest, hline, hcap⟩ := hat.1
      have hn' : 1 ≤ n ∧ n ≤ lineCount text.toList := by omega
      refine .marked he d _ hd hn rfl rfl ⟨hn', exists_covers hn', ?_, ?_, ?_, ?_⟩
      · have hword := hline.mem_severityWords
        simp only [severityWords, List.mem_cons, List.not_mem_nil, or_false] at hword
        rcases hword with hword | hword | hword <;> simp only [hword] <;> decide
      · show Severity.ofWord _ = .warning ↔ _
        unfold Severity.ofWord
        split <;> simp_all
      · rw [String.toList_ofList]
        intro hmem
        exact hcap.newline_notMem ((List.rdropWhile_prefix isSpace d.text).subset hmem)
      · rw [String.toList_ofList]
        exact hat.isTrimmed_text

theorem exists_placing (text : String) (e : Entry) :
    ∃ m?, markers (.ofText text) [e] = m?.toList ∧ Placing text e m? := by
  cases he : e.isCompilerOutput with
  | false => exact ⟨none, by simp [markers, he], .program he⟩
  | true =>
    have hcompiler : ∀ f ∈ some e, f.isCompilerOutput = true := by simpa using he
    have hmarkers : markers (.ofText text) [e] =
        (Marker.ofMessage? (.ofText text) e.message).toList :=
      markers_toList (.ofText text) hcompiler
    refine ⟨_, hmarkers, ?_⟩
    rw [ofMessage?_eq]
    cases hd : search? diagnostic? e.message.toList with
    | none =>
      refine .unmarked he fun d n hfirst _ => ?_
      rw [search?_diagnostic?_eq_some_iff.mpr hfirst] at hd
      cases hd
    | some d => exact placing_marker? he (search?_diagnostic?_eq_some_iff.mp hd)

/-- The markers of some entries are those that the entries give, in order, at most one each.
Output of the program gives none, and every marker fits the text. -/
theorem markers_fitting (text : String) (es : List Entry) :
    ∃ ms, markers (.ofText text) es = ms.flatMap Option.toList ∧
      List.Forall₂ (Placing text) es ms := by
  induction es with
  | nil => exact ⟨[], rfl, .nil⟩
  | cons e es ih =>
    obtain ⟨ms, hms, hall⟩ := ih
    obtain ⟨m?, hm, hplacing⟩ := exists_placing text e
    refine ⟨m? :: ms, ?_, .cons hplacing hall⟩
    rw [← List.singleton_append, markers_append, hm, hms, List.flatMap_cons]

/-- The gap gives its last character back to a text of white space, which is trimmed off. -/
example :
    markers (.ofText "\u3000 a\t\r\nb") [.compiler "<source>:1:1: warning: \n  ",
      .program "<source>:1:1: error: a" false, .compiler "<source>:3:1: error: a"] =
      [⟨1, 3, 4, .warning, "warning", ""⟩] := by
  decide +kernel

end Playground
