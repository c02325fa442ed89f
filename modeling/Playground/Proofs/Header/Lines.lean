import Mathlib.Algebra.Ring.Nat
import Playground.Proofs.Header.Standing
import Playground.Text.Utf8

/-!
# The lines of an inlined text

What becomes of the lines of a code when a header takes the place of its first
directive.  Let `h` be the newlines of the header and `i` the line of the directive.

    line of the text      what it is
    1 .. i - 1            the line of the code
    i .. i + h            a line of the header, with what is before the directive on its
                          first one and what is behind the directive on its last one
    i + h + 1 ..          the line of the code, `h` lines earlier, without its directives

`LineByLine` states this, and that `LineOffset.correct` finds the line of the code from
which each line of the text comes.  The lines of a text depend on its pieces only
(`splitOn_append_append`), and those of the code around the directive are kept.
-/

namespace Playground

open Text

/-! ## Lines -/

/-- The number of lines of a text. -/
def lineCount (s : List Char) : Nat := (splitOn '\n' s).length

/-- A line of a text, from 1, if there is such a line. -/
def line? (s : List Char) : Nat → Option (List Char)
  | 0 => none
  | n + 1 => (splitOn '\n' s)[n]?

theorem line?_of_lt {s : List Char} {as bs : List (List Char)} (h : splitOn '\n' s = as ++ bs)
    {n : Nat} (hn : n < as.length) : line? s (n + 1) = as[n]? := by
  rw [line?, h, List.getElem?_append_left hn]

theorem line?_add {s : List Char} {as bs : List (List Char)} (h : splitOn '\n' s = as ++ bs)
    (n : Nat) : line? s (as.length + n + 1) = bs[n]? := by
  rw [line?, h, List.getElem?_append_right (Nat.le_add_right ..), Nat.add_sub_cancel_left]

/-- The line of the code from which a line of the compiled text comes.  The lines of the
header come from the line of the directive. -/
def LineOffset.origin (o : LineOffset) (n : Nat) : Nat :=
  if n ≤ o.includeLine then n
  else if n ≤ o.includeLine + o.headerLines then o.includeLine
  else n - o.headerLines

/-- The text is one that memory can hold. -/
def Fits (s : String) : Prop := Utf8.size s.toList < 2 ^ 63

instance (s : String) : Decidable (Fits s) := inferInstanceAs (Decidable (_ < _))

theorem count_le_size (c : Char) (s : List Char) : s.count c ≤ Utf8.size s := by
  have hpos : ∀ d : Char, 0 < (Utf8.encodeChar d).length := by
    intro d
    unfold Utf8.encodeChar
    dsimp only
    repeat' split
    all_goals exact Nat.succ_pos _
  induction s with
  | nil => exact Nat.le_refl 0
  | cons d s ih =>
    have hd := hpos d
    rw [List.count_cons, Utf8.size, List.foldr_cons, ← Utf8.size]
    split <;> omega

theorem Fits.newlines_lt {s : String} (h : Fits s) : newlines s.toList < 2 ^ 63 :=
  Nat.lt_of_le_of_lt (count_le_size '\n' s.toList) h

/-- An offset that stays below the bound of line numbers corrects every line. -/
theorem LineOffset.correct_eq_origin {o : LineOffset}
    (h : o.includeLine + o.headerLines < wordBound) (n : Nat) : o.correct n = .ok (o.origin n) := by
  rw [correct, origin]
  split
  · rfl
  · rw [if_neg (Nat.not_le_of_lt h)]
    split <;> rfl

theorem LineOffset.origin_le (o : LineOffset) (n : Nat) : o.origin n ≤ n := by
  unfold LineOffset.origin
  split
  · exact Nat.le_refl n
  · split <;> omega

/-- An offset that moves no line finds every line where it is. -/
theorem LineOffset.origin_of_isIdentity {o : LineOffset} (h : o.isIdentity = true) (n : Nat) :
    o.origin n = n := by
  have hzero : o.headerLines = 0 := by simpa [LineOffset.isIdentity] using h
  unfold LineOffset.origin
  split
  · rfl
  · split <;> omega

/-! ## Lines of texts put together -/

/-- Between two texts, a text changes only the piece on either side of it. -/
theorem splitOn_append_append {sep : Char} {a b c p q : List Char} {ps qs : List (List Char)}
    (ha : splitOn sep a = ps ++ [p]) (hc : splitOn sep c = q :: qs) (hp : sep ∉ p) (hq : sep ∉ q) :
    splitOn sep (a ++ (b ++ c)) = ps ++ (splitOn sep (p ++ (b ++ q)) ++ qs) := by
  obtain ⟨bs, z, hz⟩ := exists_splitOn_eq_concat sep b
  have hbc := splitOn_append hz hc
  have hbq := splitOn_append hz (splitOn_eq_singleton hq)
  have hp' : splitOn sep p = [] ++ [p] := splitOn_eq_singleton hp
  cases bs with
  | nil =>
    rw [splitOn_append ha hbc, splitOn_append hp' hbq]
    simp
  | cons y bs =>
    rw [splitOn_append ha hbc, splitOn_append hp' hbq]
    simp

/-- A piece of a text that has more before its first piece and behind its last one. -/
theorem getElem?_splitOn_append_append {sep : Char} {a b c p : List Char} {k : Nat}
    (ha : sep ∉ a) (hc : sep ∉ c) (h : (splitOn sep b)[k]? = some p) :
    (splitOn sep (a ++ (b ++ c)))[k]? =
      some ((if k = 0 then a else []) ++ (p ++ if k = b.count sep then c else [])) := by
  obtain ⟨bs, z, hz⟩ := exists_splitOn_eq_concat sep b
  have hbc := splitOn_append hz (splitOn_eq_singleton hc)
  have ha' : splitOn sep a = [] ++ [a] := splitOn_eq_singleton ha
  have hcount : bs.length = b.count sep := by
    have hlen := length_splitOn sep b
    rw [hz, List.length_append, List.length_singleton] at hlen
    omega
  rw [← hcount]
  rw [hz] at h
  -- The last piece is the one that takes what is behind.
  have hlast : (bs ++ [z ++ c])[k]? = some (p ++ if k = bs.length then c else []) := by
    rcases Nat.lt_trichotomy k bs.length with hk | hk | hk
    · rw [List.getElem?_append_left hk] at h ⊢
      rw [h, if_neg (Nat.ne_of_lt hk), List.append_nil]
    · rw [hk, List.getElem?_concat_length] at h ⊢
      rw [Option.some.inj h, if_pos rfl]
    · rw [List.getElem?_eq_none (by simp; omega)] at h
      cases h
  cases hbs : bs ++ [z ++ c] with
  | nil => simp at hbs
  | cons y ys =>
    rw [hbs] at hbc hlast
    rw [splitOn_append ha' hbc, List.nil_append]
    cases k with
    | zero => simpa using hlast
    | succ k => simpa using hlast

/-! ## Lines of the inlined text -/

/-- The lines of the text are those of the code with the header put in, and the offset
finds the line of the code from which each of them comes. -/
structure LineByLine (header code text : List Char) (o : LineOffset) : Prop where
  /-- The offset counts the newlines of the header. -/
  headerLines : o.headerLines = newlines header
  /-- The text has as many more lines. -/
  lineCount : lineCount text = lineCount code + o.headerLines
  /-- The lines above the directive are kept.  They hold none. -/
  above : ∀ n, n < o.includeLine → line? text n = line? code n ∧
    ∀ l, line? code n = some l → ¬HasDirective l
  /-- The line of the directive is cut in two at its first directive, and the header
  stands in between. -/
  inside : ∃ l a m r, line? code o.includeLine = some l ∧ FirstDirective l a m r ∧
    ∀ k, k ≤ o.headerLines → ∃ p, line? header (k + 1) = some p ∧
      line? text (o.includeLine + k) = some ((if k = 0 then a else []) ++
        (p ++ if k = o.headerLines then dropDirectives r else []))
  /-- The lines below it lose their directives. -/
  below : ∀ n, o.includeLine + o.headerLines < n →
    line? text n = (line? code (n - o.headerLines)).map dropDirectives
  /-- The offset corrects each line to the one from which it comes. -/
  correct : ∀ n, o.correct n = .ok (o.origin n)

/-- The directive and the lines around it, in a code with every directive on one line. -/
theorem FirstDirective.lines {code before m behind : List Char}
    (h : FirstDirective code before m behind) (hone : OneLine code) :
    ∃ as a r bs, splitOn '\n' before = as ++ [a] ∧ splitOn '\n' behind = r :: bs ∧
      splitOn '\n' code = as ++ (a ++ (m ++ r)) :: bs ∧
      FirstDirective (a ++ (m ++ r)) a m r ∧ ∀ l ∈ as, ¬HasDirective l := by
  obtain ⟨as, a, ha⟩ := exists_splitOn_eq_concat '\n' before
  obtain ⟨r, bs, hr⟩ := exists_splitOn_eq_cons '\n' behind
  have hm : '\n' ∉ m := hone before m behind h.eq h.directive
  have hm' : splitOn '\n' m = [] ++ [m] := splitOn_eq_singleton hm
  have hmr : splitOn '\n' (m ++ behind) = (m ++ r) :: bs := splitOn_append hm' hr
  refine ⟨as, a, r, bs, ha, hr, ?_, ⟨rfl, h.directive, ?_⟩, ?_⟩
  · rw [h.eq, splitOn_append ha hmr]
  · -- A directive of the line is one of the code.
    intro b n t heq hn
    have hr' : splitOn '\n' behind = [] ++ r :: bs := hr
    obtain ⟨x, y, hx, -, hy⟩ := exists_eq_append_of_splitOn ha
    obtain ⟨x', y', hbehind, hx', -⟩ := exists_eq_append_of_splitOn hr'
    rw [hy rfl, List.append_nil] at hx
    rw [hx' rfl, List.nil_append] at hbehind
    have hcode : code = (x ++ b) ++ (n ++ (t ++ y')) := by
      calc code = x ++ ((a ++ (m ++ r)) ++ y') := by
            rw [h.eq, hx, hbehind]
            simp only [List.append_assoc]
        _ = (x ++ b) ++ (n ++ (t ++ y')) := by
            rw [heq]
            simp only [List.append_assoc]
    have hfirst := h.first (x ++ b) n (t ++ y') hcode hn
    rw [hx, List.length_append, List.length_append] at hfirst
    omega
  · -- A directive of a line above starts before the first one.
    rintro l hl ⟨b, n, t, heq, hn⟩
    obtain ⟨ls, rs, hlr⟩ := List.append_of_mem hl
    rw [hlr, List.append_assoc, List.cons_append] at ha
    obtain ⟨x, y, hx, -⟩ := exists_eq_append_of_splitOn ha
    have hcode : code = (x ++ b) ++ (n ++ (t ++ y ++ (m ++ behind))) := by
      rw [h.eq, hx, heq]
      simp only [List.append_assoc]
    have hfirst := h.first (x ++ b) n _ hcode hn
    have hlen := List.length_pos_iff.mpr hn.ne_nil
    rw [hx, heq] at hfirst
    simp only [List.length_append] at hfirst
    omega

/-- The line of the first directive is found by looking at one line after the other. -/
theorem includeLine?_eq {code l : List Char} {as bs : List (List Char)}
    (h : splitOn '\n' code = as ++ l :: bs) (hl : HasDirective l)
    (has : ∀ k ∈ as, ¬HasDirective k) : includeLine? code = some (as.length + 1) := by
  have hnone : as.findIdx? hasDirective = none := by
    rw [List.findIdx?_eq_none_iff]
    intro k hk
    rw [Bool.eq_false_iff]
    exact fun hd => has k hk (hasDirective_iff.mp hd)
  rw [includeLine?, h, List.findIdx?_append, hnone, List.findIdx?_cons, hasDirective_iff.mpr hl]
  simp

/-- A header that stands is kept, and so is what is before it. -/
theorem Stands.dropDirectives_eq {header code before m behind : List Char}
    (hs : Stands header code) (h : FirstDirective code before m behind) :
    dropDirectives (before ++ header ++ behind) =
      before ++ (header ++ dropDirectives behind) := by
  rw [dropDirectives_append, List.append_assoc]
  intro p q hpq hq
  cases hat : directiveAt? (q ++ behind) with
  | none => rfl
  | some t =>
    obtain ⟨n, hn, heq⟩ := directiveAt?_eq_some_iff.mp hat
    have hle := hs before m behind h p n t
      (by rw [← List.append_assoc, hpq, List.append_assoc, heq]) hn
    have hlen := List.length_pos_iff.mpr hq
    rw [hpq, List.length_append] at hle
    omega

/-- The lines of the text in which a header takes the place of the first directive. -/
theorem FirstDirective.lineByLine {header code before m behind : List Char}
    (h : FirstDirective code before m behind) (hone : OneLine code) (hs : Stands header code)
    (hcode : newlines code < 2 ^ 63) (hheader : newlines header < 2 ^ 63) :
    ∃ line, includeLine? code = some line ∧
      LineByLine header code (dropDirectives (before ++ header ++ behind))
        ⟨newlines header, line⟩ := by
  obtain ⟨as, a, r, bs, hbefore, hbehind, hlines, hfirst, has⟩ := h.lines hone
  have hbehindOne : OneLine behind := OneLine.right (a := m) (OneLine.right (h.eq ▸ hone))
  have hdrop : splitOn '\n' (dropDirectives behind) =
      dropDirectives r :: bs.map dropDirectives := by
    rw [splitOn_dropDirectives hbehindOne, hbehind, List.map_cons]
  have ha : '\n' ∉ a := not_mem_of_mem_splitOn (hbefore ▸ List.mem_append_right as (by simp))
  have hr : '\n' ∉ dropDirectives r :=
    not_mem_of_mem_splitOn (hdrop ▸ List.mem_cons_self ..)
  -- The lines of the text in three parts, of which the middle one is the header.
  have htext : splitOn '\n' (dropDirectives (before ++ header ++ behind)) =
      as ++ (splitOn '\n' (a ++ (header ++ dropDirectives r)) ++ bs.map dropDirectives) := by
    rw [hs.dropDirectives_eq h, splitOn_append_append hbefore hdrop ha hr]
  have hmiddle : (splitOn '\n' (a ++ (header ++ dropDirectives r))).length =
      newlines header + 1 := by
    rw [length_splitOn, List.count_append, List.count_append, List.count_eq_zero_of_not_mem ha,
      List.count_eq_zero_of_not_mem hr, newlines]
    omega
  have hcount : as.length ≤ newlines code := by
    have hlen := length_splitOn '\n' code
    rw [hlines, List.length_append, List.length_cons] at hlen
    rw [newlines]
    omega
  refine ⟨as.length + 1, includeLine?_eq hlines ⟨a, m, r, rfl, h.directive⟩ has, ?_⟩
  constructor
  case headerLines => rfl
  case lineCount =>
    rw [lineCount, lineCount, htext, hlines, List.length_append, List.length_append, hmiddle,
      List.length_append, List.length_cons, List.length_map]
    dsimp only
    omega
  case above =>
    intro n hn
    cases n with
    | zero => exact ⟨rfl, fun l hl => by cases hl⟩
    | succ n =>
      have hn' : n < as.length := Nat.lt_of_succ_lt_succ hn
      rw [line?_of_lt htext hn', line?_of_lt hlines hn']
      exact ⟨rfl, fun l hl => has l (List.mem_of_getElem? hl)⟩
  case inside =>
    refine ⟨a ++ (m ++ r), a, m, r, line?_add hlines 0, hfirst, ?_⟩
    intro k hk
    have hk' : k < newlines header + 1 := Nat.lt_succ_of_le hk
    obtain ⟨p, hp⟩ : ∃ p, (splitOn '\n' header)[k]? = some p :=
      ⟨_, List.getElem?_eq_getElem (by rwa [length_splitOn])⟩
    refine ⟨p, hp, ?_⟩
    rw [Nat.add_right_comm, line?_add htext, List.getElem?_append_left (hmiddle ▸ hk'),
      getElem?_splitOn_append_append ha hr hp]
    rfl
  case below =>
    intro n hn
    dsimp only at hn ⊢
    -- Both lines have the same number among the lines below the directive.
    obtain ⟨j, rfl⟩ : ∃ j, n = as.length + (newlines header + 1 + j) + 1 :=
      ⟨n - (as.length + newlines header + 2), by omega⟩
    have hsub : as.length + (newlines header + 1 + j) + 1 - newlines header =
        as.length + (j + 1) + 1 := by omega
    rw [hsub, line?_add htext, line?_add hlines, ← hmiddle,
      List.getElem?_append_right (Nat.le_add_right ..), Nat.add_sub_cancel_left,
      List.getElem?_cons_succ, List.getElem?_map]
  case correct =>
    apply LineOffset.correct_eq_origin
    rw [wordBound]
    dsimp only
    omega

/-- What putting a header into a code gives. -/
def Inlined (header code : String) (result : LineOffset × String) : Prop :=
  (HasDirective code.toList →
    LineByLine header.toList code.toList result.2.toList result.1) ∧
  (¬HasDirective code.toList → result = (.identity, code))

theorem inlined_inlineHeader {header code : String} (hone : OneLine code.toList)
    (hcode : Fits code) (hheader : newlines header.toList < 2 ^ 63)
    (hs : Stands header.toList code.toList) : Inlined header code (inlineHeader header code) := by
  cases hsplit : splitDirective? code.toList with
  | none =>
    have hno := splitDirective?_eq_none_iff.mp hsplit
    refine ⟨fun h => absurd h hno, fun _ => ?_⟩
    rw [inlineHeader, hsplit]
    cases includeLine? code.toList <;> rfl
  | some parts =>
    obtain ⟨before, behind⟩ := parts
    obtain ⟨m, hm⟩ := firstDirective_of_splitDirective? hsplit
    obtain ⟨line, hline, hlines⟩ := hm.lineByLine hone hs hcode.newlines_lt hheader
    refine ⟨fun _ => ?_, fun h => absurd ⟨before, m, behind, hm.eq, hm.directive⟩ h⟩
    rw [inlineHeader, hsplit, hline]
    dsimp only
    rw [String.toList_ofList]
    exact hlines

theorem newlines_bundledHeader_lt : newlines bundledHeader.toList < 2 ^ 63 := by
  rw [newlines_bundledHeader]
  decide +kernel

theorem inlined_includeHeader {code : String} (hone : OneLine code.toList) (hcode : Fits code) :
    Inlined bundledHeader code (includeHeader code) := by
  rw [includeHeader]
  exact inlined_inlineHeader hone hcode newlines_bundledHeader_lt (stands_bundledHeader code.toList)

/-- In a code with every directive on one line, putting in the bundled header or any
header that stays whole there shifts the lines as the offset says. -/
theorem inlined_line_by_line (code : String) (hone : OneLine code.toList) (hcode : Fits code) :
    Inlined bundledHeader code (includeHeader code) ∧
    ∀ header : String, Fits header → Stands header.toList code.toList →
      Inlined header code (inlineHeader header code) :=
  ⟨inlined_includeHeader hone hcode, fun _ hheader hs =>
    inlined_inlineHeader hone hcode hheader.newlines_lt hs⟩

/-- A code with two directives on a line of its own end. -/
def twoDirectives : String :=
  "int a;\r\n #\tinclude <ctp/ctp.hpp> // #include<ctp/ctp.hpp>\r\nint b;"

theorem inlined_twoDirectives :
    OneLine twoDirectives.toList ∧ Fits twoDirectives ∧
      Fits ";\n" ∧ Stands ";\n".toList twoDirectives.toList ∧
      HasDirective twoDirectives.toList ∧
      Inlined bundledHeader twoDirectives (includeHeader twoDirectives) ∧
      Inlined ";\n" twoDirectives
        (⟨1, 2⟩, "int a;\r\n ;\n // \r\nint b;") := by
  have hone : OneLine twoDirectives.toList := by decide +kernel
  have hcode : Fits twoDirectives := by decide +kernel
  have hheader : Fits ";\n" := by decide +kernel
  have hs : Stands ";\n".toList twoDirectives.toList :=
    stands_of_closed (closed_of_noneOpens (by decide +kernel))
      ⟨[], ';', ['\n'], by decide +kernel, by decide, by decide, by decide⟩ _
  have hresult : inlineHeader ";\n" twoDirectives =
      (⟨1, 2⟩, "int a;\r\n ;\n // \r\nint b;") := by decide +kernel
  have hhas : HasDirective twoDirectives.toList := hasDirective_iff.mp (by decide +kernel)
  have h := inlined_line_by_line twoDirectives hone hcode
  have hother := h.2 ";\n" hheader hs
  rw [hresult] at hother
  exact ⟨hone, hcode, hheader, hs, hhas, h.1, hother⟩

end Playground
