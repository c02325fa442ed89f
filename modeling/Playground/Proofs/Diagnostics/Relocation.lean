import Playground.Proofs.Diagnostics.Cuts
import Playground.Proofs.Diagnostics.Gutters
import Playground.Proofs.Diagnostics.Pattern
import Playground.Proofs.Header.Lines
import Playground.Proofs.Text.Digits

/-!
# Relocated diagnostics

Moving the line numbers of a message to the user's text moves what is found in it.  This
holds of every pattern that matches at references only and goes along with other digits
in them (`Follows`): headlines and diagnostics are two.  What is found stays where it is,
with the same column and the same word, and the line number and the references in its text
become those of the user's text (`exists_correctLineNumbers_eq`).  In a message without
references such a pattern finds nothing, neither before nor after its gutter is corrected.
-/

namespace Playground

open Text

/-- The pattern matches at references only, and where they get other digits it matches as
before and gives what `g` makes of the old match. -/
structure Follows {α : Type} (p : List Char → Option α) (f : List Char → List Char)
    (g : α → α) : Prop where
  /-- It matches at references only. -/
  atReference : ∀ s, referenceAt? s = none → p s = none
  /-- It goes along with other digits. -/
  renumbered : ∀ s, p (renumber f s) = (p s).map g

/-- The headline with other digits. -/
def Headline.renumbered (f : List Char → List Char) (h : Headline) : Headline where
  line := f h.line
  column := h.column
  word := h.word
  rest := renumber f h.rest

/-- The diagnostic with other digits. -/
def Diagnostic.renumbered (f : List Char → List Char) (d : Diagnostic) : Diagnostic where
  number := f d.number
  column := d.column
  word := d.word
  gap := d.gap
  text := renumber f d.text

variable {f : List Char → List Char}

/-! ## Patterns that follow -/

theorem exists_renumber_eq_cons (c : Char) (s : List Char) :
    ∃ t, renumber f (c :: s) = c :: t :=
  List.head?_eq_some_iff.mp (head?_renumber (c :: s))

theorem severityWordAt?_renumber (s : List Char) :
    severityWordAt? (renumber f s) =
      (severityWordAt? s).map fun found => (found.1, renumber f found.2) := by
  have hword : ∀ w ∈ severityWords, '<' ∉ w ++ [':'] := by decide
  rw [severityWordAt?, severityWordAt?]
  generalize severityWords = ws at hword
  induction ws with
  | nil => rfl
  | cons w ws ih =>
    rw [List.findSome?_cons, List.findSome?_cons,
      after?_renumber (hword w (List.mem_cons_self ..)),
      ih fun v hv => hword v (List.mem_cons_of_mem w hv)]
    cases after? (w ++ [':']) s <;> rfl

theorem headlineAt?_renumber (hf : KeepsDigits f) (s : List Char) :
    headlineAt? (renumber f s) = (headlineAt? s).map (Headline.renumbered f) := by
  rw [headlineAt?, headlineAt?, referenceAt?_renumber hf]
  cases referenceAt? s with
  | none => rfl
  | some found =>
    obtain ⟨ds, r⟩ := found
    simp only [Option.map_some, Option.bind_eq_bind, Option.bind_some]
    rw [after?_renumber (by decide)]
    cases after? [':'] r with
    | none => rfl
    | some s2 =>
      have hbracket : isDigit '<' = false := by decide
      obtain ⟨htake, hdrop⟩ := takeWhile_renumber (f := f) hbracket s2
      simp only [Option.map_some, Option.bind_some, htake, hdrop]
      split
      · rfl
      · rw [after?_renumber (by decide)]
        cases after? [':', ' '] (s2.dropWhile isDigit) with
        | none => rfl
        | some s3 =>
          simp only [Option.map_some, Option.bind_some, severityWordAt?_renumber]
          cases severityWordAt? s3 <;> rfl

theorem capture?_renumber (hf : KeepsDigits f) (s : List Char) :
    capture? (renumber f s) = (capture? s).map fun found => (found.1, renumber f found.2) := by
  have hbracket : isSpace '<' = false := by decide
  cases s with
  | nil =>
    rw [renumber_nil]
    rfl
  | cons c s =>
    by_cases hc : isSpace c = true
    · have hne : c ≠ '<' := by
        rintro rfl
        cases hc
      obtain ⟨htake, hdrop⟩ := takeWhile_renumber (f := f) hbracket s
      rw [renumber_cons hne, capture?, capture?, if_pos hc, if_pos hc, trimStart, hdrop, htake,
        ← trimStart]
      cases hr : trimStart s with
      | cons d r =>
        obtain ⟨t, ht⟩ := exists_renumber_eq_cons (f := f) d r
        have hline := takeWhile_newline_renumber hf (d :: r)
        rw [ht] at hline ⊢
        dsimp only [Option.map_some]
        rw [hline]
      | nil =>
        have hs : '<' ∉ s := by
          intro h
          have := List.dropWhile_eq_nil_iff.mp hr '<' h
          cases this
        have hself : renumber f s = s := by
          have happ := renumber_append (f := f) hs []
          rwa [renumber_nil, List.append_nil] at happ
        rw [renumber_nil, hself]
        dsimp only
        cases hk : s.reverse.dropWhile (· = '\n') with
        | nil => rfl
        | cons d k =>
          have hd : d ≠ '<' := by
            rintro rfl
            obtain ⟨-, ns, heq, -⟩ := eq_of_dropWhile_newline hk
            exact hs (heq ▸ by simp)
          rw [Option.map_some, renumber_cons hd, renumber_nil]
    · obtain ⟨t, ht⟩ := exists_renumber_eq_cons (f := f) c s
      rw [ht, capture?, capture?, if_neg hc, if_neg hc]
      rfl

theorem diagnostic?_renumber (hf : KeepsDigits f) (s : List Char) :
    diagnostic? (renumber f s) = (diagnostic? s).map (Diagnostic.renumbered f) := by
  rw [diagnostic?, diagnostic?, headlineAt?_renumber hf]
  cases headlineAt? s with
  | none => rfl
  | some h =>
    simp only [Option.map_some, Option.bind_some, Headline.renumbered, capture?_renumber hf]
    cases capture? h.rest <;> rfl

theorem headlineAt?_of_none {s : List Char} (h : referenceAt? s = none) : headlineAt? s = none := by
  rw [headlineAt?, h]
  rfl

theorem follows_headlineAt? (hf : KeepsDigits f) :
    Follows headlineAt? f (Headline.renumbered f) where
  atReference := fun _ h => headlineAt?_of_none h
  renumbered := headlineAt?_renumber hf

theorem follows_diagnostic? (hf : KeepsDigits f) :
    Follows diagnostic? f (Diagnostic.renumbered f) where
  atReference := by
    intro s h
    rw [diagnostic?, headlineAt?_of_none h]
    rfl
  renumbered := diagnostic?_renumber hf

/-! ## What is found in a renumbered message -/

namespace Follows

variable {α : Type} {p : List Char → Option α} {g : α → α}

/-- Nothing is found before the next angle bracket. -/
theorem search?_append (h : Follows p f g) {a : List Char} (ha : '<' ∉ a) (s : List Char) :
    search? p (a ++ s) = search? p s := by
  apply Text.search?_append
  intro u v huv hv
  obtain ⟨c, v, rfl⟩ := List.exists_cons_of_ne_nil hv
  refine h.atReference _ (referenceAt?_of_ne ?_ _)
  rintro rfl
  exact ha (huv ▸ by simp)

theorem search?_renumber (h : Follows p f g) (hf : KeepsDigits f) (s : List Char) :
    search? p (renumber f s) = (search? p s).map g := by
  induction s using pieces.induct with
  | case1 =>
    have hnil : p [] = none := h.atReference [] rfl
    rw [renumber_nil, search?, hnil]
    rfl
  | case2 c s hnone ih =>
    have hold : p (c :: s) = none := h.atReference _ hnone
    have hnew : p (c :: renumber f s) = none := by
      rw [← renumber_of_none hnone, h.renumbered, hold, Option.map_none]
    rw [renumber_of_none hnone, search?_of_none hnew, search?_of_none hold, ih]
  | case3 c s ds r hsome ih =>
    obtain ⟨hs, hne, hds, -⟩ := eq_of_referenceAt? hsome
    have hat := h.renumbered (c :: s)
    cases hd : p (c :: s) with
    | some d =>
      rw [hd] at hat
      rw [search?_of_some hat, search?_of_some hd, Option.map_some]
    | none =>
      rw [hd, Option.map_none, renumber_of_some hsome, sourceMark, List.cons_append] at hat
      rw [search?_of_none hd, renumber_of_some hsome, sourceMark, List.cons_append,
        search?_of_none hat]
      -- The rest of the reference holds no angle bracket, before and after.
      have hnot : ∀ es : List Char, (∀ c ∈ es, isDigit c = true) →
          '<' ∉ ['s', 'o', 'u', 'r', 'c', 'e', '>', ':'] ++ es := by
        intro es hes hmem
        cases List.mem_append.mp hmem with
        | inl h' => exact absurd h' (by decide)
        | inr h' => cases hes '<' h'
      have hs' : s = (['s', 'o', 'u', 'r', 'c', 'e', '>', ':'] ++ ds) ++ r := by
        rw [List.append_assoc]
        exact (List.cons.inj hs).2
      rw [← List.append_assoc, h.search?_append (hnot _ (hf ds hne hds).2), ih, hs',
        h.search?_append (hnot _ hds)]

/-- Nothing is found in a message without the number of a reference. -/
theorem search?_of_any (h : Follows p f g) {s : List Char}
    (hany : (pieces s).any Piece.isNumber = false) : search? p s = none := by
  induction s using pieces.induct with
  | case1 => exact h.atReference [] rfl
  | case2 c s hnone ih =>
    rw [pieces_of_none hnone, List.any_cons, Bool.or_eq_false_iff] at hany
    rw [search?_of_none (h.atReference _ hnone), ih hany.2]
  | case3 c s ds r hsome ih =>
    rw [pieces_of_some hsome, List.any_append, List.any_cons] at hany
    simp [Piece.isNumber] at hany

end Follows

/-! ## Line numbers of the user's text -/

/-- The digits of a line of the compiled text, as the user's text has them.  Digits that
name no line number stay as they are, and so do all if no line is moved. -/
def LineOffset.relocation (o : LineOffset) (ds : List Char) : List Char :=
  if o.isIdentity then ds
  else
    match readWord? ds with
    | none => ds
    | some n => wordDigits (o.origin n)

theorem LineOffset.keepsDigits_relocation (o : LineOffset) : KeepsDigits o.relocation := by
  intro ds hne hds
  unfold LineOffset.relocation
  split
  · exact ⟨hne, hds⟩
  · split
    · exact ⟨hne, hds⟩
    · exact ⟨wordDigits_ne_nil _, fun c hc => isDigit_of_ascii (isDigit_of_mem_wordDigits hc)⟩

/-- The number of a relocated line is the number of the line from which it comes. -/
theorem LineOffset.readWord?_relocation (o : LineOffset) (ds : List Char) :
    readWord? (o.relocation ds) = (readWord? ds).map o.origin := by
  unfold LineOffset.relocation
  split
  · next h =>
    cases hn : readWord? ds with
    | none => rfl
    | some n => rw [Option.map_some, o.origin_of_isIdentity h]
  · split
    · next h => rw [h, Option.map_none]
    · next n h =>
      have hlt := Nat.lt_of_le_of_lt (o.origin_le n) (readWord?_lt h)
      rw [h, Option.map_some, readWord?_wordDigits hlt]

/-- The number of the gutter is to be corrected, and it ends behind more columns than can be
filled. -/
def Overwide (o : LineOffset) (s : List Char) : Prop :=
  0 < o.headerLines ∧ ¬HasReference s ∧
    ∃ g n, IsGutter s g ∧ readWord? g.number = some n ∧ maxWidth < g.width

/-- A gutter is corrected without a change of what is found behind it. -/
theorem exists_correctGutter_eq {o : LineOffset} (ho : ∀ n, o.correct n = .ok (o.origin n))
    {s : List Char} (hwidth : ∀ g n, IsGutter s g → readWord? g.number = some n →
      g.width ≤ maxWidth) :
    ∃ t, correctGutter o s = .ok t ∧
      ∀ {α : Type} {p : List Char → Option α} {g : α → α}, Follows p f g →
        search? p t = search? p s := by
  by_cases hgutter : ∃ g n, IsGutter s g ∧ readWord? g.number = some n
  case neg =>
    exact ⟨s, correctGutter_of_forall_ne fun g n hg hn => hgutter ⟨g, n, hg, hn⟩, fun _ => rfl⟩
  case pos =>
    obtain ⟨g, n, hg, hn⟩ := hgutter
    refine ⟨_, correctGutter_of_width_le hg hn (ho n) (hwidth g n hg hn), fun hp => ?_⟩
    have hnew : '<' ∉ (wordDigits (o.origin n)).leftpad g.width ' ' := by
      intro hmem
      cases List.mem_append.mp hmem with
      | inl h' => cases List.eq_of_mem_replicate h'
      | inr h' => cases isDigit_of_mem_wordDigits h'
    conv_rhs => rw [hg.eq]
    rw [hp.search?_append hnew, ← List.append_assoc, hp.search?_append hg.bracket_notMem]

/-- Each piece of a message is moved by itself. -/
theorem mapM_corrected {o : LineOffset} (ho : ∀ n, o.correct n = .ok (o.origin n))
    (hid : o.isIdentity = false) (ps : List Piece) :
    ps.mapM (Piece.corrected o) = .ok (ps.map (Piece.renumbered o.relocation)) := by
  have hpiece : ∀ p, Piece.corrected o p = .ok (Piece.renumbered o.relocation p) := by
    intro p
    cases p with
    | char c => rfl
    | number ds =>
      rw [Piece.corrected, Piece.renumbered, correctDigits, LineOffset.relocation, hid]
      cases readWord? ds with
      | none => rfl
      | some n =>
        dsimp only
        rw [ho n]
        rfl
  induction ps with
  | nil => rfl
  | cons p ps ih =>
    rw [List.mapM_cons, hpiece, ih]
    rfl

theorem correctLineNumbers_of_isIdentity {o : LineOffset} (h : o.isIdentity = true)
    (s : List Char) : correctLineNumbers o s = .ok s := by
  rw [correctLineNumbers, if_pos h]

theorem correctLineNumbers_of_any {o : LineOffset} (ho : ∀ n, o.correct n = .ok (o.origin n))
    (hid : o.isIdentity = false) {s : List Char} (hany : (pieces s).any Piece.isNumber = true) :
    correctLineNumbers o s = .ok (renumber o.relocation s) := by
  rw [correctLineNumbers, hid, if_neg Bool.false_ne_true, if_pos hany, mapM_corrected ho hid]
  rfl

theorem correctLineNumbers_of_not_any {o : LineOffset} (hid : o.isIdentity = false) {s : List Char}
    (hany : (pieces s).any Piece.isNumber = false) : correctLineNumbers o s = correctGutter o s := by
  rw [correctLineNumbers, hid, hany, if_neg Bool.false_ne_true, if_neg Bool.false_ne_true]

theorem LineOffset.isIdentity_eq_true_iff {o : LineOffset} :
    o.isIdentity = true ↔ o.headerLines = 0 := beq_iff_eq

/-- An offset that moves lines is not the identity. -/
theorem LineOffset.isIdentity_eq_false_iff {o : LineOffset} :
    o.isIdentity = false ↔ 0 < o.headerLines := by
  rw [← Bool.not_eq_true, isIdentity_eq_true_iff, Nat.pos_iff_ne_zero]

theorem correctLineNumbers_of_overwide {o : LineOffset} (ho : ∀ n, o.correct n = .ok (o.origin n))
    {s : List Char} (h : Overwide o s) : correctLineNumbers o s = .error .tooWide := by
  obtain ⟨hmoves, hnone, g, n, hg, hn, hwidth⟩ := h
  rw [correctLineNumbers_of_not_any (LineOffset.isIdentity_eq_false_iff.mpr hmoves)
    (any_isNumber_eq_false_iff.mpr hnone)]
  exact correctGutter_of_lt_width hg hn (ho n) hwidth

/-- Correcting a message moves what a pattern that follows finds in it. -/
theorem exists_correctLineNumbers_eq {o : LineOffset} (ho : ∀ n, o.correct n = .ok (o.origin n))
    {s : List Char} (hs : ¬Overwide o s) :
    ∃ t, correctLineNumbers o s = .ok t ∧
      ∀ {α : Type} {p : List Char → Option α} {g : α → α}, Follows p o.relocation g →
        search? p t = (search? p s).map g := by
  cases hid : o.isIdentity with
  | true =>
    have hself : ∀ ds, o.relocation ds = ds := by
      intro ds
      rw [LineOffset.relocation, if_pos hid]
    refine ⟨s, correctLineNumbers_of_isIdentity hid s, fun hp => ?_⟩
    rw [← hp.search?_renumber o.keepsDigits_relocation, renumber_eq_self hself]
  | false =>
    cases hany : (pieces s).any Piece.isNumber with
    | true =>
      exact ⟨renumber o.relocation s, correctLineNumbers_of_any ho hid hany,
        fun hp => hp.search?_renumber o.keepsDigits_relocation s⟩
    | false =>
      have hwidth : ∀ g n, IsGutter s g → readWord? g.number = some n → g.width ≤ maxWidth := by
        intro g n hg hn
        refine Nat.not_lt.mp fun hlt => hs ⟨LineOffset.isIdentity_eq_false_iff.mp hid,
          any_isNumber_eq_false_iff.mp hany, g, n, hg, hn, hlt⟩
      obtain ⟨t, ht, hsearch⟩ := exists_correctGutter_eq ho hwidth
      refine ⟨t, (correctLineNumbers_of_not_any hid hany).trans ht, fun hp => ?_⟩
      rw [hsearch hp, hp.search?_of_any hany, Option.map_none]

/-- A message is corrected exactly if its gutter is not too wide. -/
theorem exists_correctLineNumbers_iff {o : LineOffset} (ho : ∀ n, o.correct n = .ok (o.origin n))
    {s : List Char} : (∃ t, correctLineNumbers o s = .ok t) ↔ ¬Overwide o s := by
  constructor
  · rintro ⟨t, ht⟩ hs
    cases ht.symm.trans (correctLineNumbers_of_overwide ho hs)
  · intro hs
    obtain ⟨t, ht, -⟩ := exists_correctLineNumbers_eq ho hs
    exact ⟨t, ht⟩

/-- What is found in a corrected message is what was found in the message, moved. -/
theorem search?_of_correctLineNumbers {o : LineOffset} (ho : ∀ n, o.correct n = .ok (o.origin n))
    {s t : List Char} (ht : correctLineNumbers o s = .ok t) {α : Type} {p : List Char → Option α}
    {g : α → α} (hp : Follows p o.relocation g) : search? p t = (search? p s).map g := by
  obtain ⟨t', ht', hmoved⟩ :=
    exists_correctLineNumbers_eq ho ((exists_correctLineNumbers_iff ho).mp ⟨t, ht⟩)
  rw [ht] at ht'
  cases ht'
  exact hmoved hp

end Playground
