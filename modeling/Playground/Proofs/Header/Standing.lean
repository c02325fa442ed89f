import Playground.Proofs.Header.Directive

/-!
# Headers that stay whole

A header takes the place of the first directive of a code, and then every directive of
the text is taken out.  `Stands` says that the header and what is before it stay as they
are: no directive starts before the end of the header.  A header may fail to stand
because it holds a directive, or because it makes up one with the code around it.

A header stands in every code if no directive can start in it, whatever follows, and
none can reach into it (`stands_of_closed`).  For the bundled header the first is checked
line by line (`noneOpens`), and the second holds since it starts with a slash and a star.
-/

namespace Playground

open Text

/-- No directive starts before the end of the header in the place of the first
directive. -/
def Stands (header code : List Char) : Prop :=
  ∀ a m r, FirstDirective code a m r → ∀ b n t, a ++ (header ++ r) = b ++ (n ++ t) →
    IsDirective n → (a ++ header).length ≤ b.length

/-! ## Texts in which no directive can start -/

/-- The texts agree as far as both go. -/
def agrees : List Char → List Char → Bool
  | [], _ => true
  | _ :: _, [] => true
  | a :: p, c :: s => a = c && agrees p s

/-- A directive can start at the start of the text, and go on behind its end. -/
def opens : List Char → Bool
  | [] => true
  | c :: s => c = '#' && agrees includeWord (trimStart s) &&
      agrees headerName (trimStart ((trimStart s).drop includeWord.length))

/-- A directive can start nowhere in the text. -/
def noneOpens : List Char → Bool
  | [] => true
  | c :: s => !opens (c :: s) && noneOpens s

theorem agrees_append (p s : List Char) : agrees p (p ++ s) = true := by
  induction p with
  | nil => rfl
  | cons a p ih => simp [agrees, ih]

theorem agrees_of_append {p : List Char} : ∀ {s t : List Char}, agrees p (s ++ t) = true →
    agrees p s = true := by
  induction p with
  | nil => intro s t _; cases s <;> rfl
  | cons a p ih =>
    intro s t h
    cases s with
    | nil => rfl
    | cons c s =>
      simp only [List.cons_append, agrees, Bool.and_eq_true] at h ⊢
      exact ⟨h.1, ih h.2⟩

/-- Trimming a text and trimming it with more behind agree as far as the text goes. -/
theorem trimStart_append_cases (s t : List Char) :
    trimStart s = [] ∨ trimStart (s ++ t) = trimStart s ++ t := by
  obtain ⟨v, hv, hs⟩ := exists_eq_append_trimStart s
  cases h : trimStart s with
  | nil => exact Or.inl rfl
  | cons c u =>
    have hc : isSpace c = false := eq_false_of_head?_dropWhile (congrArg List.head? h)
    refine Or.inr ?_
    rw [hs, h, List.append_assoc, trimStart_append hv, List.cons_append, trimStart_cons hc]

theorem opens_of_isDirective {s t n r : List Char} (hn : IsDirective n) (hs : s ++ t = n ++ r) :
    opens s = true := by
  cases s with
  | nil => rfl
  | cons c s =>
    obtain ⟨v, w, hv, hw, rfl⟩ := hn
    rw [List.cons_append, List.cons_append] at hs
    obtain ⟨hc, hs⟩ := List.cons.inj hs
    simp only [List.append_assoc] at hs
    have hinc : trimStart (s ++ t) = includeWord ++ (w ++ (headerName ++ r)) :=
      hs ▸ trimStart_append_includeWord hv _
    have hname := trimStart_append_headerName hw r
    simp only [opens, hc, decide_true, Bool.true_and, Bool.and_eq_true]
    cases trimStart_append_cases s t with
    | inl hnil =>
      rw [hnil]
      exact ⟨rfl, rfl⟩
    | inr happ =>
      rw [happ] at hinc
      refine ⟨agrees_of_append (t := t) (hinc ▸ agrees_append includeWord _), ?_⟩
      -- What is left of the text behind the word, if it goes as far.
      by_cases hlen : includeWord.length ≤ (trimStart s).length
      · have hdrop : (trimStart s).drop includeWord.length ++ t = w ++ (headerName ++ r) := by
          rw [← List.drop_append_of_le_length hlen, hinc, List.drop_left]
        cases trimStart_append_cases ((trimStart s).drop includeWord.length) t with
        | inl hnil =>
          rw [hnil]
          rfl
        | inr happ' =>
          rw [hdrop, hname] at happ'
          exact agrees_of_append (t := t) (happ' ▸ agrees_append headerName r)
      · rw [List.drop_of_length_le (Nat.le_of_not_le hlen)]
        rfl

/-- No directive starts in the text, whatever follows. -/
def Closed (s : List Char) : Prop :=
  ∀ p q t, s = p ++ q → q ≠ [] → directiveAt? (q ++ t) = none

theorem closed_of_noneOpens {s : List Char} (h : noneOpens s = true) : Closed s := by
  intro p q t hs hq
  subst hs
  induction p with
  | nil =>
    obtain ⟨c, q', rfl⟩ := List.exists_cons_of_ne_nil hq
    simp only [List.nil_append, noneOpens, Bool.and_eq_true, Bool.not_eq_true'] at h
    cases hd : directiveAt? (c :: q' ++ t) with
    | none => rfl
    | some r =>
      obtain ⟨n, hn, heq⟩ := directiveAt?_eq_some_iff.mp hd
      rw [opens_of_isDirective hn heq] at h
      cases h.1
  | cons c p ih =>
    simp only [List.cons_append, noneOpens, Bool.and_eq_true] at h
    exact ih h.2

theorem Closed.append {a b : List Char} (ha : Closed a) (hb : Closed b) : Closed (a ++ b) := by
  intro p q t hs hq
  rcases List.append_eq_append_iff.mp hs with ⟨c, rfl, rfl⟩ | ⟨c, rfl, rfl⟩
  · exact hb c q t rfl hq
  · cases c with
    | nil => exact hb [] b t rfl hq
    | cons d c =>
      rw [List.append_assoc]
      exact ha p (d :: c) (b ++ t) rfl (List.cons_ne_nil d c)

/-! ## Headers that no directive reaches into -/

/-- No directive ends at the start of the text, up to a character that no directive
holds. -/
def Guarded (s : List Char) : Prop :=
  ∃ u c t, s = u ++ c :: t ∧ '>' ∉ u ∧ isSpace c = false ∧ c ∉ '#' :: (includeWord ++ headerName)

/-- No directive reaches from a text before a guarded one into it. -/
theorem Guarded.exists_eq_append {s p n r t : List Char} (hs : Guarded s) (hn : IsDirective n)
    (h : p ++ (s ++ r) = n ++ t) : ∃ x, p = n ++ x := by
  obtain ⟨u, c, v, rfl, hu, hspace, hc⟩ := hs
  rcases List.append_eq_append_iff.mp h with ⟨x, hnx, hx⟩ | ⟨x, hp, -⟩
  · rw [List.append_assoc, List.cons_append] at hx
    by_cases hnil : x = []
    · exact ⟨[], by rw [hnx, hnil, List.append_nil, List.append_nil]⟩
    · -- The directive ends before the character, or holds it.
      exfalso
      have hlast := hn.getLast?_eq
      rw [hnx, List.getLast?_append_of_ne_nil p hnil] at hlast
      have hmem := List.mem_of_getLast? hlast
      rcases List.append_eq_append_iff.mp hx with ⟨y, hxy, hy⟩ | ⟨y, huy, -⟩
      · cases y with
        | nil => exact hu (by rwa [hxy, List.append_nil] at hmem)
        | cons d y =>
          have hcn : c ∈ n := by
            rw [hnx, hxy, ← (List.cons.inj hy).1]
            simp
          cases hn.mem hcn with
          | inl h' => rw [hspace] at h'; cases h'
          | inr h' => exact hc h'
      · exact hu (huy ▸ List.mem_append_left y hmem)
  · exact ⟨x, hp⟩

/-- Behind a text without a directive and a guarded header in which none can start, a directive
starts behind both. -/
theorem length_le_of_closed {header : List Char} (hclosed : Closed header) (hg : Guarded header)
    {a b n r t : List Char} (ha : ¬HasDirective a) (heq : a ++ (header ++ r) = b ++ (n ++ t))
    (hn : IsDirective n) : (a ++ header).length ≤ b.length := by
  have hat := hn.directiveAt?_append t
  -- A directive that starts earlier starts in the header, or before it.
  rcases List.append_eq_append_iff.mp heq with ⟨c, rfl, hc⟩ | ⟨p, hp, hrest⟩
  · rcases List.append_eq_append_iff.mp hc with ⟨d, rfl, -⟩ | ⟨d, hhead, hd⟩
    · rw [List.length_append, List.length_append, List.length_append]
      omega
    · by_cases hnil : d = []
      · rw [hhead, hnil, List.append_nil]
      · rw [hd, hclosed c d r hhead hnil] at hat
        cases hat
  · obtain ⟨x, hx⟩ := hg.exists_eq_append hn hrest.symm
    exact absurd ⟨b, n, x, by rw [hp, hx], hn⟩ ha

theorem FirstDirective.not_hasDirective {s a m r : List Char} (h : FirstDirective s a m r) :
    ¬HasDirective a := by
  rintro ⟨b, n, t, rfl, hn⟩
  have hearly := h.first b n (t ++ (m ++ r)) (by rw [h.eq]; simp only [List.append_assoc]) hn
  have hlen := List.length_pos_iff.mpr hn.ne_nil
  simp only [List.length_append] at hearly
  omega

/-- A guarded header in which no directive can start stays whole in every code. -/
theorem stands_of_closed {header : List Char} (hclosed : Closed header) (hg : Guarded header)
    (code : List Char) : Stands header code :=
  fun _ _ _ hfirst _ _ _ heq hn => length_le_of_closed hclosed hg hfirst.not_hasDirective heq hn

/-! ## The bundled header -/

theorem toList_unlines (ls : List String) :
    (unlines ls).toList = ls.flatMap fun l => l.toList ++ ['\n'] := by
  rw [unlines, String.toList_ofList]

theorem closed_unlines {ls : List String} (h : ∀ l ∈ ls, noneOpens l.toList = true) :
    Closed (unlines ls).toList := by
  rw [toList_unlines]
  induction ls with
  | nil =>
    intro p q t hs hq
    exact absurd (List.append_eq_nil_iff.mp hs.symm).2 hq
  | cons l ls ih =>
    rw [List.flatMap_cons]
    have hl := closed_of_noneOpens (h l (List.mem_cons_self ..))
    have hn : Closed ['\n'] := closed_of_noneOpens rfl
    exact (hl.append hn).append (ih fun k hk => h k (List.mem_cons_of_mem l hk))

/-- The line holds no newline, and no directive can start in it. -/
def IsInert (l : String) : Prop :=
  ∃ cs, l = String.ofList cs ∧ noneOpens cs = true ∧ '\n' ∉ cs

theorem isInert_of_mem_bundledHeaderLines : ∀ l ∈ bundledHeaderLines, IsInert l := by
  unfold bundledHeaderLines
  repeat refine List.forall_mem_cons.mpr ⟨⟨_, rfl, by decide +kernel⟩, ?_⟩
  exact List.forall_mem_nil _

theorem closed_bundledHeader : Closed bundledHeader.toList := by
  apply closed_unlines
  intro l hl
  obtain ⟨cs, rfl, hcs, -⟩ := isInert_of_mem_bundledHeaderLines l hl
  rw [String.toList_ofList]
  exact hcs

theorem newlines_bundledHeader : newlines bundledHeader.toList = bundledHeaderLines.length := by
  have hcount : ∀ ls : List String, (∀ l ∈ ls, IsInert l) →
      newlines (unlines ls).toList = ls.length := by
    intro ls
    rw [toList_unlines]
    induction ls with
    | nil => intro _; rfl
    | cons l ls ih =>
      intro h
      obtain ⟨cs, rfl, -, hn⟩ := h l (List.mem_cons_self ..)
      have hls := ih fun k hk => h k (List.mem_cons_of_mem _ hk)
      rw [newlines] at hls ⊢
      rw [List.flatMap_cons, List.count_append, List.count_append, hls, String.toList_ofList,
        List.count_eq_zero_of_not_mem hn]
      simp [Nat.add_comm]
  exact hcount _ isInert_of_mem_bundledHeaderLines

/-- The bundled header starts a comment, and no directive holds a star. -/
theorem guarded_bundledHeader : Guarded bundledHeader.toList := by
  obtain ⟨ls, hls⟩ : ∃ ls, bundledHeaderLines = "/*" :: ls := ⟨_, rfl⟩
  have heq : bundledHeader.toList =
      '/' :: '*' :: '\n' :: ls.flatMap fun l => l.toList ++ ['\n'] := by
    rw [bundledHeader, toList_unlines, hls, List.flatMap_cons]
    rfl
  exact ⟨['/'], '*', _, heq, by decide, by decide, by decide⟩

/-- The bundled header stays whole in every code. -/
theorem stands_bundledHeader (code : List Char) : Stands bundledHeader.toList code :=
  stands_of_closed closed_bundledHeader guarded_bundledHeader code

end Playground
