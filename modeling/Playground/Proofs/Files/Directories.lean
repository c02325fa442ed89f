import Playground.Proofs.Files.Locations

/-!
# Directories

Directories that are made change no file, and nor does a failure to make them
(`grows_makeDirectories`).  Directories that have been made are there
(`makeDirectories_of_ok`), and those that could not be made cannot be made at the next try
(`makeDirectories_of_error`).  So the next try makes nothing more
(`fst_makeDirectories_again`).
-/

namespace Playground.Files.Disk

/-! ## Growth -/

/-- Directories may have been added. -/
structure Grows (d d' : Disk) : Prop extends Keeps d d' where
  /-- The files are the same. -/
  content?_eq : ∀ l, d'.content? l = d.content? l

theorem Grows.refl (d : Disk) : Grows d d := ⟨.refl d, fun _ => rfl⟩

theorem Grows.trans {d d' d'' : Disk} (h : Grows d d') (h' : Grows d' d'') : Grows d d'' :=
  ⟨h.toKeeps.trans h'.toKeeps, fun l => (h'.content?_eq l).trans (h.content?_eq l)⟩

theorem grows_makeDirectory {d d' : Disk} {p : Path} (h : d.makeDirectory p = .ok d') :
    Grows d d' := by
  obtain ⟨dir, hholder, h⟩ := exists_of_bind_eq_ok h
  split at h
  · next s hlast =>
    obtain ⟨l, henter, h⟩ := exists_of_bind_eq_ok h
    split at h
    · cases h
    · next hnode =>
      cases h
      have hnone : d.node? l = none := by simpa using hnode
      have hne := ne_nil_of_enter henter
      refine ⟨keeps_put hne (by simp [hnone]) _, fun k => ?_⟩
      unfold content?
      rw [node?_put d l k _ hne]
      by_cases hk : k = l
      · rw [if_pos hk, hk, hnone]
      · rw [if_neg hk]
  · cases h

theorem grows_ensureDirectory {d d' : Disk} {p : Path} (h : d.ensureDirectory p = .ok d') :
    Grows d d' := by
  unfold ensureDirectory at h
  split at h
  · next hmade =>
    cases h
    exact grows_makeDirectory hmade
  · split at h <;> cases h
    exact .refl d

/-- Directories are made from the first missing one on, and a failure leaves those made. -/
theorem grows_makeDirectoriesAt (d : Disk) (p : Path) : Grows d (d.makeDirectoriesAt p).1 := by
  fun_induction makeDirectoriesAt d p with
  | case1 => exact .refl _
  | case2 p _ d' hmade => exact grows_ensureDirectory hmade
  | case3 p _ _ d' e hparent ih =>
    rw [hparent] at ih
    exact ih
  | case4 p _ _ d' hparent d'' hmade ih =>
    rw [hparent] at ih
    exact ih.trans (grows_ensureDirectory hmade)
  | case5 p _ _ d' hparent e _ ih =>
    rw [hparent] at ih
    exact ih
  | case6 => exact .refl _

theorem grows_makeDirectories (d : Disk) (text : String) : Grows d (d.makeDirectories text).1 := by
  unfold makeDirectories
  split
  · exact .refl d
  · split
    · exact grows_makeDirectoriesAt d _
    · exact .refl d


/-! ## The same directories again -/

theorem walk_append (d : Disk) (l : Location) (ps qs : List Part) :
    d.walk l (ps ++ qs) = (d.walk l ps).bind fun l => d.walk l qs := by
  induction ps generalizing l with
  | nil => rfl
  | cons p ps ih =>
    rw [List.cons_append, walk, walk]
    cases enter l p with
    | error e => rfl
    | ok k =>
      dsimp only
      split
      · exact ih k
      · rfl
      · rfl

theorem isDirectory_iff {d : Disk} {p : Path} :
    d.isDirectory p = true ↔ ∃ l, d.walk (d.origin p) p.parts = .ok l := by
  unfold isDirectory
  cases d.walk (d.origin p) p.parts <;> simp [Except.toOption]

theorem Keeps.isDirectory {d d' : Disk} (h : Keeps d d') {p : Path} (hp : d.isDirectory p = true) :
    d'.isDirectory p = true := by
  obtain ⟨l, hl⟩ := isDirectory_iff.mp hp
  refine isDirectory_iff.mpr ⟨l, ?_⟩
  rw [h.origin_eq]
  exact h.walk hl

/-- Every directory on a path is one. -/
theorem exists_walk_of_isPrefix {d : Disk} {l k : Location} {ps qs : List Part} (h : ps <+: qs)
    (hqs : d.walk l qs = .ok k) : ∃ k', d.walk l ps = .ok k' := by
  obtain ⟨rs, rfl⟩ := h
  rw [walk_append] at hqs
  obtain ⟨k', hk', -⟩ := exists_of_bind_eq_ok hqs
  exact ⟨k', hk'⟩

theorem isPrefix_withoutDots (ps : List Part) : Path.withoutDots ps <+: ps := by
  have h := List.reverse_prefix.mpr (List.dropWhile_suffix (l := ps.reverse) (· = Part.here))
  rwa [List.reverse_reverse] at h

theorem isPrefix_parts_parent (p : Path) : p.parent.parts <+: p.parts.dropLast := by
  refine (isPrefix_withoutDots _).trans ?_
  obtain ⟨qs, hqs⟩ := isPrefix_withoutDots p.parts
  generalize Path.withoutDots p.parts = ps at hqs
  rw [← hqs]
  by_cases hnil : qs = []
  · simp [hnil]
  · rw [List.dropLast_append_of_ne_nil hnil]
    exact (List.dropLast_prefix _).trans (List.prefix_append _ _)

/-- A directory that has been made is one. -/
theorem isDirectory_of_makeDirectory {d d' : Disk} {p : Path} (h : d.makeDirectory p = .ok d') :
    d'.isDirectory p = true := by
  have hkeeps := (grows_makeDirectory h).toKeeps
  obtain ⟨dir, hholder, h⟩ := exists_of_bind_eq_ok h
  split at h
  · next s hlast =>
    obtain ⟨l, henter, h⟩ := exists_of_bind_eq_ok h
    split at h
    · cases h
    · cases h
      refine isDirectory_iff.mpr ⟨l, ?_⟩
      rw [← List.dropLast_append_getLast? _ hlast, walk_append, hkeeps.origin_eq,
        hkeeps.walk hholder]
      simp only [Except.bind, walk, henter, node?_put _ _ _ _ (ne_nil_of_enter henter), if_true]
  · cases h

/-- The directory around one that could be made is a directory. -/
theorem isDirectory_parent_of_holder {d : Disk} {p : Path} {dir : Location}
    (h : d.holder p = .ok dir) : d.isDirectory p.parent = true :=
  isDirectory_iff.mpr (exists_walk_of_isPrefix (isPrefix_parts_parent p) h)

theorem isDirectory_parent {d : Disk} {p : Path} (h : d.isDirectory p = true) :
    d.isDirectory p.parent = true := by
  obtain ⟨l, hl⟩ := isDirectory_iff.mp h
  obtain ⟨dir, hdir⟩ := exists_walk_of_isPrefix (List.dropLast_prefix _) hl
  exact isDirectory_parent_of_holder hdir

/-- There is nothing to do for a directory. -/
theorem makeDirectory_ne_ok {d d' : Disk} {p : Path} (h : d.isDirectory p = true) :
    d.makeDirectory p ≠ .ok d' := by
  intro hmade
  obtain ⟨dir, hholder, hmade⟩ := exists_of_bind_eq_ok hmade
  split at hmade
  · next s hlast =>
    obtain ⟨l, henter, hmade⟩ := exists_of_bind_eq_ok hmade
    obtain ⟨k, hk⟩ := isDirectory_iff.mp h
    rw [holder] at hholder
    rw [← List.dropLast_append_getLast? _ hlast, walk_append, hholder] at hk
    simp only [Except.bind, walk, henter] at hk
    split at hmade
    · cases hmade
    · next hnode =>
      have hnone : d.node? l = none := by simpa using hnode
      rw [hnone] at hk
      cases hk
  · cases hmade

theorem ensureDirectory_of_isDirectory {d : Disk} {p : Path} (h : d.isDirectory p = true) :
    d.ensureDirectory p = .ok d := by
  unfold ensureDirectory
  split
  · next d' hmade => exact absurd hmade (makeDirectory_ne_ok h)
  · rw [if_pos h]

theorem isDirectory_of_ensureDirectory {d d' : Disk} {p : Path}
    (h : d.ensureDirectory p = .ok d') : d'.isDirectory p = true := by
  unfold ensureDirectory at h
  split at h
  · next hmade =>
    cases h
    exact isDirectory_of_makeDirectory hmade
  · split at h
    · next hdir =>
      cases h
      exact hdir
    · cases h

theorem isDirectory_parent_of_ensureDirectory {d d' : Disk} {p : Path}
    (h : d.ensureDirectory p = .ok d') : d.isDirectory p.parent = true := by
  unfold ensureDirectory at h
  split at h
  · next hmade =>
    obtain ⟨dir, hholder, -⟩ := exists_of_bind_eq_ok hmade
    exact isDirectory_parent_of_holder hholder
  · split at h
    · next hdir => exact isDirectory_parent hdir
    · cases h

theorem isDirectory_of_parts_eq_nil {d : Disk} {p : Path} (h : p.parts = []) :
    d.isDirectory p = true :=
  isDirectory_iff.mpr ⟨d.origin p, by rw [h]; rfl⟩

theorem isDirectory_of_makeDirectoriesAt {d : Disk} {p : Path}
    (h : (d.makeDirectoriesAt p).2 = .ok ()) : (d.makeDirectoriesAt p).1.isDirectory p = true := by
  fun_induction makeDirectoriesAt d p with
  | case1 p hnil => exact isDirectory_of_parts_eq_nil hnil
  | case2 p _ d' hmade => exact isDirectory_of_ensureDirectory hmade
  | case3 => cases h
  | case4 p _ _ d' _ d'' hmade _ => exact isDirectory_of_ensureDirectory hmade
  | case5 => cases h
  | case6 => cases h

theorem makeDirectoriesAt_of_isDirectory {d : Disk} {p : Path} (h : d.isDirectory p = true) :
    d.makeDirectoriesAt p = (d, .ok ()) := by
  rw [makeDirectoriesAt]
  split
  · rfl
  · rw [ensureDirectory_of_isDirectory h]

/-- Directories are made by way of the directory around them, unless that is there. -/
theorem ensureDirectory_of_makeDirectoriesAt {d : Disk} {p : Path} (hne : p.parts ≠ [])
    (h : (d.makeDirectoriesAt p).2 = .ok ()) :
    (∃ d', d.ensureDirectory p = .ok d') ∨
      (d.makeDirectoriesAt p.parent).2 = .ok () ∧
        ∃ d', (d.makeDirectoriesAt p.parent).1.ensureDirectory p = .ok d' := by
  rw [makeDirectoriesAt, dif_neg hne] at h
  split at h
  · next d' hmade => exact Or.inl ⟨d', hmade⟩
  · split at h
    · cases h
    · next d' hparent =>
      split at h
      · next d'' hmade => exact Or.inr ⟨by rw [hparent], d'', by rw [hparent]; exact hmade⟩
      · cases h
  · cases h

theorem makeDirectoriesAt_of_error {d : Disk} {p : Path}
    (h : (d.makeDirectoriesAt p).2 ≠ .ok ()) :
    ((d.makeDirectoriesAt p).1.makeDirectoriesAt p).2 ≠ .ok () := by
  fun_induction makeDirectoriesAt d p with
  | case1 => exact absurd rfl h
  | case2 => exact absurd rfl h
  | case3 p hne hmissing d' e hparent ih =>
    rw [hparent] at ih
    replace ih : (d'.makeDirectoriesAt p.parent).2 ≠ .ok () := ih (by simp)
    intro hagain
    rcases ensureDirectory_of_makeDirectoriesAt hne hagain with ⟨d'', hmade⟩ | ⟨hok, -⟩
    · rw [makeDirectoriesAt_of_isDirectory (isDirectory_parent_of_ensureDirectory hmade)] at ih
      exact ih rfl
    · exact ih hok
  | case4 => exact absurd rfl h
  | case5 p hne hmissing d' hparent e hensure ih =>
    have hdir := isDirectory_of_makeDirectoriesAt (d := d) (p := p.parent) (by rw [hparent])
    rw [hparent] at hdir
    intro hagain
    rcases ensureDirectory_of_makeDirectoriesAt hne hagain with ⟨d'', hmade⟩ | ⟨-, d'', hmade⟩
    · rw [hensure] at hmade
      cases hmade
    · rw [makeDirectoriesAt_of_isDirectory hdir] at hmade
      dsimp only at hmade
      rw [hensure] at hmade
      cases hmade
  | case6 p hne e hother hensure =>
    -- Nothing has been made, so the same error comes again.
    dsimp only
    rw [makeDirectoriesAt, dif_neg hne, hensure]
    split
    · next heq => cases heq
    · next heq =>
      cases heq
      exact absurd rfl hother
    · simp

/-- Directories that have been made are there as long as directories are kept. -/
theorem makeDirectories_of_ok {d d' : Disk} {text : String}
    (h : (d.makeDirectories text).2 = .ok ()) (hkeeps : Keeps (d.makeDirectories text).1 d') :
    d'.makeDirectories text = (d', .ok ()) := by
  unfold makeDirectories at *
  split at h
  · next hempty => rw [if_pos hempty]
  · next hne =>
    rw [if_neg hne] at hkeeps ⊢
    cases hchecked : checked text with
    | error e => rw [hchecked] at h; cases h
    | ok p =>
      rw [hchecked] at h hkeeps
      exact makeDirectoriesAt_of_isDirectory
        (hkeeps.isDirectory (isDirectory_of_makeDirectoriesAt h))

/-- Directories that could not be made cannot be made at the next try. -/
theorem makeDirectories_of_error {d : Disk} {text : String}
    (h : (d.makeDirectories text).2 ≠ .ok ()) :
    ((d.makeDirectories text).1.makeDirectories text).2 ≠ .ok () := by
  unfold makeDirectories at *
  split at h
  · exact absurd rfl h
  · next hne =>
    rw [if_neg hne, if_neg hne]
    cases hchecked : checked text with
    | error e => simp
    | ok p =>
      rw [hchecked] at h
      exact makeDirectoriesAt_of_error h

/-- Nothing is made if the directory cannot be made, and there is nothing to make around it. -/
theorem fst_makeDirectoriesAt_of_error {d : Disk} {p : Path} {e : IoError}
    (hensure : d.ensureDirectory p = .error e)
    (hparent : e = .notFound → (d.makeDirectoriesAt p.parent).1 = d) :
    (d.makeDirectoriesAt p).1 = d := by
  rw [makeDirectoriesAt]
  split
  · rfl
  · rw [hensure]
    split
    · next heq => cases heq
    · next heq =>
      cases heq
      replace hparent := hparent rfl
      split
      · next heq =>
        rw [heq] at hparent
        exact hparent
      · next d' heq =>
        rw [heq] at hparent
        obtain rfl : d' = d := hparent
        rw [hensure]
    · rfl

/-- What a failure has left is left by the next one. -/
theorem fst_makeDirectoriesAt_again {d : Disk} {p : Path}
    (h : (d.makeDirectoriesAt p).2 ≠ .ok ()) :
    ((d.makeDirectoriesAt p).1.makeDirectoriesAt p).1 = (d.makeDirectoriesAt p).1 := by
  fun_induction makeDirectoriesAt d p with
  | case1 => exact absurd rfl h
  | case2 => exact absurd rfl h
  | case3 p hne hmissing d' e hparent ih =>
    have hagain := makeDirectoriesAt_of_error (d := d) (p := p.parent) (by rw [hparent]; simp)
    rw [hparent] at ih hagain
    cases hensure : d'.ensureDirectory p with
    | ok d'' =>
      -- The directory around it would be there, but it still cannot be made.
      have hdir := isDirectory_parent_of_ensureDirectory hensure
      rw [makeDirectoriesAt_of_isDirectory hdir] at hagain
      exact absurd rfl hagain
    | error e' => exact fst_makeDirectoriesAt_of_error hensure fun _ => ih (by simp)
  | case4 => exact absurd rfl h
  | case5 p hne hmissing d' hparent e hensure ih =>
    have hdir := isDirectory_of_makeDirectoriesAt (d := d) (p := p.parent) (by rw [hparent])
    rw [hparent] at hdir
    refine fst_makeDirectoriesAt_of_error hensure fun _ => ?_
    rw [makeDirectoriesAt_of_isDirectory hdir]
  | case6 p hne e hother hensure =>
    exact fst_makeDirectoriesAt_of_error hensure fun he => absurd he hother

/-- Directories that are made again leave what the first try has left. -/
theorem fst_makeDirectories_again (d : Disk) (text : String) :
    ((d.makeDirectories text).1.makeDirectories text).1 = (d.makeDirectories text).1 := by
  by_cases hok : (d.makeDirectories text).2 = .ok ()
  · rw [makeDirectories_of_ok hok (.refl _)]
  · unfold makeDirectories at *
    split at hok
    · exact absurd rfl hok
    · next hne =>
      rw [if_neg hne, if_neg hne]
      cases hchecked : checked text with
      | error e => rfl
      | ok p =>
        rw [hchecked] at hok
        exact fst_makeDirectoriesAt_again hok

end Playground.Files.Disk
