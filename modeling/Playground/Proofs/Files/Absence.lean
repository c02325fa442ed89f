import Playground.Proofs.Files.Directories

/-!
# What is not there

Reading a file says that it was not found exactly if the path of the file leads, through
directories, to an entry that is not there (`readText_eq_notFound_iff`).  The entry is the
file itself or one of the directories around it.
-/

namespace Playground.Files.Disk

/-- The first entry on the way that is no directory is not there at all. -/
def Breaks (d : Disk) (l : Location) (ps : List Part) : Prop :=
  ∃ before part dir k, before ++ [part] <+: ps ∧ d.walk l before = .ok dir ∧
    enter dir part = .ok k ∧ d.node? k = none

/-- There is no file under the path of a text, because an entry on its way is missing. -/
def Missing (d : Disk) (text : String) : Prop :=
  ∃ p, checked text = .ok p ∧ d.Breaks (d.origin p) p.parts

theorem enter_ne_notFound {l : Location} {p : Part} : enter l p ≠ .error .notFound := by
  cases p with
  | here => simp [enter]
  | up => simp [enter]
  | name s =>
    unfold enter
    dsimp only
    split <;> simp

/-- The walk goes on from a directory as from any other place. -/
theorem breaks_cons_iff {d : Disk} {l k : Location} {p : Part} {ps : List Part}
    (henter : enter l p = .ok k) :
    d.Breaks l (p :: ps) ↔
      d.node? k = none ∨ d.node? k = some .directory ∧ d.Breaks k ps := by
  constructor
  · rintro ⟨before, part, dir, k', hpre, hwalk, henter', hnode⟩
    cases before with
    | nil =>
      obtain ⟨rfl, -⟩ := List.cons_prefix_cons.mp hpre
      cases hwalk
      rw [henter] at henter'
      cases henter'
      exact Or.inl hnode
    | cons q before =>
      rw [List.cons_append, List.cons_prefix_cons] at hpre
      obtain rfl := hpre.1
      rw [walk, henter] at hwalk
      dsimp only at hwalk
      split at hwalk
      · next hdir =>
        exact Or.inr ⟨hdir, before, part, dir, k', hpre.2, hwalk, henter', hnode⟩
      · cases hwalk
      · cases hwalk
  · rintro (hnode | ⟨hdir, before, part, dir, k', hpre, hwalk, henter', hnode⟩)
    · exact ⟨[], p, l, k, ⟨ps, rfl⟩, rfl, henter, hnode⟩
    · refine ⟨p :: before, part, dir, k', List.cons_prefix_cons.mpr ⟨rfl, hpre⟩, ?_, henter', hnode⟩
      rw [walk, henter]
      dsimp only
      rw [hdir]
      exact hwalk

theorem not_breaks_cons {d : Disk} {l : Location} {p : Part} {ps : List Part} {e : IoError}
    (henter : enter l p = .error e) : ¬ d.Breaks l (p :: ps) := by
  rintro ⟨before, part, dir, k, hpre, hwalk, henter', -⟩
  cases before with
  | nil =>
    obtain ⟨rfl, -⟩ := List.cons_prefix_cons.mp hpre
    cases hwalk
    rw [henter] at henter'
    cases henter'
  | cons q before =>
    obtain ⟨rfl, -⟩ := List.cons_prefix_cons.mp hpre
    rw [walk, henter] at hwalk
    cases hwalk

theorem not_breaks_nil (d : Disk) (l : Location) : ¬ d.Breaks l [] := by
  rintro ⟨before, part, -, -, hpre, -⟩
  exact List.append_ne_nil_of_right_ne_nil before (List.cons_ne_nil part [])
    (List.prefix_nil.mp hpre)

theorem walk_eq_notFound_iff {d : Disk} {l : Location} {ps : List Part} :
    d.walk l ps = .error .notFound ↔ d.Breaks l ps := by
  induction ps generalizing l with
  | nil => exact iff_of_false (by simp [walk]) (not_breaks_nil d l)
  | cons p ps ih =>
    rw [walk]
    cases henter : enter l p with
    | error e =>
      refine iff_of_false ?_ (not_breaks_cons henter)
      intro h
      exact enter_ne_notFound (henter.trans h)
    | ok k =>
      rw [breaks_cons_iff henter]
      dsimp only
      cases hnode : d.node? k with
      | none => simp
      | some n => cases n <;> simp [ih]

/-- A file is not found exactly if the way to it breaks off. -/
theorem readAt_eq_notFound_iff {d : Disk} {p : Path} :
    d.readAt p = .error .notFound ↔ d.Breaks (d.origin p) p.parts := by
  rw [← walk_eq_notFound_iff, readAt, holder]
  rcases List.eq_nil_or_concat' p.parts with hnil | ⟨ps, part, hparts⟩
  · rw [hnil]
    simp [walk, bind, Except.bind]
  · rw [hparts, List.dropLast_concat, List.getLast?_concat, walk_append]
    cases d.walk (d.origin p) ps with
    | error e => simp [bind, Except.bind]
    | ok dir =>
      simp only [bind, Except.bind, walk]
      cases henter : enter dir part with
      | error e => simp
      | ok k =>
        dsimp only
        cases d.node? k with
        | none => simp
        | some n =>
          cases n with
          | directory => simp
          | file content => dsimp only; split <;> simp

theorem checked_eq_notFound_iff {text : String} : checked text = .error .notFound ↔ text = "" := by
  refine ⟨fun h => ?_, fun h => by rw [h]; rfl⟩
  by_contra hne
  rw [checked, if_neg hne] at h
  repeat' split at h
  all_goals cases h

/-- A text is not found exactly if its file is missing.  A file that is there may still not be
a text. -/
theorem readText_eq_notFound_iff {d : Disk} {text : String} (hne : text ≠ "") :
    d.readText text = .error .notFound ↔ d.Missing text := by
  have hread : d.readText text = .error .notFound ↔ d.read text = .error .notFound := by
    rw [readText]
    cases d.read text with
    | error e => simp [bind, Except.bind]
    | ok content =>
      simp only [bind, Except.bind]
      split <;> simp
  rw [hread, read, Missing]
  cases hchecked : checked text with
  | error e =>
    have he : e ≠ .notFound := by
      rintro rfl
      exact hne (checked_eq_notFound_iff.mp hchecked)
    simp [bind, Except.bind, he]
  | ok p =>
    simp only [bind, Except.bind, readAt_eq_notFound_iff, Except.ok.injEq, exists_eq_left']

end Playground.Files.Disk
