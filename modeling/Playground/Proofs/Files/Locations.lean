import Playground.Files.Disk
import Playground.Proofs.Text.Pieces
import Playground.Proofs.Text.Transcoding

/-!
# Locations

Where the path of a text leads, told without a look at the disk (`location?`).  What can be
read at a path is the content of the file at its location, and a file that is written at a
path is at its location from then on (`exists_of_read`, `exists_of_write`).  Whether a file
can be written depends on the directories alone (`Alike.writable`).

The files of a directory have locations that end in their names
(`getLast?_of_location?_childText`).
-/

namespace Playground.Files

open Text

/-- A computation in two steps succeeds if both do. -/
theorem exists_of_bind_eq_ok {ε α β : Type} {x : Except ε α} {f : α → Except ε β} {b : β}
    (h : (x >>= f) = .ok b) : ∃ a, x = .ok a ∧ f a = .ok b := by
  cases x with
  | error e => cases h
  | ok a => exact ⟨a, rfl, h⟩

namespace Disk

/-- The location to which parts lead, whatever is there. -/
def follow (l : Location) : List Part → Except IoError Location
  | [] => .ok l
  | p :: ps => (enter l p).bind fun l => follow l ps

theorem follow_append (l : Location) (ps qs : List Part) :
    follow l (ps ++ qs) = (follow l ps).bind fun l => follow l qs := by
  induction ps generalizing l with
  | nil => rfl
  | cons p ps ih =>
    rw [List.cons_append, follow, follow]
    cases enter l p with
    | error e => rfl
    | ok k => exact ih k

theorem follow_of_walk {d : Disk} {l k : Location} {ps : List Part} (h : d.walk l ps = .ok k) :
    follow l ps = .ok k := by
  induction ps generalizing l with
  | nil => exact h
  | cons p ps ih =>
    rw [walk] at h
    rw [follow]
    split at h
    · cases h
    · next l' henter =>
      rw [henter]
      split at h
      · exact ih h
      · cases h
      · cases h

/-- The location that a text names. -/
def location? (d : Disk) (text : String) : Option Location :=
  ((checked text).bind fun p => follow (d.origin p) p.parts).toOption

theorem location?_eq_some_iff {d : Disk} {text : String} {l : Location} :
    d.location? text = some l ↔
      ∃ p, checked text = .ok p ∧ follow (d.origin p) p.parts = .ok l := by
  unfold location?
  cases checked text with
  | error e => simp [Except.bind, Except.toOption]
  | ok p => cases h : follow (d.origin p) p.parts <;> simp [Except.bind, Except.toOption, h]

theorem eq_of_checked {text : String} {p : Path} (h : checked text = .ok p) : p = .ofText text := by
  unfold checked at h
  repeat' split at h
  all_goals cases h
  rfl

/-- The content of the file at a location. -/
def content? (d : Disk) (l : Location) : Option (List UInt8) :=
  match d.node? l with
  | some (.file content) => some content
  | _ => none

theorem content?_eq_some_iff {d : Disk} {l : Location} {content : List UInt8} :
    d.content? l = some content ↔ d.node? l = some (.file content) := by
  unfold content?
  split <;> simp_all

theorem content?_put {d : Disk} {l : Location} (h : l ≠ []) (content : List UInt8)
    (k : Location) :
    (d.put l (.file content)).content? k = if k = l then some content else d.content? k := by
  unfold content?
  rw [node?_put d l k _ h]
  by_cases hk : k = l
  · rw [if_pos hk, if_pos hk]
  · rw [if_neg hk, if_neg hk]

/-! ## Reading and writing -/

/-- The path `p` leads to the file at `l`, if there is one, through directories. -/
structure Leads (d : Disk) (p : Path) (l : Location) : Prop where
  /-- Its last part leads on from a directory. -/
  enter_eq : ∃ dir part, d.holder p = .ok dir ∧ p.parts.getLast? = some part ∧
    enter dir part = .ok l
  /-- It does not have to lead to a directory itself. -/
  endsInSlash_eq : p.endsInSlash = false

theorem Leads.follow_eq {d : Disk} {p : Path} {l : Location} (h : d.Leads p l) :
    follow (d.origin p) p.parts = .ok l := by
  obtain ⟨dir, part, hholder, hlast, henter⟩ := h.enter_eq
  have hparts : p.parts = p.parts.dropLast ++ [part] :=
    (List.dropLast_append_getLast? part hlast).symm
  rw [hparts, follow_append, follow_of_walk hholder]
  simp only [Except.bind, follow, henter]

theorem readAt_eq_ok_iff {d : Disk} {p : Path} {content : List UInt8} :
    d.readAt p = .ok content ↔ ∃ l, d.Leads p l ∧ d.content? l = some content := by
  constructor
  · intro h
    obtain ⟨dir, hholder, h⟩ := exists_of_bind_eq_ok h
    split at h
    · cases h
    · next part hlast =>
      obtain ⟨l, henter, h⟩ := exists_of_bind_eq_ok h
      split at h
      · cases h
      · cases h
      · next c hnode =>
        split at h
        · cases h
        · next hslash =>
          cases h
          exact ⟨l, ⟨⟨dir, part, hholder, hlast, henter⟩, by simpa using hslash⟩,
            content?_eq_some_iff.mpr hnode⟩
  · rintro ⟨l, ⟨⟨dir, part, hholder, hlast, henter⟩, hslash⟩, hcontent⟩
    simp [readAt, hholder, hlast, henter, bind, Except.bind, content?_eq_some_iff.mp hcontent,
      hslash]

/-- A name leads to no root. -/
theorem ne_nil_of_enter {dir l : Location} {s : String} (h : enter dir (.name s) = .ok l) :
    l ≠ [] := by
  unfold enter at h
  dsimp only at h
  split at h <;> cases h
  simp

theorem writeAt_eq_ok_iff {d d' : Disk} {p : Path} {content : List UInt8} :
    d.writeAt p content = .ok d' ↔ ∃ dir s l, d.holder p = .ok dir ∧
      p.parts.getLast? = some (.name s) ∧ p.endsInSlash = false ∧ enter dir (.name s) = .ok l ∧
      d.node? l ≠ some .directory ∧ d' = d.put l (.file content) := by
  constructor
  · intro h
    obtain ⟨dir, hholder, h⟩ := exists_of_bind_eq_ok h
    split at h
    · next s hlast =>
      split at h
      · cases h
      · next hslash =>
        obtain ⟨l, henter, h⟩ := exists_of_bind_eq_ok h
        split at h
        · cases h
        · next hnode =>
          cases h
          exact ⟨dir, s, l, hholder, hlast, by simpa using hslash, henter, hnode, rfl⟩
    · cases h
  · rintro ⟨dir, s, l, hholder, hlast, hslash, henter, hnode, rfl⟩
    simp [writeAt, hholder, hlast, hslash, henter, hnode, bind, Except.bind]

/-- A file can be written at the path of a text. -/
def Writable (d : Disk) (text : String) : Prop := ∃ d', d.write text [] = .ok d'

/-- Whether a file can be written does not depend on its content. -/
theorem exists_write_iff {d : Disk} {text : String} (content : List UInt8) :
    (∃ d', d.write text content = .ok d') ↔ d.Writable text := by
  unfold Writable write
  cases checked text with
  | error e => simp [bind, Except.bind]
  | ok p =>
    show (∃ d', d.writeAt p content = .ok d') ↔ ∃ d', d.writeAt p [] = .ok d'
    simp only [writeAt_eq_ok_iff]
    constructor
    all_goals
      rintro ⟨-, dir, s, l, hholder, hlast, hslash, henter, hnode, -⟩
      exact ⟨_, dir, s, l, hholder, hlast, hslash, henter, hnode, rfl⟩

/-! ## Disks that change -/

/-- The directories of a disk are still there. -/
structure Keeps (d d' : Disk) : Prop where
  /-- Paths are walked from the same directory. -/
  current_eq : d'.current = d.current
  /-- A directory is still one. -/
  directory : ∀ l, d.node? l = some .directory → d'.node? l = some .directory

namespace Keeps

variable {d d' : Disk}

theorem refl (d : Disk) : Keeps d d := ⟨rfl, fun _ h => h⟩

theorem trans {d'' : Disk} (h : Keeps d d') (h' : Keeps d' d'') : Keeps d d'' :=
  ⟨h'.current_eq.trans h.current_eq, fun l hl => h'.directory l (h.directory l hl)⟩

theorem origin_eq (h : Keeps d d') (p : Path) : d'.origin p = d.origin p := by
  rw [origin, origin, h.current_eq]

theorem location?_eq (h : Keeps d d') (text : String) : d'.location? text = d.location? text := by
  simp only [location?, h.origin_eq]

theorem walk (h : Keeps d d') {l k : Location} {ps : List Part} (hwalk : d.walk l ps = .ok k) :
    d'.walk l ps = .ok k := by
  induction ps generalizing l with
  | nil => exact hwalk
  | cons p ps ih =>
    rw [Disk.walk] at hwalk ⊢
    split at hwalk
    · cases hwalk
    · next l' henter =>
      split at hwalk
      · next hdir =>
        rw [h.directory l' hdir]
        exact ih hwalk
      · cases hwalk
      · cases hwalk

theorem leads (h : Keeps d d') {p : Path} {l : Location} (hl : d.Leads p l) : d'.Leads p l := by
  obtain ⟨⟨dir, part, hholder, hlast, henter⟩, hslash⟩ := hl
  refine ⟨⟨dir, part, ?_, hlast, henter⟩, hslash⟩
  rw [holder, h.origin_eq]
  exact h.walk hholder

end Keeps

theorem keeps_put {d : Disk} {l : Location} (hne : l ≠ []) (h : d.node? l ≠ some .directory)
    (n : Node) : Keeps d (d.put l n) where
  current_eq := rfl
  directory := by
    intro k hk
    rw [node?_put d l k n hne, if_neg, hk]
    rintro rfl
    exact h hk

/-- The directories of two disks are the same. -/
structure Alike (d d' : Disk) : Prop where
  /-- Those of the first are directories of the second. -/
  keeps : Keeps d d'
  /-- Those of the second are directories of the first. -/
  symm_keeps : Keeps d' d

theorem Alike.refl (d : Disk) : Alike d d := ⟨.refl d, .refl d⟩

theorem Alike.symm {d d' : Disk} (h : Alike d d') : Alike d' d := ⟨h.symm_keeps, h.keeps⟩

theorem Alike.trans {d d' d'' : Disk} (h : Alike d d') (h' : Alike d' d'') : Alike d d'' :=
  ⟨h.keeps.trans h'.keeps, h'.symm_keeps.trans h.symm_keeps⟩

theorem alike_put_file {d : Disk} {l : Location} (hne : l ≠ [])
    (h : d.node? l ≠ some .directory) (content : List UInt8) :
    Alike d (d.put l (.file content)) where
  keeps := keeps_put hne h _
  symm_keeps := by
    refine ⟨rfl, fun k hk => ?_⟩
    rw [node?_put d l k _ hne] at hk
    split at hk
    · cases hk
    · exact hk

theorem Alike.writable {d d' : Disk} (h : Alike d d') {text : String} (hw : d.Writable text) :
    d'.Writable text := by
  obtain ⟨e, hw⟩ := hw
  unfold Writable write at *
  cases hchecked : checked text with
  | error e => rw [hchecked] at hw; cases hw
  | ok p =>
    rw [hchecked] at hw
    obtain ⟨dir, s, l, hholder, hlast, hslash, henter, hnode, -⟩ := writeAt_eq_ok_iff.mp hw
    have hholder' : d'.holder p = .ok dir := by
      rw [holder, h.keeps.origin_eq]
      exact h.keeps.walk hholder
    exact ⟨_, writeAt_eq_ok_iff.mpr ⟨dir, s, l, hholder', hlast, hslash, henter,
      fun hdir => hnode (h.symm_keeps.directory l hdir), rfl⟩⟩

/-- What can be read at a path is the content of the file at its location. -/
theorem exists_of_read {d : Disk} {text : String} {content : List UInt8}
    (h : d.read text = .ok content) :
    ∃ l, d.location? text = some l ∧ d.content? l = some content ∧
      ∀ d', Keeps d d' → d'.content? l = some content → d'.read text = .ok content := by
  unfold read at h
  cases hchecked : checked text with
  | error e => rw [hchecked] at h; cases h
  | ok p =>
    rw [hchecked] at h
    obtain ⟨l, hleads, hcontent⟩ := readAt_eq_ok_iff.mp h
    refine ⟨l, location?_eq_some_iff.mpr ⟨p, hchecked, hleads.follow_eq⟩, hcontent, ?_⟩
    · intro d' hkeeps hcontent'
      rw [read, hchecked]
      exact readAt_eq_ok_iff.mpr ⟨l, hkeeps.leads hleads, hcontent'⟩

/-- A file that is written at a path is at its location, and can be read there. -/
theorem exists_of_write {d d' : Disk} {text : String} {content : List UInt8}
    (h : d.write text content = .ok d') :
    ∃ l, d.location? text = some l ∧ Alike d d' ∧
      (∀ k, d'.content? k = if k = l then some content else d.content? k) ∧
      d'.read text = .ok content := by
  unfold write at h
  cases hchecked : checked text with
  | error e => rw [hchecked] at h; cases h
  | ok p =>
    rw [hchecked] at h
    obtain ⟨dir, s, l, hholder, hlast, hslash, henter, hnode, rfl⟩ := writeAt_eq_ok_iff.mp h
    have hleads : d.Leads p l := ⟨⟨dir, _, hholder, hlast, henter⟩, hslash⟩
    have hne := ne_nil_of_enter henter
    have halike := alike_put_file hne hnode content
    refine ⟨l, location?_eq_some_iff.mpr ⟨p, hchecked, hleads.follow_eq⟩, halike,
      content?_put hne content, ?_⟩
    rw [read, hchecked]
    refine readAt_eq_ok_iff.mpr ⟨l, halike.keeps.leads hleads, ?_⟩
    rw [content?_put hne, if_pos rfl]

/-- A text that is written at a path can be read there. -/
theorem readText_of_writeText {d d' : Disk} {text content : String}
    (h : d.writeText text content = .ok d') : d'.readText text = .ok content := by
  obtain ⟨l, -, -, -, hread⟩ := exists_of_write h
  rw [readText, hread]
  simp [bind, Except.bind, Utf8.decode?_encode]

end Disk

/-! ## The files of a directory -/

/-- A text that is one part of a path, and names an entry. -/
structure IsName (name : String) : Prop where
  /-- It is not empty. -/
  ne_nil : name.toList ≠ []
  /-- It is a single part. -/
  slash_notMem : '/' ∉ name.toList
  /-- It is no dot and no two dots. -/
  part_eq : Part.ofText name.toList = .name name

/-- The path of a name in a directory is the name, or ends in a slash and the name. -/
theorem toList_childText (dir name : String) :
    (childText dir name).toList = name.toList ∨
      ∃ a, (childText dir name).toList = a ++ '/' :: name.toList := by
  unfold childText
  split
  · exact Or.inl rfl
  · refine Or.inr ?_
    split
    · next hslash =>
      refine ⟨dir.toList.dropLast, ?_⟩
      rw [String.toList_append, List.append_cons, List.dropLast_append_getLast? '/' hslash]
    · refine ⟨dir.toList, ?_⟩
      rw [String.toList_append, String.toList_append, List.append_assoc]
      rfl

theorem exists_parts_childText {name : String} (h : IsName name) (dir : String) :
    ∃ ps, (Path.ofText (childText dir name)).parts = ps ++ [.name name] := by
  have hone : splitOn '/' name.toList = [name.toList] := splitOn_eq_singleton h.slash_notMem
  have hkeep : ([name.toList].filter (· ≠ [])).map Part.ofText = [.name name] := by
    rw [List.filter_cons_of_pos (by simpa using h.ne_nil), List.filter_nil, List.map_singleton,
      h.part_eq]
  rw [Path.ofText]
  rcases toList_childText dir name with heq | ⟨a, heq⟩
  · exact ⟨[], by rw [heq, hone, hkeep, List.nil_append]⟩
  · refine ⟨((splitOn '/' a).filter (· ≠ [])).map Part.ofText, ?_⟩
    rw [heq, splitOn_append_sep, hone, List.filter_append, List.map_append, hkeep]

/-- The location of a file of a directory ends in its name. -/
theorem getLast?_of_location?_childText {name : String} (h : IsName name) {d : Disk} {dir : String}
    {l : Location} (hl : d.location? (childText dir name) = some l) : l.getLast? = some name := by
  obtain ⟨p, hchecked, hfollow⟩ := Disk.location?_eq_some_iff.mp hl
  obtain ⟨ps, hps⟩ := exists_parts_childText h dir
  rw [Disk.eq_of_checked hchecked, hps, Disk.follow_append] at hfollow
  obtain ⟨k, -, hname⟩ := exists_of_bind_eq_ok hfollow
  obtain ⟨l', henter, heq⟩ := exists_of_bind_eq_ok hname
  cases heq
  unfold Disk.enter at henter
  dsimp only at henter
  split at henter <;> cases henter
  exact List.getLast?_concat

end Playground.Files
