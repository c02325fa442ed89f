import Playground.Proofs.Files.Directories
import Playground.Proofs.Text.Transcoding
import Playground.Storage

/-!
# Slots

A store keeps the text of a key in a slot: under the key itself in a map, and in a file on
a disk.  What is in the slot may be there although it cannot be read (`held?`).

A store accepts a key if a text can be written to it (`Accepts`), and this never changes
(`alike_set`).  A text that is written is in the slot of its key, and all other slots are as
they were (`held?_set_of_accepts`).  A text that cannot be written leaves all slots as they
were (`held?_set_of_not_accepts`).
-/

namespace Playground

open Text

/-- Where a store keeps a text. -/
inductive Slot where
  /-- Under a key of a map. -/
  | key (key : String)
  /-- In the file at a location. -/
  | location (l : Files.Location)
deriving DecidableEq, Repr

/-- The octets of a text. -/
def octets (text : String) : List UInt8 := Utf8.encode text.toList

namespace Store

/-- Where the store keeps the text of a key, if there is a place for it. -/
def slot? (s : Store) (key : String) : Option Slot :=
  match s with
  | .memory _ => some (.key key)
  | .faulty _ _ _ => some (.key key)
  | .files directory disk => (disk.location? (Files.childText directory key)).map .location

/-- What the store keeps for a key, whether it can be read or not. -/
def held? (s : Store) (key : String) : Option (List UInt8) :=
  match s with
  | .memory values => (values.get? key).map octets
  | .faulty values _ _ => (values.get? key).map octets
  | .files directory disk => (disk.location? (Files.childText directory key)).bind disk.content?

/-- A text can be written to the key. -/
def Accepts (s : Store) (key : String) : Prop := (s.set key "").2 = .ok ()

/-- A text that has been written to the key can be read. -/
def ReadsBack (s : Store) (key : String) : Prop :=
  match s with
  | .memory _ => True
  | .faulty _ unreadable _ => key ∉ unreadable
  | .files _ _ => True

/-- The keys of two stores are alike, whatever is kept under them. -/
structure Alike (s s' : Store) : Prop where
  /-- The slots are the same. -/
  slot?_eq : ∀ k, s'.slot? k = s.slot? k
  /-- The same keys can be written. -/
  accepts_iff : ∀ k, s'.Accepts k ↔ s.Accepts k
  /-- The same keys can be read. -/
  readsBack_iff : ∀ k, s'.ReadsBack k ↔ s.ReadsBack k

theorem Alike.refl (s : Store) : Alike s s := ⟨fun _ => rfl, fun _ => .rfl, fun _ => .rfl⟩

theorem Alike.trans {s s' s'' : Store} (h : Alike s s') (h' : Alike s' s'') : Alike s s'' where
  slot?_eq := fun k => (h'.slot?_eq k).trans (h.slot?_eq k)
  accepts_iff := fun k => (h'.accepts_iff k).trans (h.accepts_iff k)
  readsBack_iff := fun k => (h'.readsBack_iff k).trans (h.readsBack_iff k)

/-! ## Maps -/

/-- The slots of a map are its keys. -/
theorem held?_insert (values : Fields) (key text k : String) :
    ((values.insert key text).get? k).map octets =
      if some (Slot.key k) = some (Slot.key key) then some (octets text)
      else (values.get? k).map octets := by
  rw [Fields.get?_insert]
  by_cases h : k = key
  · simp [h]
  · simp [h]

theorem accepts_faulty_iff {values : Fields} {unreadable unwritable : List String} {key : String} :
    (Store.faulty values unreadable unwritable).Accepts key ↔ key ∉ unwritable := by
  rw [Accepts, set]
  split
  · next h => simp [h]
  · next h => simp [h]

/-! ## Files -/

section Files

variable {directory : String} {disk : Files.Disk}

theorem accepts_files_iff {key : String} :
    (Store.files directory disk).Accepts key ↔
      (disk.makeDirectories directory).2 = .ok () ∧
        (disk.makeDirectories directory).1.Writable (Files.childText directory key) := by
  rw [Accepts, set]
  split
  · next e heq => rw [heq]; simp
  · next disk' heq =>
    rw [heq, ← Files.Disk.exists_write_iff (octets "")]
    split
    · next disk'' hwrite => exact iff_of_true rfl ⟨rfl, disk'', hwrite⟩
    · next e hwrite =>
      refine iff_of_false (by simp) ?_
      rintro ⟨-, disk'', hok⟩
      rw [Files.Disk.writeText, ← octets, hok] at hwrite
      cases hwrite

theorem get_files_eq_some_iff {key text : String} :
    (Store.files directory disk).get key = .ok (some text) ↔
      ∃ content, disk.read (Files.childText directory key) = .ok content ∧
        Utf8.decode? content = some text.toList := by
  rw [get, Files.Disk.readText]
  cases disk.read (Files.childText directory key) with
  | error e => cases e <;> simp [bind, Except.bind]
  | ok content =>
    cases hdecode : Utf8.decode? content with
    | none => simp [bind, Except.bind, hdecode]
    | some text' =>
      have htext : String.ofList text' = text ↔ text' = text.toList := by
        constructor
        · rintro rfl
          rw [String.toList_ofList]
        · rintro rfl
          rw [String.ofList_toList]
      simp [bind, Except.bind, hdecode, htext]

/-- The disk `disk'` has a text in the file of a key, at `l`, and is `disk` otherwise but for
directories that were made. -/
structure Filed (directory : String) (disk : Files.Disk) (key text : String) (l : Files.Location)
    (disk' : Files.Disk) : Prop where
  /-- The file is that of the key. -/
  location?_eq : disk.location? (Files.childText directory key) = some l
  /-- No directory is made but those on the way. -/
  alike : (disk.makeDirectories directory).1.Alike disk'
  /-- The text is in the file, and in no other. -/
  content?_eq : ∀ k, disk'.content? k = if k = l then some (octets text) else disk.content? k
  /-- The file can be read. -/
  read_eq : disk'.read (Files.childText directory key) = .ok (octets text)

theorem Filed.keeps {key text : String} {l : Files.Location} {disk' : Files.Disk}
    (h : Filed directory disk key text l disk') : disk.Keeps disk' :=
  (Files.Disk.grows_makeDirectories disk directory).toKeeps.trans h.alike.keeps

theorem exists_filed {key : String} (h : (Store.files directory disk).Accepts key)
    (text : String) :
    ∃ l disk', Filed directory disk key text l disk' ∧
      (Store.files directory disk).set key text = (.files directory disk', .ok ()) := by
  obtain ⟨hok, hwritable⟩ := accepts_files_iff.mp h
  obtain ⟨disk', hwrite⟩ := (Files.Disk.exists_write_iff (octets text)).mpr hwritable
  obtain ⟨l, hl, halike, hcontent, hread⟩ := Files.Disk.exists_of_write hwrite
  have hgrows := Files.Disk.grows_makeDirectories disk directory
  rw [hgrows.location?_eq] at hl
  simp only [hgrows.content?_eq] at hcontent
  refine ⟨l, disk', ⟨hl, halike, hcontent, hread⟩, ?_⟩
  rw [set]
  split
  · next heq => rw [heq] at hok; cases hok
  · next heq =>
    rw [heq] at hwrite
    rw [Files.Disk.writeText, ← octets, hwrite]

/-- A failure leaves the directories that have been made. -/
theorem set_files_of_not_accepts {key : String} (h : ¬ (Store.files directory disk).Accepts key)
    (text : String) :
    ∃ e, (Store.files directory disk).set key text =
      (.files directory (disk.makeDirectories directory).1, .error e) := by
  rw [set]
  split
  · next disk' e heq => exact ⟨_, by rw [heq]⟩
  · next disk' heq =>
    split
    · next disk'' hwrite =>
      refine absurd (accepts_files_iff.mpr ?_) h
      rw [heq]
      exact ⟨rfl, (Files.Disk.exists_write_iff (octets text)).mp ⟨disk'', hwrite⟩⟩
    · exact ⟨_, by rw [heq]⟩

/-- Files in directories that have been made leave the keys alike. -/
theorem alike_files {disk' : Files.Disk} (hok : (disk.makeDirectories directory).2 = .ok ())
    (h : (disk.makeDirectories directory).1.Alike disk') :
    Alike (.files directory disk) (.files directory disk') where
  slot?_eq := by
    intro k
    simp only [slot?, h.keeps.location?_eq,
      (Files.Disk.grows_makeDirectories disk directory).location?_eq]
  accepts_iff := by
    intro k
    rw [accepts_files_iff, accepts_files_iff, Files.Disk.makeDirectories_of_ok hok h.keeps]
    exact and_congr (iff_of_true rfl hok) ⟨h.symm.writable, h.writable⟩
  readsBack_iff := fun _ => .rfl

theorem alike_makeDirectories (directory : String) (disk : Files.Disk) :
    Alike (.files directory disk) (.files directory (disk.makeDirectories directory).1) := by
  by_cases hok : (disk.makeDirectories directory).2 = .ok ()
  · exact alike_files hok (.refl _)
  · -- No key can be written, before or after.
    refine ⟨fun k => ?_, fun k => ?_, fun _ => .rfl⟩
    · simp only [slot?, (Files.Disk.grows_makeDirectories disk directory).location?_eq]
    · rw [accepts_files_iff, accepts_files_iff]
      exact iff_of_false (fun h => Files.Disk.makeDirectories_of_error hok h.1) fun h => hok h.1

theorem held?_makeDirectories (key : String) :
    (Store.files directory (disk.makeDirectories directory).1).held? key =
      (Store.files directory disk).held? key := by
  have hgrows := Files.Disk.grows_makeDirectories disk directory
  simp only [held?, hgrows.location?_eq, funext hgrows.content?_eq]

end Files

/-! ## Writing -/

/-- A write leaves the keys alike. -/
theorem alike_set (s : Store) (key text : String) : Alike s (s.set key text).1 := by
  cases s with
  | memory values => exact ⟨fun _ => rfl, fun _ => .rfl, fun _ => .rfl⟩
  | faulty values unreadable unwritable =>
    rw [set]
    split
    · exact .refl _
    · refine ⟨fun _ => rfl, fun k => ?_, fun _ => .rfl⟩
      rw [accepts_faulty_iff, accepts_faulty_iff]
  | files directory disk =>
    by_cases h : (Store.files directory disk).Accepts key
    · obtain ⟨l, disk', hfiled, hset⟩ := exists_filed h text
      rw [hset]
      exact alike_files (accepts_files_iff.mp h).1 hfiled.alike
    · obtain ⟨e, hset⟩ := set_files_of_not_accepts h text
      rw [hset]
      exact alike_makeDirectories directory disk

/-- Whether a text can be written does not depend on the text. -/
theorem set_eq_ok_iff {s : Store} {key text : String} :
    (s.set key text).2 = .ok () ↔ s.Accepts key := by
  cases s with
  | memory values => exact .rfl
  | faulty values unreadable unwritable =>
    rw [accepts_faulty_iff, set]
    split
    · next h => simp [h]
    · next h => simp [h]
  | files directory disk =>
    by_cases h : (Store.files directory disk).Accepts key
    · obtain ⟨l, disk', -, hset⟩ := exists_filed h text
      rw [hset]
      exact iff_of_true rfl h
    · obtain ⟨e, hset⟩ := set_files_of_not_accepts h text
      rw [hset]
      exact iff_of_false (by simp) h

/-- A text is written to the slot of its key, and nowhere else. -/
theorem held?_set_of_accepts {s : Store} {key : String} (h : s.Accepts key) (text k : String) :
    (s.set key text).1.held? k =
      if s.slot? k = s.slot? key then some (octets text) else s.held? k := by
  cases s with
  | memory values => exact held?_insert values key text k
  | faulty values unreadable unwritable =>
    rw [accepts_faulty_iff] at h
    rw [set, if_neg h]
    exact held?_insert values key text k
  | files directory disk =>
    obtain ⟨l, disk', hfiled, hset⟩ := exists_filed h text
    rw [hset]
    simp only [held?, slot?, hfiled.keeps.location?_eq, hfiled.location?_eq]
    cases disk.location? (Files.childText directory k) with
    | none => simp
    | some m => simp [hfiled.content?_eq]

/-- A text that cannot be written changes nothing. -/
theorem held?_set_of_not_accepts {s : Store} {key : String} (h : ¬ s.Accepts key)
    (text k : String) : (s.set key text).1.held? k = s.held? k := by
  cases s with
  | memory values => exact absurd rfl h
  | faulty values unreadable unwritable =>
    rw [accepts_faulty_iff, not_not] at h
    rw [set, if_pos h]
  | files directory disk =>
    obtain ⟨e, hset⟩ := set_files_of_not_accepts h text
    rw [hset]
    exact held?_makeDirectories k

/-- The text of a key is in its slot, and can be read there. -/
structure Holds (s : Store) (key text : String) : Prop where
  /-- The slot holds the octets of the text. -/
  held?_eq : s.held? key = some (octets text)
  /-- The key is read as the text. -/
  get_eq : s.ReadsBack key → s.get key = .ok (some text)

theorem holds_set_self {s : Store} {key : String} (h : s.Accepts key) (text : String) :
    (s.set key text).1.Holds key text where
  held?_eq := by rw [held?_set_of_accepts h, if_pos rfl]
  get_eq := by
    intro hr
    rw [(alike_set s key text).readsBack_iff] at hr
    cases s with
    | memory values => rw [set, get, Fields.get?_insert, if_pos rfl]
    | faulty values unreadable unwritable =>
      rw [accepts_faulty_iff] at h
      rw [set, if_neg h, get, if_neg hr, Fields.get?_insert, if_pos rfl]
    | files directory disk =>
      obtain ⟨l, disk', hfiled, hset⟩ := exists_filed h text
      rw [hset, get_files_eq_some_iff]
      exact ⟨octets text, hfiled.read_eq, Utf8.decode?_encode _⟩

/-- What can be read in one slot can still be read when another one is written. -/
theorem get_set_of_ne {s : Store} {key k t : String} (text : String)
    (hne : s.Accepts key → s.slot? k ≠ s.slot? key) (h : s.get k = .ok (some t)) :
    (s.set key text).1.get k = .ok (some t) := by
  cases s with
  | memory values =>
    have hk : k ≠ key := fun heq => hne rfl (by rw [heq])
    rw [set, get, Fields.get?_insert, if_neg hk]
    exact h
  | faulty values unreadable unwritable =>
    rw [set]
    split
    · exact h
    · next haccepts =>
      have hk : k ≠ key := fun heq => hne (accepts_faulty_iff.mpr haccepts) (by rw [heq])
      rw [get] at h ⊢
      rw [Fields.get?_insert, if_neg hk]
      exact h
  | files directory disk =>
    obtain ⟨content, hread, hdecode⟩ := get_files_eq_some_iff.mp h
    obtain ⟨l, hl, hcontent, hkeep⟩ := Files.Disk.exists_of_read hread
    by_cases haccepts : (Store.files directory disk).Accepts key
    · obtain ⟨m, disk', hfiled, hset⟩ := exists_filed haccepts text
      have hlm : l ≠ m := by
        rintro rfl
        exact hne haccepts (by rw [slot?, slot?, hl, hfiled.location?_eq])
      rw [hset, get_files_eq_some_iff]
      refine ⟨content, hkeep disk' hfiled.keeps ?_, hdecode⟩
      rw [hfiled.content?_eq, if_neg hlm, hcontent]
    · obtain ⟨e, hset⟩ := set_files_of_not_accepts haccepts text
      have hgrows := Files.Disk.grows_makeDirectories disk directory
      rw [hset, get_files_eq_some_iff]
      exact ⟨content, hkeep _ hgrows.toKeeps ((hgrows.content?_eq l).trans hcontent), hdecode⟩

theorem held?_set_of_ne {s : Store} {key k : String} (text : String)
    (hne : s.Accepts key → s.slot? k ≠ s.slot? key) :
    (s.set key text).1.held? k = s.held? k := by
  by_cases h : s.Accepts key
  · rw [held?_set_of_accepts h, if_neg (hne h)]
  · exact held?_set_of_not_accepts h text k

theorem Holds.set_of_ne {s : Store} {key k t : String} (h : s.Holds k t) (text : String)
    (hne : s.Accepts key → s.slot? k ≠ s.slot? key) : (s.set key text).1.Holds k t where
  held?_eq := (held?_set_of_ne text hne).trans h.held?_eq
  get_eq := by
    intro hr
    rw [(alike_set s key text).readsBack_iff] at hr
    exact get_set_of_ne text hne (h.get_eq hr)

/-- A key that can be read once can be read whenever it is written. -/
theorem readsBack_of_get {s : Store} {key : String} {t : Option String} (h : s.get key = .ok t) :
    s.ReadsBack key := by
  cases s with
  | memory values => trivial
  | faulty values unreadable unwritable =>
    intro hmem
    rw [get, if_pos hmem] at h
    cases h
  | files directory disk => trivial

/-! ## Slots of their own -/

/-- A key of the store: any text for a map, and the name of a file for a directory. -/
def IsKey (s : Store) (key : String) : Prop :=
  match s with
  | .memory _ => True
  | .faulty _ _ _ => True
  | .files _ _ => Files.IsName key

/-- Two keys have two slots. -/
theorem eq_of_slot?_eq_some {s : Store} {k k' : String} {a : Slot} (hk : s.IsKey k)
    (hk' : s.IsKey k') (h : s.slot? k = some a) (h' : s.slot? k' = some a) : k = k' := by
  cases s with
  | memory values =>
    cases h
    cases h'
    rfl
  | faulty values unreadable unwritable =>
    cases h
    cases h'
    rfl
  | files directory disk =>
    obtain ⟨l, hl, rfl⟩ := Option.map_eq_some_iff.mp h
    obtain ⟨l', hl', heq⟩ := Option.map_eq_some_iff.mp h'
    cases heq
    have hlast := Files.getLast?_of_location?_childText hk hl
    rw [Files.getLast?_of_location?_childText hk' hl'] at hlast
    exact (Option.some.inj hlast).symm

theorem exists_slot_of_accepts {s : Store} {key : String} (h : s.Accepts key) :
    ∃ a, s.slot? key = some a := by
  cases s with
  | memory values => exact ⟨_, rfl⟩
  | faulty values unreadable unwritable => exact ⟨_, rfl⟩
  | files directory disk =>
    obtain ⟨l, disk', hfiled, -⟩ := exists_filed h ""
    exact ⟨.location l, by rw [slot?, hfiled.location?_eq, Option.map_some]⟩

theorem isName_of_mem_keys {key : String} (h : key ∈ State.keys) : Files.IsName key := by
  have hall : ∀ key ∈ State.keys, key.toList ≠ [] ∧ '/' ∉ key.toList ∧
      Files.Part.ofText key.toList = .name key := by decide +kernel
  obtain ⟨hne, hslash, hpart⟩ := hall key h
  exact ⟨hne, hslash, hpart⟩

theorem isKey_of_mem_keys {key : String} (h : key ∈ State.keys) (s : Store) : s.IsKey key := by
  cases s with
  | memory values => trivial
  | faulty values unreadable unwritable => trivial
  | files directory disk => exact isName_of_mem_keys h

end Store

end Playground
