import Playground.Proofs.Files.Absence
import Playground.Proofs.Storage.Saving

/-!
# Saving and loading

The keys that a save could not write are found by following it from write to write
(`refused`).  They are the keys that the store does not accept (`mem_refused_iff`), so one
failure has no part in another, and a save counts each of them once (`snd_save`).

What the store keeps is told slot by slot (`kept?`), so that it speaks of every file of a disk
and not only of those that a key names.  A save changes the slots of the fields it could write
and no other (`kept?_save`).  A state that has been saved is loaded again (`apply_load_save`).
-/

namespace Playground.Store

/-! ## What is in a slot -/

/-- What the store keeps in a slot, whether it can be read or not. -/
def kept? (s : Store) (a : Slot) : Option (List UInt8) :=
  match s, a with
  | .memory values, .key k => (values.get? k).map octets
  | .faulty values _ _, .key k => (values.get? k).map octets
  | .files _ disk, .location l => disk.content? l
  | _, _ => none

/-- A write leaves every slot but that of its key as it was. -/
theorem kept?_set_of_ne {s : Store} {key : String} {a : Slot} (text : String)
    (h : s.Accepts key → s.slot? key ≠ some a) : (s.set key text).1.kept? a = s.kept? a := by
  cases s with
  | memory values =>
    cases a with
    | key k =>
      have hk : k ≠ key := by
        rintro rfl
        exact h rfl rfl
      rw [set, kept?, kept?, Fields.get?_insert, if_neg hk]
    | location l => rfl
  | faulty values unreadable unwritable =>
    rw [set]
    split
    · rfl
    · next haccepts =>
      cases a with
      | key k =>
        have hk : k ≠ key := by
          rintro rfl
          exact h (accepts_faulty_iff.mpr haccepts) rfl
        rw [kept?, kept?, Fields.get?_insert, if_neg hk]
      | location l => rfl
  | files directory disk =>
    by_cases haccepts : (Store.files directory disk).Accepts key
    · obtain ⟨m, disk', hfiled, hset⟩ := exists_filed haccepts text
      rw [hset]
      cases a with
      | key k => rfl
      | location l =>
        have hl : l ≠ m := by
          rintro rfl
          exact h haccepts (by rw [slot?, hfiled.location?_eq, Option.map_some])
        rw [kept?, kept?, hfiled.content?_eq, if_neg hl]
    · obtain ⟨e, hset⟩ := set_files_of_not_accepts haccepts text
      rw [hset]
      cases a with
      | key k => rfl
      | location l => exact (Files.Disk.grows_makeDirectories disk directory).content?_eq l

theorem kept?_write_of_ne {s : Store} {ps : List (String × String)} {a : Slot}
    (h : ∀ p ∈ ps, s.Accepts p.1 → s.slot? p.1 ≠ some a) : (s.write ps).kept? a = s.kept? a := by
  induction ps generalizing s with
  | nil => rfl
  | cons p ps ih =>
    have halike := alike_set s p.1 p.2
    rw [write_cons, ih, kept?_set_of_ne p.2 (h p (List.mem_cons_self ..))]
    intro q hq haccepts
    rw [halike.slot?_eq]
    exact h q (List.mem_cons_of_mem p hq) ((halike.accepts_iff q.1).mp haccepts)

/-- What can be read can still be read when other slots have been written. -/
theorem get_write_of_misses {s : Store} {ps : List (String × String)} {k t : String}
    (h : s.Misses ps k) (hget : s.get k = .ok (some t)) : (s.write ps).get k = .ok (some t) := by
  induction ps generalizing s with
  | nil => exact hget
  | cons p ps ih => exact ih h.tail (get_set_of_ne p.2 (h p (List.mem_cons_self ..)) hget)

/-! ## Failures -/

/-- The keys whose texts could not be written, where the texts are written one after the
other. -/
def refused (s : Store) : List (String × String) → List String
  | [] => []
  | p :: ps =>
    match s.set p.1 p.2 with
    | (s, .ok ()) => refused s ps
    | (s, .error _) => p.1 :: refused s ps

theorem refused_cons_of_accepts {s : Store} {p : String × String} (h : s.Accepts p.1)
    (ps : List (String × String)) : s.refused (p :: ps) = (s.set p.1 p.2).1.refused ps := by
  have hok : (s.set p.1 p.2).2 = .ok () := set_eq_ok_iff.mpr h
  rw [refused]
  split
  · next heq => rw [heq]
  · next heq => rw [heq] at hok; cases hok

theorem refused_cons_of_not_accepts {s : Store} {p : String × String} (h : ¬ s.Accepts p.1)
    (ps : List (String × String)) :
    s.refused (p :: ps) = p.1 :: (s.set p.1 p.2).1.refused ps := by
  have hok : ¬ (s.set p.1 p.2).2 = .ok () := set_eq_ok_iff.not.mpr h
  rw [refused]
  split
  · next heq => rw [heq] at hok; exact absurd rfl hok
  · next heq => rw [heq]

/-- A key is refused for its own sake, whatever has become of the ones before it. -/
theorem mem_refused_iff {s : Store} {ps : List (String × String)} {key : String} :
    key ∈ s.refused ps ↔ key ∈ ps.map Prod.fst ∧ ¬ s.Accepts key := by
  induction ps generalizing s with
  | nil => simp [refused]
  | cons p ps ih =>
    rw [List.map_cons, List.mem_cons]
    by_cases h : s.Accepts p.1
    · rw [refused_cons_of_accepts h, ih, (alike_set s p.1 p.2).accepts_iff]
      refine and_congr_left fun hkey => (or_iff_right ?_).symm
      rintro rfl
      exact hkey h
    · rw [refused_cons_of_not_accepts h, List.mem_cons, ih, (alike_set s p.1 p.2).accepts_iff]
      constructor
      · rintro (rfl | ⟨hmem, hkey⟩)
        · exact ⟨Or.inl rfl, h⟩
        · exact ⟨Or.inr hmem, hkey⟩
      · rintro ⟨rfl | hmem, hkey⟩
        · exact Or.inl rfl
        · exact Or.inr ⟨hmem, hkey⟩

theorem refused_sublist (s : Store) (ps : List (String × String)) :
    (s.refused ps).Sublist (ps.map Prod.fst) := by
  induction ps generalizing s with
  | nil => exact .slnil
  | cons p ps ih =>
    by_cases h : s.Accepts p.1
    · rw [refused_cons_of_accepts h]
      exact (ih _).cons _
    · rw [refused_cons_of_not_accepts h]
      exact (ih _).cons_cons _

theorem snd_foldl_saveStep (acc : Store × Nat) (ps : List (String × String)) :
    (ps.foldl saveStep acc).2 = acc.2 + (acc.1.refused ps).length := by
  induction ps generalizing acc with
  | nil => rfl
  | cons p ps ih =>
    rw [List.foldl_cons, ih, fst_saveStep, saveStep, refused]
    split
    · next heq => rw [heq]
    · next heq => rw [heq, List.length_cons, Nat.add_assoc, Nat.add_comm 1]

/-- A save counts the keys that it could not write. -/
theorem snd_save (s : Store) (st : State) : (s.save st).2 = (s.refused st.toPairs).length := by
  rw [save, snd_foldl_saveStep, Nat.zero_add]

theorem refused_eq_nil_iff {s : Store} {st : State} :
    s.refused st.toPairs = [] ↔ ∀ key ∈ State.keys, s.Accepts key := by
  rw [List.eq_nil_iff_forall_not_mem]
  simp only [mem_refused_iff, State.map_fst_toPairs, not_and, not_not]

/-! ## A save and what is loaded after it -/

/-- A key that a store cannot read back gives an error, whatever is kept for it. -/
theorem exists_get_eq_error {s : Store} {key : String} (h : ¬ s.ReadsBack key) :
    ∃ e, s.get key = .error e := by
  cases s with
  | memory values => exact absurd trivial h
  | files directory disk => exact absurd trivial h
  | faulty values unreadable unwritable =>
    rw [ReadsBack, not_not] at h
    exact ⟨_, by rw [get, if_pos h]⟩

/-- A save leaves the slots of all keys but those it could write as they were. -/
theorem kept?_save {s : Store} {st : State} {a : Slot}
    (h : ∀ key ∈ State.keys, key ∉ s.refused st.toPairs → s.slot? key ≠ some a) :
    (s.save st).1.kept? a = s.kept? a := by
  rw [fst_save]
  refine kept?_write_of_ne fun p hp haccepts => ?_
  have hkey : p.1 ∈ State.keys := List.mem_map_of_mem hp
  exact h p.1 hkey fun hmem => (mem_refused_iff.mp hmem).2 haccepts

/-- What could be read apart from the keys that were written can still be read. -/
theorem get_save_of_ne {s : Store} {st : State} {k t : String}
    (h : ∀ key ∈ State.keys, key ∉ s.refused st.toPairs → s.slot? k ≠ s.slot? key)
    (hget : s.get k = .ok (some t)) : (s.save st).1.get k = .ok (some t) := by
  rw [fst_save]
  refine get_write_of_misses (fun p hp haccepts => ?_) hget
  have hkey : p.1 ∈ State.keys := List.mem_map_of_mem hp
  exact h p.1 hkey fun hmem => (mem_refused_iff.mp hmem).2 haccepts

/-- A state that can be read in a store is loaded from it, into any state. -/
theorem apply_load_eq {s : Store} {st : State}
    (h : ∀ p ∈ st.toPairs, s.get p.1 = .ok (some p.2)) (t : State) : t.apply s.load = st := by
  have hload : s.load = st.toFields := by
    rw [load, State.toFields, ← State.map_fst_toPairs st, List.filterMap_map]
    congr 1
    refine (List.filterMap_congr fun p hp => ?_).trans List.filterMap_some
    rw [Function.comp_apply, h p hp]
  rw [hload, State.apply_toFields]

/-- A state that has been saved without a failure is loaded again, if it can be read. -/
theorem apply_load_save {s : Store} {st : State} (hsave : (s.save st).2 = 0)
    (hread : ∀ key ∈ State.keys, ∀ e, (s.save st).1.get key ≠ .error e) (t : State) :
    t.apply (s.save st).1.load = st := by
  have haccepts := refused_eq_nil_iff.mp (List.length_eq_zero_iff.mp (snd_save s st ▸ hsave))
  refine apply_load_eq (fun p hp => ?_) t
  have hkey : p.1 ∈ State.keys := List.mem_map_of_mem hp
  refine ((saved_save s st).holds p hp (haccepts p.1 hkey)).get_eq ?_
  by_contra hbad
  obtain ⟨e, he⟩ := exists_get_eq_error hbad
  exact hread p.1 hkey e he

/-! ## Stores on a disk -/

section Files

variable {directory key : String} {disk : Files.Disk}

theorem childText_ne_empty (hkey : key ∈ State.keys) (directory : String) :
    Files.childText directory key ≠ "" := by
  have hne := (isName_of_mem_keys hkey).ne_nil
  intro hempty
  have htext := Files.toList_childText directory key
  rw [hempty] at htext
  rcases htext with heq | ⟨a, heq⟩
  · exact hne heq.symm
  · simp at heq

/-- A key is absent exactly if its file or a directory around it is missing. -/
theorem get_files_eq_none_iff (hkey : key ∈ State.keys) :
    (Store.files directory disk).get key = .ok none ↔
      disk.Missing (Files.childText directory key) := by
  rw [← Files.Disk.readText_eq_notFound_iff (childText_ne_empty hkey directory), get]
  cases disk.readText (Files.childText directory key) with
  | ok text => simp
  | error e => cases e <;> simp

/-- A key is unreadable exactly if its file cannot be read for another cause. -/
theorem get_files_eq_error_iff {error : PlaygroundError} :
    (Store.files directory disk).get key = .error error ↔
      ∃ e, disk.readText (Files.childText directory key) = .error e ∧ e ≠ .notFound ∧
        error = .storage e := by
  rw [get]
  cases disk.readText (Files.childText directory key) with
  | ok text => simp
  | error e => cases e <;> simp [eq_comm]

end Files

/-- A save counts the keys that it could not write.  The slots of the others hold the texts of
the state, which are read back unless the key cannot be read at all, and every other slot is
as it was.  What is loaded is what can be read under the keys of the fields.  So a state that
was saved without a failure, and can be read, is loaded into any state.  On a disk a key is
absent if its file or a directory around it is missing, and unreadable for any other cause. -/
theorem load_after_save (s : Store) (st : State) :
    let failed := s.refused st.toPairs
    let after := (s.save st).1
    ((s.save st).2 = failed.length ∧ failed.Sublist State.keys) ∧
    (∀ p ∈ st.toPairs, p.1 ∉ failed → after.held? p.1 = some (octets p.2) ∧
      (after.get p.1 = .ok (some p.2) ∨ ¬ s.ReadsBack p.1 ∧ ∃ e, after.get p.1 = .error e)) ∧
    (∀ a, (∀ key ∈ State.keys, key ∉ failed → s.slot? key ≠ some a) →
      after.kept? a = s.kept? a) ∧
    (∀ k, k ∈ failed ∨ s.Apart k → after.held? k = s.held? k ∧
      ∀ text, s.get k = .ok (some text) → after.get k = .ok (some text)) ∧
    (∀ key text, s.load.get? key = some text ↔
      key ∈ State.keys ∧ s.get key = .ok (some text)) ∧
    ((s.save st).2 = 0 → (∀ key ∈ State.keys, ∀ e, after.get key ≠ .error e) →
      ∀ t : State, t.apply after.load = st) ∧
    ∀ directory disk, s = .files directory disk → ∀ key ∈ State.keys,
      (s.get key = .ok none ↔ disk.Missing (Files.childText directory key)) ∧
      ∀ error, s.get key = .error error ↔
        ∃ e, disk.readText (Files.childText directory key) = .error e ∧ e ≠ .notFound ∧
          error = .storage e := by
  intro failed after
  have hsaved : Saved s st after := saved_save s st
  have haccepts : ∀ key ∈ State.keys, key ∉ failed → s.Accepts key := by
    intro key hkey hmem
    by_contra hbad
    exact hmem (mem_refused_iff.mpr ⟨hkey, hbad⟩)
  refine ⟨⟨snd_save s st, refused_sublist s st.toPairs⟩, ?_, fun a => kept?_save, ?_,
    fun key text => get?_load, apply_load_save, ?_⟩
  · intro p hp hmem
    have hholds := hsaved.holds p hp (haccepts p.1 (List.mem_map_of_mem hp) hmem)
    refine ⟨hholds.held?_eq, ?_⟩
    by_cases hreads : s.ReadsBack p.1
    · exact Or.inl (hholds.get_eq ((hsaved.readsBack_iff p.1).mpr hreads))
    · exact Or.inr ⟨hreads, exists_get_eq_error fun h => hreads ((hsaved.readsBack_iff p.1).mp h)⟩
  · intro k hk
    have hne : ∀ key ∈ State.keys, key ∉ failed → s.slot? k ≠ s.slot? key := by
      intro key hkey hmem
      rcases hk with hrefused | hapart
      · refine slot?_ne_of_mem_keys (mem_refused_iff.mp hrefused).1 hkey ?_
          (haccepts key hkey hmem)
        rintro rfl
        exact hmem hrefused
      · obtain ⟨a, ha⟩ := exists_slot_of_accepts (haccepts key hkey hmem)
        rw [ha]
        exact hapart key hkey a ha
    refine ⟨hsaved.held?_eq k fun key hkey h => ?_, fun text => get_save_of_ne hne⟩
    exact hne key hkey fun hmem => (mem_refused_iff.mp hmem).2 h
  · rintro directory disk rfl key hkey
    exact ⟨get_files_eq_none_iff hkey, fun error => get_files_eq_error_iff⟩

/-- A directory in which the compiler is a directory, and the program is no text. -/
def crowdedStore : Store := .files "store" ⟨[(["store"], .directory),
  (["store", "compiler"], .directory), (["store", "code"], .file [0xFF]),
  (["store", "notes"], .file [0x61])], []⟩

/-- A directory in a directory, of which neither is there. -/
def freshStore : Store := .files "new/store" ⟨[], []⟩

/-- A state to be saved. -/
def smallState : State := ⟨"int x;", "g75", "-O2", false⟩

theorem load_after_save_crowdedStore :
    ((crowdedStore.save smallState).2 = 1 ∧
      (crowdedStore.save smallState).1.get "code" = .ok (some "int x;") ∧
      (crowdedStore.save smallState).1.held? "compiler" = none ∧
      (crowdedStore.save smallState).1.kept? (.location ["store", "notes"]) = some [0x61]) ∧
    ((freshStore.save smallState).2 = 0 ∧ freshStore.get "code" = .ok none ∧
      State.initial.apply (freshStore.save smallState).1.load = smallState) := by
  obtain ⟨⟨hcount, -⟩, hwritten, hkept, hfailed, -⟩ := load_after_save crowdedStore smallState
  obtain ⟨-, -, -, -, -, hload, -⟩ := load_after_save freshStore smallState
  have hrefused : crowdedStore.refused smallState.toPairs = ["compiler"] := by decide +kernel
  rw [hrefused] at hcount hwritten hkept hfailed
  refine ⟨⟨hcount, ?_, ?_, ?_⟩, by decide +kernel, by decide +kernel, ?_⟩
  · obtain ⟨-, hread | ⟨hnever, -⟩⟩ := hwritten ("code", "int x;") (.head _) (by decide)
    · exact hread
    · exact absurd trivial hnever
  · rw [(hfailed "compiler" (Or.inl (.head _))).1]
    decide +kernel
  · rw [hkept _ (by decide +kernel)]
    decide +kernel
  · refine hload (by decide +kernel) ?_ State.initial
    intro key hkey e he
    have hall : ∀ key ∈ State.keys, ((freshStore.save smallState).1.get key).toOption.isSome := by
      decide +kernel
    have hsome := hall key hkey
    rw [he] at hsome
    cases hsome

end Playground.Store
