import Playground.Proofs.Storage.Saving

/-!
# Texts that are written over

A text that is written to a key leaves nothing behind when another one is written to that key
later on: the store is the very one that it would be without the first write (`write_write`).
So of two saves only the second one counts (`save_save`).

Until then the two stores are the same but for the text of that key (`SameBut`).  They are so
entry by entry, since a write takes the entry of its key out of the others and puts the new one
at the end.  A directory is made by whatever write comes first, and the next ones add nothing
to it.
-/

namespace Playground

/-! ## Entries -/

namespace Entries

variable {α β : Type} [DecidableEq α]

/-- The entries of all keys but one. -/
def others (key : α) (es : List (α × β)) : List (α × β) := es.filter fun e => !decide (e.1 = key)

theorem others_others_self (key : α) (es : List (α × β)) :
    others key (others key es) = others key es := by
  simp [others]

theorem others_comm (key k : α) (es : List (α × β)) :
    others key (others k es) = others k (others key es) :=
  List.filter_comm _ _ es

theorem others_append (key : α) (es es' : List (α × β)) :
    others key (es ++ es') = others key es ++ others key es' :=
  List.filter_append ..

end Entries

open Entries

/-! ## Maps -/

namespace Fields

variable {m n : Fields} {key : String}

theorem toList_insert (m : Fields) (key text : String) :
    (m.insert key text).toList = others key m.toList ++ [(key, text)] := rfl

/-- A write does not depend on the text that was there. -/
theorem insert_eq_of_others_eq (h : others key n.toList = others key m.toList)
    (text : String) : m.insert key text = n.insert key text := by
  rw [Fields.mk.injEq, toList_insert, toList_insert, h]

theorem others_insert_self (m : Fields) (key text : String) :
    others key (m.insert key text).toList = others key m.toList := by
  rw [toList_insert, others_append, others_others_self]
  simp [others]

theorem others_insert_eq (h : others key n.toList = others key m.toList) (k text : String) :
    others key (n.insert k text).toList = others key (m.insert k text).toList := by
  rw [toList_insert, toList_insert, others_append, others_append, others_comm, h, others_comm]

end Fields

/-! ## Disks -/

namespace Files.Disk

variable {d d' : Disk} {l : Location}

theorem nodes_put (d : Disk) (l : Location) (n : Node) :
    (d.put l n).nodes = [(l, n)] ++ others l d.nodes := rfl

/-- A node that is put somewhere does not depend on the one that was there. -/
theorem put_eq_of_others_eq (hcurrent : d'.current = d.current)
    (h : others l d'.nodes = others l d.nodes) (n : Node) : d.put l n = d'.put l n := by
  rw [Disk.mk.injEq, nodes_put, nodes_put, h]
  exact ⟨rfl, hcurrent.symm⟩

theorem others_put_self (d : Disk) (l : Location) (n : Node) :
    others l (d.put l n).nodes = others l d.nodes := by
  rw [nodes_put, others_append, others_others_self]
  simp [others]

theorem others_put_eq (h : others l d'.nodes = others l d.nodes) (k : Location) (n : Node) :
    others l (d'.put k n).nodes = others l (d.put k n).nodes := by
  rw [nodes_put, nodes_put, others_append, others_append, others_comm, h, others_comm]

/-- A text that is written goes to the same file on every disk with the same directories. -/
theorem exists_put_of_writeText {e : Disk} {text content : String}
    (h : d.writeText text content = .ok e) : ∃ l, d.location? text = some l ∧
      e = d.put l (.file (octets content)) ∧
      ∀ d', Alike d d' → Alike d' (d'.put l (.file (octets content))) ∧
        d'.writeText text content = .ok (d'.put l (.file (octets content))) := by
  unfold writeText write at *
  cases hchecked : checked text with
  | error x => rw [hchecked] at h; cases h
  | ok p =>
    rw [hchecked] at h
    obtain ⟨dir, s, l, hholder, hlast, hslash, henter, hnode, rfl⟩ := writeAt_eq_ok_iff.mp h
    have hleads : d.Leads p l := ⟨⟨dir, _, hholder, hlast, henter⟩, hslash⟩
    refine ⟨l, location?_eq_some_iff.mpr ⟨p, hchecked, hleads.follow_eq⟩, rfl, ?_⟩
    intro d' halike
    have hholder' : d'.holder p = .ok dir := by
      rw [holder, halike.keeps.origin_eq]
      exact halike.keeps.walk hholder
    have hnode' : d'.node? l ≠ some .directory :=
      fun hdir => hnode (halike.symm_keeps.directory l hdir)
    exact ⟨alike_put_file (ne_nil_of_enter henter) hnode' _,
      writeAt_eq_ok_iff.mpr ⟨dir, s, l, hholder', hlast, hslash, henter, hnode', rfl⟩⟩

/-- Directories that are there on a disk are there on every one with the same directories. -/
theorem Alike.makeDirectories_eq {directory : String} (h : Alike d d')
    (hmade : d.makeDirectories directory = (d, .ok ())) :
    d'.makeDirectories directory = (d', .ok ()) :=
  makeDirectories_of_ok (by rw [hmade]) (by rw [hmade]; exact h.keeps)

end Files.Disk

/-! ## Stores -/

namespace Store

section Files

variable {directory key text : String} {disk disk' : Files.Disk}

/-- A text is written when the directories have been made. -/
theorem set_files_of_ok (h : disk.makeDirectories directory = (disk', .ok ())) :
    (Store.files directory disk).set key text =
      match disk'.writeText (Files.childText directory key) text with
      | .ok disk => (.files directory disk, .ok ())
      | .error e => (.files directory disk', .error (.storage e)) := by
  rewrite [set, h]
  rfl

theorem exists_writeText_of_accepts (h : disk.makeDirectories directory = (disk', .ok ()))
    (haccepts : (Store.files directory disk).Accepts key) (text : String) :
    ∃ e, disk'.writeText (Files.childText directory key) text = .ok e := by
  have hwritable := (accepts_files_iff.mp haccepts).2
  rw [h] at hwritable
  exact (Files.Disk.exists_write_iff (octets text)).mpr hwritable

theorem fst_set_files_of_error (h : (disk.makeDirectories directory).2 ≠ .ok ()) :
    ((Store.files directory disk).set key text).1 =
      .files directory (disk.makeDirectories directory).1 := by
  rw [set]
  split
  · next heq => rw [heq]
  · next heq =>
    rw [heq] at h
    exact absurd rfl h

end Files

/-- The store with its directory made, if it has one. -/
def ready (s : Store) : Store :=
  match s with
  | .files directory disk => .files directory (disk.makeDirectories directory).1
  | s => s

theorem alike_ready (s : Store) : Alike s s.ready := by
  cases s with
  | memory values => exact .refl _
  | faulty values unreadable unwritable => exact .refl _
  | files directory disk => exact alike_makeDirectories directory disk

/-- Every write makes the directory first. -/
theorem fst_set_ready (s : Store) (key text : String) :
    (s.ready.set key text).1 = (s.set key text).1 := by
  cases s with
  | memory values => rfl
  | faulty values unreadable unwritable => rfl
  | files directory disk =>
    rw [ready]
    by_cases hok : (disk.makeDirectories directory).2 = .ok ()
    · rw [set_files_of_ok (Prod.ext rfl hok),
        set_files_of_ok (Files.Disk.makeDirectories_of_ok hok (.refl _))]
    · rw [fst_set_files_of_error hok,
        fst_set_files_of_error (Files.Disk.makeDirectories_of_error hok),
        Files.Disk.fst_makeDirectories_again]

/-- A text that cannot be written leaves the directory. -/
theorem fst_set_of_not_accepts {s : Store} {key : String} (h : ¬ s.Accepts key) (text : String) :
    (s.set key text).1 = s.ready := by
  cases s with
  | memory values => exact absurd rfl h
  | faulty values unreadable unwritable =>
    rw [accepts_faulty_iff, not_not] at h
    rw [set, if_pos h]
    rfl
  | files directory disk =>
    obtain ⟨e, hset⟩ := set_files_of_not_accepts h text
    rw [hset, ready]

/-- Two stores with their directories made that are the same but for the text of a key. -/
inductive SameBut (key : String) : Store → Store → Prop where
  /-- In memory. -/
  | memory {values values' : Fields} :
      others key values'.toList = others key values.toList →
      SameBut key (.memory values) (.memory values')
  /-- With the same faults. -/
  | faulty {values values' : Fields} {unreadable unwritable : List String} :
      others key values'.toList = others key values.toList →
      SameBut key (.faulty values unreadable unwritable) (.faulty values' unreadable unwritable)
  /-- On disks with the same directories. -/
  | files {directory : String} {disk disk' : Files.Disk} {l : Files.Location} :
      disk.makeDirectories directory = (disk, .ok ()) →
      disk.location? (Files.childText directory key) = some l → disk.Alike disk' →
      others l disk'.nodes = others l disk.nodes →
      SameBut key (.files directory disk) (.files directory disk')

namespace SameBut

variable {s s' : Store} {key : String}

/-- A text that is written. -/
theorem of_accepts (h : s.Accepts key) (text : String) :
    SameBut key s.ready (s.set key text).1 := by
  cases s with
  | memory values => exact .memory (values.others_insert_self key text)
  | faulty values unreadable unwritable =>
    rw [accepts_faulty_iff] at h
    rw [set, if_neg h]
    exact .faulty (values.others_insert_self key text)
  | files directory disk =>
    have hok := (accepts_files_iff.mp h).1
    have hmade := Files.Disk.makeDirectories_of_ok hok (.refl _)
    obtain ⟨e, hwrite⟩ := exists_writeText_of_accepts (Prod.ext rfl hok) h text
    obtain ⟨l, hl, rfl, hput⟩ := Files.Disk.exists_put_of_writeText hwrite
    rw [set_files_of_ok (Prod.ext rfl hok), hwrite, ready]
    exact .files hmade hl (hput _ (.refl _)).1 (Files.Disk.others_put_self _ l _)

/-- Any other text that is written to both. -/
theorem set (h : SameBut key s s') (k text : String) :
    SameBut key (s.set k text).1 (s'.set k text).1 := by
  cases h with
  | memory h => exact .memory (Fields.others_insert_eq h k text)
  | faulty h =>
    simp only [Store.set]
    split
    · exact .faulty h
    · exact .faulty (Fields.others_insert_eq h k text)
  | @files directory disk disk' l hmade hl halike h =>
    rw [set_files_of_ok hmade, set_files_of_ok (halike.makeDirectories_eq hmade)]
    cases hwrite : disk.writeText (Files.childText directory k) text with
    | ok e =>
      obtain ⟨m, -, rfl, hput⟩ := Files.Disk.exists_put_of_writeText hwrite
      obtain ⟨hself, -⟩ := hput disk (.refl _)
      obtain ⟨hother, hwrite'⟩ := hput disk' halike
      rw [hwrite']
      exact .files (hself.makeDirectories_eq hmade) (by rw [hself.keeps.location?_eq, hl])
        ((hself.symm.trans halike).trans hother) (Files.Disk.others_put_eq h m _)
    | error e =>
      cases hwrite' : disk'.writeText (Files.childText directory k) text with
      | ok e' =>
        -- It could be written to the first disk as well.
        obtain ⟨m, -, -, hput⟩ := Files.Disk.exists_put_of_writeText hwrite'
        cases hwrite.symm.trans (hput disk halike.symm).2
      | error e' => exact .files hmade hl halike h

theorem write (h : SameBut key s s') (ps : List (String × String)) :
    SameBut key (s.write ps) (s'.write ps) := by
  induction ps generalizing s s' with
  | nil => exact h
  | cons p ps ih => exact ih (h.set p.1 p.2)

/-- The text of the key that is written to both. -/
theorem fst_set_eq (h : SameBut key s s') (haccepts : s.Accepts key) (text : String) :
    (s.set key text).1 = (s'.set key text).1 := by
  cases h with
  | memory h =>
    simp only [Store.set]
    rw [Fields.insert_eq_of_others_eq h text]
  | faulty h =>
    rw [accepts_faulty_iff] at haccepts
    simp only [Store.set, if_neg haccepts]
    rw [Fields.insert_eq_of_others_eq h text]
  | @files directory disk disk' l hmade hl halike h =>
    obtain ⟨e, hwrite⟩ := exists_writeText_of_accepts hmade haccepts text
    obtain ⟨m, hm, rfl, hput⟩ := Files.Disk.exists_put_of_writeText hwrite
    obtain rfl : m = l := Option.some.inj (hm.symm.trans hl)
    rw [set_files_of_ok hmade, set_files_of_ok (halike.makeDirectories_eq hmade), hwrite,
      (hput disk' halike).2, Files.Disk.put_eq_of_others_eq halike.keeps.current_eq h]

end SameBut

/-! ## Writing again -/

theorem write_append (s : Store) (ps qs : List (String × String)) :
    s.write (ps ++ qs) = (s.write ps).write qs :=
  List.foldl_append

/-- A text that is written over leaves nothing behind. -/
theorem write_of_mem (s : Store) {key : String} {qs : List (String × String)}
    (h : key ∈ qs.map Prod.fst) (text : String) : (s.set key text).1.write qs = s.write qs := by
  have hready : s.ready.write qs = s.write qs := by
    cases qs with
    | nil => cases h
    | cons q qs => rw [write_cons, write_cons, fst_set_ready]
  by_cases haccepts : s.Accepts key
  · obtain ⟨q, hq, rfl⟩ := List.mem_map.mp h
    obtain ⟨before, after, rfl⟩ := List.append_of_mem hq
    have hbut := (SameBut.of_accepts haccepts text).write before
    have halike := (alike_ready s).trans (alike_write s.ready before)
    rw [← hready, write_append, write_append, write_cons, write_cons,
      hbut.fst_set_eq ((halike.accepts_iff q.1).mpr haccepts)]
  · rw [fst_set_of_not_accepts haccepts, hready]

/-- Texts that are all written over leave nothing behind. -/
theorem write_write (s : Store) {ps qs : List (String × String)}
    (h : ∀ p ∈ ps, p.1 ∈ qs.map Prod.fst) : (s.write ps).write qs = s.write qs := by
  induction ps generalizing s with
  | nil => rfl
  | cons p ps ih =>
    rw [write_cons, ih _ fun q hq => h q (List.mem_cons_of_mem p hq),
      write_of_mem s (h p (List.mem_cons_self ..))]

/-- Of two saves the second one counts. -/
theorem save_save (s : Store) (st st' : State) : ((s.save st).1.save st').1 = (s.save st').1 := by
  rw [fst_save, fst_save, fst_save]
  refine write_write s fun p hp => ?_
  rw [st'.map_fst_toPairs, ← st.map_fst_toPairs]
  exact List.mem_map_of_mem hp

end Store

end Playground
