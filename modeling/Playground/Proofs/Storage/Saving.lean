import Playground.Proofs.State.Fields
import Playground.Proofs.Storage.Slots

/-!
# Saving

A store that a state has been saved to holds the text of every field whose key it accepts,
and is as it was in all other slots (`Saved`).  This is so after one save (`saved_save`) and
after every later one (`Saved.save`), since the fields have slots of their own.

What is loaded is what can be read under the keys of the fields (`get?_load`).
-/

namespace Playground.Store

/-! ## Writing several texts -/

/-- The store with some texts written to their keys. -/
def write (s : Store) (ps : List (String × String)) : Store :=
  ps.foldl (fun s p => (s.set p.1 p.2).1) s

theorem write_cons (s : Store) (p : String × String) (ps : List (String × String)) :
    s.write (p :: ps) = (s.set p.1 p.2).1.write ps := rfl

theorem fst_saveStep (acc : Store × Nat) (p : String × String) :
    (saveStep acc p).1 = (acc.1.set p.1 p.2).1 := by
  unfold saveStep
  split <;> next h => rw [h]

theorem fst_foldl_saveStep (acc : Store × Nat) (ps : List (String × String)) :
    (ps.foldl saveStep acc).1 = acc.1.write ps := by
  induction ps generalizing acc with
  | nil => rfl
  | cons p ps ih => rw [List.foldl_cons, ih, fst_saveStep, write_cons]

/-- A failure is counted, and the next text is written all the same. -/
theorem fst_save (s : Store) (st : State) : (s.save st).1 = s.write st.toPairs :=
  fst_foldl_saveStep (s, 0) st.toPairs

theorem alike_write (s : Store) (ps : List (String × String)) : Alike s (s.write ps) := by
  induction ps generalizing s with
  | nil => exact .refl s
  | cons p ps ih => exact (alike_set s p.1 p.2).trans (ih _)

/-- No accepted key among those of the pairs has the slot of `k`. -/
def Misses (s : Store) (ps : List (String × String)) (k : String) : Prop :=
  ∀ p ∈ ps, s.Accepts p.1 → s.slot? k ≠ s.slot? p.1

theorem Misses.tail {s : Store} {p : String × String} {ps : List (String × String)} {k : String}
    (h : s.Misses (p :: ps) k) : (s.set p.1 p.2).1.Misses ps k := by
  intro q hq haccepts
  have halike := alike_set s p.1 p.2
  rw [halike.accepts_iff] at haccepts
  rw [halike.slot?_eq, halike.slot?_eq]
  exact h q (List.mem_cons_of_mem p hq) haccepts

theorem held?_write_of_misses {s : Store} {ps : List (String × String)} {k : String}
    (h : s.Misses ps k) : (s.write ps).held? k = s.held? k := by
  induction ps generalizing s with
  | nil => rfl
  | cons p ps ih =>
    rw [write_cons, ih h.tail, held?_set_of_ne p.2 (h p (List.mem_cons_self ..))]

theorem Holds.write_of_misses {s : Store} {ps : List (String × String)} {k t : String}
    (hs : s.Holds k t) (h : s.Misses ps k) : (s.write ps).Holds k t := by
  induction ps generalizing s with
  | nil => exact hs
  | cons p ps ih => exact ih (hs.set_of_ne p.2 (h p (List.mem_cons_self ..))) h.tail

/-! ## The slots of the fields -/

theorem slot?_ne_of_mem_keys {s : Store} {k k' : String} (hk : k ∈ State.keys)
    (hk' : k' ∈ State.keys) (hne : k ≠ k') (haccepts : s.Accepts k') :
    s.slot? k ≠ s.slot? k' := by
  intro heq
  obtain ⟨a, ha⟩ := exists_slot_of_accepts haccepts
  exact hne (eq_of_slot?_eq_some (isKey_of_mem_keys hk s) (isKey_of_mem_keys hk' s)
    (heq.trans ha) ha)

/-- An accepted key of a field holds its text when the fields have been written. -/
theorem holds_write {s : Store} {ps : List (String × String)} {p : String × String}
    (hkeys : ∀ q ∈ ps, q.1 ∈ State.keys) (hnodup : (ps.map Prod.fst).Nodup) (hp : p ∈ ps)
    (haccepts : s.Accepts p.1) : (s.write ps).Holds p.1 p.2 := by
  induction ps generalizing s with
  | nil => cases hp
  | cons q ps ih =>
    rw [List.map_cons, List.nodup_cons] at hnodup
    have hkeys' : ∀ r ∈ ps, r.1 ∈ State.keys := fun r hr => hkeys r (List.mem_cons_of_mem q hr)
    have halike := alike_set s q.1 q.2
    rw [write_cons]
    rcases List.mem_cons.mp hp with rfl | hp
    · refine (holds_set_self haccepts p.2).write_of_misses fun r hr hr' => ?_
      have hne : p.1 ≠ r.1 := fun heq => hnodup.1 (heq ▸ List.mem_map_of_mem hr)
      exact slot?_ne_of_mem_keys (hkeys p (List.mem_cons_self ..)) (hkeys' r hr) hne hr'
    · exact ih hkeys' hnodup.2 hp ((halike.accepts_iff p.1).mpr haccepts)

/-! ## Saving a state -/

/-- The state `st` is saved in the store `s'`, which was `s` before. -/
structure Saved (s : Store) (st : State) (s' : Store) : Prop extends Alike s s' where
  /-- The text of a field is held, if its key is accepted. -/
  holds : ∀ p ∈ st.toPairs, s.Accepts p.1 → s'.Holds p.1 p.2
  /-- All other slots are as they were. -/
  held?_eq : ∀ k, (∀ key ∈ State.keys, s.Accepts key → s.slot? k ≠ s.slot? key) →
    s'.held? k = s.held? k

theorem saved_save (s : Store) (st : State) : Saved s st (s.save st).1 where
  toAlike := fst_save s st ▸ alike_write s st.toPairs
  holds := by
    intro p hp haccepts
    rw [fst_save]
    exact holds_write (fun q hq => List.mem_map_of_mem hq) State.nodup_keys hp haccepts
  held?_eq := by
    intro k hk
    rw [fst_save]
    exact held?_write_of_misses fun p hp => hk p.1 (List.mem_map_of_mem hp)

namespace Saved

variable {s s' : Store} {st : State}

/-- A state that is saved takes the place of the one before. -/
theorem save (h : Saved s st s') (st' : State) : Saved s st' (s'.save st').1 := by
  have hsave := saved_save s' st'
  refine ⟨h.toAlike.trans hsave.toAlike, fun p hp haccepts => ?_, fun k hk => ?_⟩
  · exact hsave.holds p hp ((h.accepts_iff p.1).mpr haccepts)
  · rw [hsave.held?_eq k, h.held?_eq k hk]
    intro key hkey haccepts
    rw [h.slot?_eq, h.slot?_eq]
    exact hk key hkey ((h.accepts_iff key).mp haccepts)

/-- A field whose key is not accepted keeps its slot. -/
theorem held?_of_not_accepts (h : Saved s st s') {key : String} (hkey : key ∈ State.keys)
    (haccepts : ¬ s.Accepts key) : s'.held? key = s.held? key := by
  refine h.held?_eq key fun key' hkey' haccepts' => slot?_ne_of_mem_keys hkey hkey' ?_ haccepts'
  rintro rfl
  exact haccepts haccepts'

end Saved

/-- No field is kept where the text of the key is.  So it is for every other key of a map and
for every other file name of a directory (`apart_of_notMem`). -/
def Apart (s : Store) (k : String) : Prop :=
  ∀ key ∈ State.keys, ∀ a, s.slot? key = some a → s.slot? k ≠ some a

theorem apart_of_notMem {s : Store} {k : String} (hk : s.IsKey k) (h : k ∉ State.keys) :
    s.Apart k := by
  intro key hkey a ha heq
  exact h (eq_of_slot?_eq_some hk (isKey_of_mem_keys hkey s) heq ha ▸ hkey)

theorem Saved.held?_of_apart {s s' : Store} {st : State} (h : Saved s st s') {k : String}
    (hk : s.Apart k) : s'.held? k = s.held? k := by
  refine h.held?_eq k fun key hkey haccepts heq => ?_
  obtain ⟨a, ha⟩ := exists_slot_of_accepts haccepts
  exact hk key hkey a ha (heq.trans ha)

/-! ## Loading -/

/-- What is loaded is what can be read under the keys of the fields. -/
theorem get?_load {s : Store} {key value : String} :
    s.load.get? key = some value ↔ key ∈ State.keys ∧ s.get key = .ok (some value) := by
  -- A key that can be read gives a pair, and any pair comes from its own key.
  obtain ⟨read, hload, hpair⟩ : ∃ read : String → Option (String × String),
      s.load = .ofList (State.keys.filterMap read) ∧
        ∀ k p, read k = some p ↔ p.1 = k ∧ s.get k = .ok (some p.2) := by
    refine ⟨_, rfl, ?_⟩
    rintro k ⟨k', v⟩
    dsimp only
    split
    · next w hw => simp [hw, eq_comm]
    · next hw => simpa using fun _ => hw v
  have hnodup : ((State.keys.filterMap read).map Prod.fst).Nodup := by
    rw [List.map_filterMap]
    refine State.nodup_keys.filterMap fun k k' key hk hk' => ?_
    obtain ⟨p, hp, rfl⟩ := Option.map_eq_some_iff.mp hk
    obtain ⟨p', hp', heq⟩ := Option.map_eq_some_iff.mp hk'
    rw [← ((hpair k p).mp hp).1, ← heq, ((hpair k' p').mp hp').1]
  rw [hload, Fields.get?_eq_some_iff, Fields.toList_ofList hnodup, List.mem_filterMap]
  constructor
  · rintro ⟨k, hk, hp⟩
    obtain ⟨rfl, hget⟩ := (hpair k _).mp hp
    exact ⟨hk, hget⟩
  · rintro ⟨hk, hget⟩
    exact ⟨key, hk, (hpair key _).mpr ⟨rfl, hget⟩⟩

/-- A key that cannot be read is loaded like one that was never written. -/
theorem get?_load_eq (s : Store) {key : String} (h : key ∈ State.keys) :
    s.load.get? key = (s.get key).toOption.join := by
  apply Option.ext
  intro value
  rw [get?_load, and_iff_right h]
  cases s.get key <;> simp [Except.toOption]

/-- A map of what can be read loads the same, and never fails. -/
theorem load_memory_load (s : Store) : (Store.memory s.load).load = s.load := by
  rw [load, load]
  congr 1
  refine List.filterMap_congr fun key hkey => ?_
  have hget : ∀ value, s.load.get? key = some value ↔ s.get key = .ok (some value) :=
    fun value => get?_load.trans (and_iff_right hkey)
  rw [← load, get]
  cases hload : s.load.get? key with
  | some value => rw [(hget value).mp hload]
  | none =>
    split
    · next heq => cases heq
    · split
      · next value heq => rw [(hget value).mpr heq] at hload; cases hload
      · rfl

end Playground.Store
