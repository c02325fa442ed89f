import Playground.Proofs.Session.Persistence
import Playground.Proofs.Storage.Overwriting

/-!
# Loading field by field

A map of fields stands for one edit of each field that it names (`Fields.edits`).  These edits,
in any order and with whatever the cycles do in between, lead to the state that the map is
loaded into, and to the very same store (`load_field_by_field`).  In between they store states
that the load never has, but each save takes the place of the one before.

A map that names no field stands for no edit.  To load it is still a change, which is saved, so
it may write over a store that no edit would have touched (`load_saves_unchanged`).
-/

namespace Playground

/-! ## The edits of a map -/

namespace Edit

/-- The edit that writes the field of a key, if it is the key of a field. -/
def ofPair? (p : String × String) : Option Edit :=
  if p.1 = "code" then some (.code p.2)
  else if p.1 = "compiler" then some (.compiler p.2)
  else if p.1 = "compiler_flags" then some (.flags p.2)
  else if p.1 = "show_compiler_log" then some (.showLog (p.2 = "true"))
  else none

theorem ofPair?_eq_none_iff {p : String × String} : ofPair? p = none ↔ p.1 ∉ State.keys := by
  unfold ofPair?
  repeat' split
  all_goals simp_all [State.keys]

/-- An edit writes its field, and a key of no field writes nothing. -/
theorem set_eq (s : State) (p : String × String) :
    s.set p.1 p.2 = ((ofPair? p).map fun e => e.apply s).getD s := by
  unfold ofPair? State.set
  repeat' split
  all_goals rfl

theorem foldl_filterMap_ofPair? (s : State) (ps : List (String × String)) :
    (ps.filterMap ofPair?).foldl (fun s e => e.apply s) s =
      ps.foldl (fun s p => s.set p.1 p.2) s := by
  rw [List.foldl_filterMap]
  congr 1
  funext s p
  rw [set_eq]
  cases ofPair? p <;> rfl

end Edit

namespace Fields

/-- The edits of the fields that a map names, one of each. -/
def edits (m : Fields) : List Edit := m.toList.filterMap Edit.ofPair?

theorem edits_eq_nil_iff {m : Fields} : m.edits = [] ↔ ∀ key ∈ State.keys, m.get? key = none := by
  rw [edits, List.filterMap_eq_nil_iff]
  constructor
  · intro h key hkey
    rw [Option.eq_none_iff_forall_ne_some]
    intro text htext
    exact Edit.ofPair?_eq_none_iff.mp (h _ (get?_eq_some_iff.mp htext)) hkey
  · intro h p hp
    rw [Edit.ofPair?_eq_none_iff]
    intro hkey
    cases (h p.1 hkey).symm.trans (get?_eq_some_iff.mpr hp)

/-- The edits of a map can be made in any order. -/
theorem foldl_edits_perm (s : State) {m : Fields} {es : List Edit} (h : es.Perm m.edits) :
    es.foldl (fun s e => e.apply s) s = s.apply m := by
  refine (h.foldl_eq' ?_ s).trans (Edit.foldl_filterMap_ofPair? s m.toList)
  intro e he e' he' t
  obtain ⟨p, hp, hpe⟩ := List.mem_filterMap.mp (h.mem_iff.mp he)
  obtain ⟨q, hq, hqe⟩ := List.mem_filterMap.mp (h.mem_iff.mp he')
  by_cases hkey : p.1 = q.1
  · obtain rfl : p = q := List.inj_on_of_nodup_map m.nodup hp hq hkey
    rw [Option.some.inj (hpe.symm.trans hqe)]
  · have hcomm := t.set_set_comm hkey p.2 q.2
    simp only [Edit.set_eq, hpe, hqe] at hcomm
    exact hcomm

end Fields

namespace Desk

/-! ## What edits make of a desk -/

/-- The edit of a step, if it is one. -/
def Action.edit? : Action → Option Edit
  | .edit e => some e
  | _ => none

/-- The desk `d` has been edited by `es`, and is `d'` now. -/
structure Edited (d : Desk) (es : List Edit) (d' : Desk) : Prop where
  /-- Changes are stored if they were before. -/
  persists_eq : d'.persists = d.persists
  /-- The state is the one after the edits. -/
  state_eq : d'.state = es.foldl (fun s e => e.apply s) d.state
  /-- The store is the one after a single save. -/
  store_eq : d'.store =
    if d.persists = true ∧ es ≠ [] then (d.store.save d'.state).1 else d.store

namespace Edited

variable {d d' : Desk} {es : List Edit}

theorem refl (d : Desk) : Edited d [] d := ⟨rfl, rfl, by simp⟩

theorem edit (h : Edited d es d') (e : Edit) : Edited d (es ++ [e]) (d'.edit e) where
  persists_eq := (persists_edit d' e).trans h.persists_eq
  state_eq := by
    rw [state_edit, h.state_eq, List.foldl_append]
    rfl
  store_eq := by
    have hne : es ++ [e] ≠ [] := List.append_ne_nil_of_right_ne_nil es (List.cons_ne_nil e [])
    -- What was saved before is saved over.
    have hsave : (d'.store.save (e.apply d'.state)).1 = (d.store.save (e.apply d'.state)).1 := by
      rw [h.store_eq]
      split
      · rw [Store.save_save]
      · rfl
    by_cases hpersists : d.persists = true
    · rw [store_edit, state_edit, h.persists_eq, if_pos hpersists, hsave, if_pos ⟨hpersists, hne⟩]
    · rw [store_edit, h.persists_eq, if_neg hpersists, h.store_eq]
      simp [hpersists]

theorem act (h : Edited d es d') {a : Action} (hpersist : ∀ on, a ≠ .persist on) :
    Edited d (es ++ a.edit?.toList) (d'.act a) := by
  cases hedit : a.isEdit with
  | true =>
    cases a <;> cases hedit
    exact h.edit _
  | false =>
    have hnone : a.edit? = none := by
      cases a with
      | edit e => cases hedit
      | _ => rfl
    obtain ⟨hpersists, hstate, hstore⟩ := unchanged_act (d := d') hedit hpersist
    rw [hnone, Option.toList_none, List.append_nil]
    refine ⟨hpersists.trans h.persists_eq, hstate.trans h.state_eq, ?_⟩
    rw [hstore, hstate, h.store_eq]

theorem run (h : Edited d es d') {as : List Action} (hpersist : ∀ on, .persist on ∉ as) :
    Edited d (es ++ as.filterMap Action.edit?) (d'.run as) := by
  induction as generalizing d' es with
  | nil => rwa [List.filterMap_nil, List.append_nil]
  | cons a as ih =>
    have hact := h.act (a := a) fun on heq => hpersist on (heq ▸ List.mem_cons_self ..)
    have hrun := ih hact fun on hmem => hpersist on (List.mem_cons_of_mem a hmem)
    rw [List.append_assoc] at hrun
    rw [List.filterMap_cons]
    cases he : a.edit? with
    | none => rwa [he] at hrun
    | some e => rwa [he] at hrun

end Edited

/-- Only the edits of a run change the state and the store. -/
theorem edited_run (d : Desk) {as : List Action} (h : ∀ on, .persist on ∉ as) :
    Edited d (as.filterMap Action.edit?) (d.run as) := by
  have hrun := (Edited.refl d).run h
  rwa [List.nil_append] at hrun

/-! ## Loading -/

/-- Maps of fields are applied in any order of their pairs.  Two of them one after the other
are the second one written over the first, so the same one a second time changes nothing.  The
keys of no field do not matter, a field that is not named is kept, and the fields of a state
make any state that state.

To load a map leads to the same state as the edits of its fields, in any order and with any
steps of the cycles between them, and to the same store if it names a field or changes are not
stored.  A map that names no field leaves the state as it is and saves it. -/
theorem load_field_by_field (m n : Fields) :
    (∀ s : State,
      (∀ ps : List (String × String), ps.Perm m.toList →
        ps.foldl (fun t p => t.set p.1 p.2) s = s.apply m) ∧
      (s.apply m).apply n = s.apply (m.extend n) ∧
      (s.apply m).apply m = s.apply m ∧
      (∀ m' : Fields, (∀ key ∈ State.keys, m'.get? key = m.get? key) →
        s.apply m' = s.apply m) ∧
      (s.apply m).toPairs =
        s.toPairs.map (fun p => (p.1, ((m.get? p.1).map (State.written p.1)).getD p.2)) ∧
      ∀ t : State, s.apply t.toFields = t) ∧
    ∀ (d : Desk) (as : List Action), (∀ on, .persist on ∉ as) →
      (as.filterMap Action.edit?).Perm m.edits →
      (d.edit (.load m)).state = (d.run as).state ∧
      ((∃ key ∈ State.keys, m.get? key ≠ none) ∨ d.persists = false →
        (d.edit (.load m)).store = (d.run as).store) ∧
      ((∀ key ∈ State.keys, m.get? key = none) → d.persists = true →
        (d.edit (.load m)).state = d.state ∧
        (d.edit (.load m)).store = (d.store.save d.state).1 ∧ (d.run as).store = d.store) := by
  refine ⟨fun s => ⟨fun ps hps => ?order, ?compose, s.apply_apply_self m, fun m' => s.apply_congr,
    s.toPairs_apply m, fun t => State.apply_toFields t s⟩, fun d as hpersist hperm => ?_⟩
  case order => exact State.foldl_set_perm s hps m.nodup
  case compose => exact (s.apply_extend m n).symm
  have hload : Edited d [.load m] (d.edit (.load m)) := (Edited.refl d).edit (.load m)
  have hrun := d.edited_run hpersist
  have hloaded : (d.edit (.load m)).state = d.state.apply m := hload.state_eq
  have hstate : (d.edit (.load m)).state = (d.run as).state := by
    rw [hrun.state_eq, Fields.foldl_edits_perm d.state hperm, hloaded]
  have hempty : as.filterMap Action.edit? = [] ↔ ∀ key ∈ State.keys, m.get? key = none := by
    rw [← Fields.edits_eq_nil_iff]
    exact ⟨fun h => List.perm_nil.mp (h ▸ hperm.symm), fun h => List.perm_nil.mp (h ▸ hperm)⟩
  refine ⟨hstate, fun h => ?_, fun hnone hpersists => ⟨?_, ?_, ?_⟩⟩
  · rw [hload.store_eq, hrun.store_eq, hstate]
    rcases h with ⟨key, hkey, hnamed⟩ | hpersists
    · have hne : as.filterMap Action.edit? ≠ [] := fun h => hnamed (hempty.mp h key hkey)
      simp only [hne, ne_eq, List.cons_ne_nil, not_false_eq_true]
    · simp [hpersists]
  · rw [hloaded, d.state.apply_of_forall_eq_none hnone]
  · rw [hload.store_eq, if_pos ⟨hpersists, by simp⟩, hloaded,
      d.state.apply_of_forall_eq_none hnone]
  · rw [hrun.store_eq, if_neg]
    exact fun h => h.2 (hempty.mpr hnone)

/-- A desk that stores its changes, where a compiler and a note are stored already. -/
def storingDesk : Desk :=
  (start (.memory (.ofList [("compiler", "g75"), ("note", "keep")]))).act (.persist true)

/-- A map of two fields and a key of no field. -/
def mixedFields : Fields :=
  .ofList [("show_compiler_log", "TRUE"), ("theme", "dark"), ("compiler", "g93")]

/-- The compiler is changed, its compile begins, and the log is hidden. -/
def scatteredRun : List Action :=
  [.edit (.compiler "g93"), .debounceElapsed 2, .next, .edit (.showLog false)]

theorem load_field_by_field_scatteredRun :
    (scatteredRun.filterMap Action.edit?).Perm mixedFields.edits ∧
      (storingDesk.edit (.load mixedFields)).state =
        { State.initial with compiler := "g93", showCompilerLog := false } ∧
      (storingDesk.edit (.load mixedFields)).state = (storingDesk.run scatteredRun).state ∧
      (storingDesk.edit (.load mixedFields)).store = (storingDesk.run scatteredRun).store ∧
      (storingDesk.run scatteredRun).store.get "compiler" = .ok (some "g93") := by
  have hperm : (scatteredRun.filterMap Action.edit?).Perm mixedFields.edits := .swap _ _ []
  obtain ⟨hstate, hstore, -⟩ := (load_field_by_field mixedFields .empty).2 storingDesk
    scatteredRun (by simp [scatteredRun]) hperm
  have hstore := hstore (Or.inl ⟨"compiler", by decide, by decide⟩)
  refine ⟨hperm, rfl, hstate, hstore, ?_⟩
  rw [← hstore]
  rfl

/-- A map of unknown keys alone is saved as a change all the same. -/
theorem load_saves_unchanged :
    ¬ ∀ (d : Desk) (m : Fields) (as : List Action), (∀ on, .persist on ∉ as) →
      (as.filterMap Action.edit?).Perm m.edits → (∀ key ∈ State.keys, d.store.Accepts key) →
      ∀ key, (d.edit (.load m)).store.get key = (d.run as).store.get key := by
  intro h
  have hcompiler := h storingDesk (.ofList [("theme", "dark")]) [] (by simp) .nil
    (fun _ _ => rfl) "compiler"
  have hload : (storingDesk.edit (.load (.ofList [("theme", "dark")]))).store.get "compiler" =
      .ok (some "g102") := rfl
  have hrun : (storingDesk.run []).store.get "compiler" = .ok (some "g75") := rfl
  rw [hload, hrun] at hcompiler
  simp at hcompiler

end Desk

end Playground
