import Playground.Proofs.Desk.Kept
import Playground.Proofs.Storage.Saving

/-!
# What a session stores

A session that began with a link leaves the store as it was.  A session that began with the
store saves its state after every edit, the first one included, and no other step writes to
the store (`Stores`).

A store changes nothing else on the desk (`exists_run_withStore`).  So a write that fails
stops nothing: the desk is the one that it would be with any other store that begins the
same session.
-/

namespace Playground.Desk

/-! ## Desks with another store -/

/-- The desk with another store. -/
def withStore (d : Desk) (t : Store) : Desk := { d with store := t }

section WithStore

variable (d : Desk) (t : Store)

theorem enter_withStore (target : Phase) (reason : String) :
    (d.withStore t).enter target reason = (d.enter target reason).withStore t := by
  simp only [enter, withStore]
  split <;> rfl

theorem supersede_withStore : (d.withStore t).supersede = d.supersede.withStore t := by
  simp only [supersede, withStore]
  split <;> rfl

theorem schedule_withStore (reason : String) :
    (d.withStore t).schedule reason = (d.schedule reason).withStore t := by
  have henter := enter_withStore
    { d.supersede with phases := d.supersede.phases.nextGeneration } t .pendingCompile reason
  simp only [withStore] at henter
  simp only [schedule, supersede_withStore]
  simp only [withStore, henter]

/-- An edit writes to the store, and does the same beside it. -/
theorem exists_edit_withStore (e : Edit) :
    ∃ t', (d.withStore t).edit e = (d.edit e).withStore t' := by
  have hchanged : (d.withStore t).changed e =
      (d.changed e).withStore ((d.withStore t).changed e).store := rfl
  rw [edit_eq_schedule, edit_eq_schedule, hchanged, schedule_withStore]
  exact ⟨_, rfl⟩

theorem handle_withStore (e : Event) :
    (d.withStore t).handle e = ((d.handle e).1, (d.handle e).2.withStore t) := by
  by_cases hcur : d.current = some e.generation
  case neg => rw [handle_of_ne hcur, handle_of_ne (d := d.withStore t) hcur]
  case pos =>
    cases e with
    | started g =>
      rw [handle_started (g := g) hcur, handle_started (d := d.withStore t) (g := g) hcur,
        enter_withStore]
    | stillCompiling g =>
      rw [handle_stillCompiling (g := g) hcur,
        handle_stillCompiling (d := d.withStore t) (g := g) hcur]
      have hphases : (d.withStore t).phases = d.phases := rfl
      by_cases hphase : d.phases.current = .compiling
      · simp only [hphases, if_pos hphase]
        rfl
      · simp only [hphases, if_neg hphase]
    | finished g result =>
      rw [handle_finished (g := g) hcur, handle_finished (d := d.withStore t) (g := g) hcur]
      simp only [showing, enter_withStore]
      rfl

theorem cycle?_withStore (g : Nat) : (d.withStore t).cycle? g = d.cycle? g := rfl

theorem act_withStore {a : Action} (h : a.isEdit = false) :
    (d.withStore t).act a = (d.act a).withStore t := by
  cases a with
  | edit e => cases h
  | persist on => rfl
  | wait ms => rfl
  | debounceElapsed g =>
    simp only [act, debounceElapsed, cycle?_withStore]
    cases d.cycle? g with
    | none => rfl
    | some c => dsimp only; split <;> rfl
  | compiled g answer =>
    simp only [act, compiled, cycle?_withStore]
    cases d.cycle? g with
    | none => rfl
    | some c =>
      dsimp only
      split
      · cases answer <;> rfl
      · rfl
  | parsed g answer =>
    simp only [act, parsed, cycle?_withStore]
    cases d.cycle? g with
    | none => rfl
    | some c => dsimp only; split <;> rfl
  | spinnerElapsed g =>
    simp only [act, spinnerElapsed, cycle?_withStore]
    cases d.cycle? g with
    | none => rfl
    | some c => dsimp only; split <;> rfl
  | spinnerStopped g =>
    simp only [act, spinnerStopped, cycle?_withStore]
    cases d.cycle? g with
    | none => rfl
    | some c => dsimp only; split <;> rfl
  | next =>
    simp only [act, next?]
    cases hq : d.queue with
    | nil => simp [withStore, hq]
    | cons e es =>
      have hhandle := handle_withStore (d.left es) t e
      simp only [withStore, hq, left] at hhandle ⊢
      rw [hhandle]
      rfl

/-- The store has no part in what the steps do beside it. -/
theorem exists_run_withStore (as : List Action) :
    ∃ t', (d.withStore t).run as = (d.run as).withStore t' := by
  induction as generalizing d t with
  | nil => exact ⟨t, rfl⟩
  | cons a as ih =>
    have hact : ∃ t', (d.withStore t).act a = (d.act a).withStore t' := by
      cases hedit : a.isEdit with
      | true =>
        cases a <;> cases hedit
        exact exists_edit_withStore d t _
      | false => exact ⟨t, act_withStore d t hedit⟩
    obtain ⟨t', ht'⟩ := hact
    change ∃ t', ((d.withStore t).act a).run as = _
    rw [ht']
    exact ih (d.act a) t'

end WithStore

/-! ## What a session makes of its store -/

/-- A session of origin `o` has begun with the store `s`. -/
structure Stores (s : Store) (o : Origin) (d : Desk) : Prop where
  /-- Changes are stored if the session began with the store. -/
  persists_eq : d.persists = decide (o = .stored)
  /-- A link leaves the store as it was. -/
  store_eq : o = .shared → d.store = s
  /-- The state is saved. -/
  saved : o = .stored → s.Saved d.state d.store

/-- Only an edit changes the state and the store. -/
theorem unchanged_act {d : Desk} {a : Action} (hedit : a.isEdit = false)
    (hpersist : ∀ on, a ≠ .persist on) :
    (d.act a).persists = d.persists ∧ (d.act a).state = d.state ∧ (d.act a).store = d.store := by
  have hsteps := steps_act d a
  generalize d.notice? a = n at hsteps
  generalize d.act a = d' at hsteps
  cases hsteps with
  | edit e => cases hedit
  | persist on => exact absurd rfl (hpersist on)
  | sent _ _ => rw [enter_eq]; exact ⟨rfl, rfl, rfl⟩
  | _ => exact ⟨rfl, rfl, rfl⟩

theorem persists_edit (d : Desk) (e : Edit) : (d.edit e).persists = d.persists := by
  rw [edit_eq_schedule, schedule_eq]
  rfl

theorem store_edit (d : Desk) (e : Edit) : (d.edit e).store =
    if d.persists then (d.store.save (e.apply d.state)).1 else d.store := by
  rw [edit_eq_schedule, schedule_eq]
  rfl

namespace Stores

variable {s : Store} {o : Origin} {d : Desk}

theorem edit (h : Stores s o d) (e : Edit) : Stores s o (d.edit e) where
  persists_eq := (persists_edit d e).trans h.persists_eq
  store_eq := by
    rintro rfl
    rw [store_edit, h.persists_eq]
    exact h.store_eq rfl
  saved := by
    rintro rfl
    rw [store_edit, h.persists_eq, state_edit]
    exact (h.saved rfl).save _

theorem act (h : Stores s o d) {a : Action} (hpersist : ∀ on, a ≠ .persist on) :
    Stores s o (d.act a) := by
  cases hedit : a.isEdit with
  | true =>
    cases a <;> cases hedit
    exact h.edit _
  | false =>
    obtain ⟨hpersists, hstate, hstore⟩ := unchanged_act (d := d) hedit hpersist
    refine ⟨hpersists.trans h.persists_eq, fun ho => hstore.trans (h.store_eq ho), fun ho => ?_⟩
    rw [hstate, hstore]
    exact h.saved ho

theorem run (h : Stores s o d) {as : List Action} (hpersist : ∀ on, .persist on ∉ as) :
    Stores s o (d.run as) := by
  induction as generalizing d with
  | nil => exact h
  | cons a as ih =>
    refine ih (h.act fun on heq => hpersist on ?_) fun on hmem => hpersist on ?_
    · exact heq ▸ List.mem_cons_self ..
    · exact List.mem_cons_of_mem a hmem

end Stores

/-- A new desk has the store it is given, and nothing else from it. -/
theorem start_eq_withStore (s t : Store) : start s = (start t).withStore s := by
  have hblank : (blank s).tell (.sync .initial) =
      ((blank t).tell (.sync .initial)).withStore s := rfl
  rw [start, hblank, schedule_withStore]
  rfl

theorem store_start (s : Store) : (start s).store = s := by
  rw [start_eq_withStore s s]
  rfl

theorem state_start (s : Store) : (start s).state = .initial := by
  rw [start, schedule_eq]
  rfl

theorem openSession_eq (s : Store) (url : Option String) : (start s).openSession url =
    { start s with persists := (Session.start url s).persists }.edit
      (.load (Session.start url s).fields) := by
  have hsession : Session.start url (start s).store = Session.start url s := by rw [store_start]
  rw [openSession, hsession]

/-- The state that a session begins with. -/
theorem state_openSession (s : Store) (url : Option String) :
    ((start s).openSession url).state = State.initial.apply (Session.start url s).fields := by
  rw [openSession_eq, state_edit, ← state_start s]
  rfl

/-- The state that a session begins with is saved at once. -/
theorem store_openSession (s : Store) (url : Option String) :
    ((start s).openSession url).store = if (Session.start url s).persists then
      (s.save ((start s).openSession url).state).1 else s := by
  rw [openSession_eq, store_edit, state_edit]
  dsimp only
  rw [store_start]

theorem stores_openSession (s : Store) (url : Option String) :
    Stores s (Session.start url s).origin ((start s).openSession url) where
  persists_eq := by
    rw [openSession_eq, persists_edit]
    rfl
  store_eq := by
    intro ho
    rw [store_openSession, Session.persists, ho]
    rfl
  saved := by
    intro ho
    rw [store_openSession, Session.persists, ho]
    exact s.saved_save _

/-- A map of what can be read begins the same session. -/
theorem start_memory_load (s : Store) (url : Option String) :
    Session.start url (.memory s.load) = Session.start url s := by
  rw [Session.start, Session.start, Store.load_memory_load]

/-- A session that a link began never writes to the store.  A session that the store began
holds the current state after every step, in the slots of the keys that can be written, and
leaves all else as it was.  Whatever the store, the desk beside it is the same. -/
theorem store_follows_origin (s : Store) (url : Option String) (as : List Action)
    (h : ∀ on, .persist on ∉ as) :
    let d := ((start s).openSession url).run as
    ((Session.start url s).origin = .shared → d.store = s) ∧
    ((Session.start url s).origin = .stored →
      (∀ p ∈ d.state.toPairs, s.Accepts p.1 → d.store.Holds p.1 p.2) ∧
      (∀ key ∈ State.keys, ¬ s.Accepts key → d.store.held? key = s.held? key) ∧
      ∀ key, s.Apart key → d.store.held? key = s.held? key) ∧
    ∀ t, Session.start url t = Session.start url s →
      d = (((start t).openSession url).run as).withStore d.store := by
  intro d
  have hstores : Stores s (Session.start url s).origin d := (stores_openSession s url).run h
  refine ⟨hstores.store_eq, fun ho => ?_, fun t ht => ?_⟩
  · have hsaved := hstores.saved ho
    exact ⟨hsaved.holds, fun key => hsaved.held?_of_not_accepts, fun key => hsaved.held?_of_apart⟩
  · -- The two sessions load the same fields on desks that differ in their stores.
    have hload : ∃ t', (start s).openSession url = ((start t).openSession url).withStore t' := by
      rw [openSession_eq, openSession_eq, ht, start_eq_withStore s t]
      exact exists_edit_withStore { start t with persists := (Session.start url s).persists } s _
    obtain ⟨t', ht'⟩ := hload
    obtain ⟨t'', ht''⟩ := exists_run_withStore ((start t).openSession url) t' as
    have hd : d = (((start t).openSession url).run as).withStore t'' := by
      rw [← ht'', ← ht']
    rw [hd]
    rfl

/-- A store with a program that cannot be read, and flags that cannot be written. -/
def partialStore : Store :=
  .faulty (.ofList [("code", "int x;"), ("compiler", "g75"), ("compiler_flags", "-O2"),
    ("note", "keep")]) ["code"] ["compiler_flags"]

/-- The state that was loaded is compiled, and then the compiler is changed. -/
def changedRun : List Action := [.debounceElapsed 2, .next, .edit (.compiler "g93")]

theorem store_partialStore_changedRun :
    (((start partialStore).openSession none).run changedRun).store.Holds "code" exampleProgram ∧
      (((start partialStore).openSession none).run changedRun).store.Holds "compiler" "g93" ∧
      (((start partialStore).openSession none).run changedRun).store.held? "compiler_flags" =
        some (octets "-O2") ∧
      (((start partialStore).openSession none).run changedRun).store.held? "note" =
        some (octets "keep") ∧
      ((start partialStore).openSession none).run changedRun =
        (((start (.memory partialStore.load)).openSession none).run changedRun).withStore
          (((start partialStore).openSession none).run changedRun).store := by
  obtain ⟨-, hstored, hbeside⟩ := store_follows_origin partialStore none changedRun
    (by simp [changedRun])
  obtain ⟨hholds, hrefused, hapart⟩ := hstored rfl
  have hstate : (((start partialStore).openSession none).run changedRun).state =
      { State.initial with compiler := "g93", compilerFlags := "-O2" } := by rfl
  rw [hstate] at hholds
  have haccepts : ∀ k, k ≠ "compiler_flags" → partialStore.Accepts k := by
    intro k hk
    exact Store.accepts_faulty_iff.mpr (by simpa using hk)
  refine ⟨?_, ?_, ?_, ?_, hbeside _ (start_memory_load partialStore none)⟩
  · exact hholds ("code", exampleProgram) (.head _) (haccepts _ (by decide))
  · exact hholds ("compiler", "g93") (.tail _ (.head _)) (haccepts _ (by decide))
  · rw [hrefused "compiler_flags" (by decide) (by simp [partialStore, Store.accepts_faulty_iff])]
    rfl
  · rw [hapart "note" (Store.apart_of_notMem trivial (by decide))]
    rfl

end Playground.Desk
