import Playground.Proofs.Session.Persistence

/-!
# What the start of a session writes

A session that begins with the store saves the state that it has loaded.  A key that could
be read keeps its text (`openSession_keeps_readable`).  A key that could not be read counts
as missing, so it is written with the text of the initial state, and what it held is lost
(`openSession_loses_unreadable`).
-/

namespace Playground.Desk

/-- The keys of the fields that are texts. -/
def textKeys : List String := ["code", "compiler", "compiler_flags"]

theorem start_eq_stored {s : Store} {url : Option String} (h : url.bind Share.fields? = none) :
    Session.start url s = ⟨.stored, s.load⟩ := by
  rw [Session.start, h]

/-- A field of the loaded state has the text that was read, or else that of the initial
state. -/
theorem mem_toPairs_openSession {s : Store} {url : Option String}
    (h : url.bind Share.fields? = none) {p : String × String} (hp : p ∈ State.initial.toPairs) :
    (p.1, ((s.load.get? p.1).map (State.written p.1)).getD p.2) ∈
      ((start s).openSession url).state.toPairs := by
  rw [state_openSession, start_eq_stored h, State.toPairs_apply]
  exact List.mem_map_of_mem hp

theorem holds_openSession {s : Store} {url : Option String}
    (h : url.bind Share.fields? = none) (haccepts : ∀ key ∈ State.keys, s.Accepts key)
    {p : String × String} (hp : p ∈ State.initial.toPairs) :
    ((start s).openSession url).store.Holds p.1
      (((s.load.get? p.1).map (State.written p.1)).getD p.2) := by
  have hsaved := (stores_openSession s url).saved (by rw [start_eq_stored h])
  exact hsaved.holds _ (mem_toPairs_openSession h hp) (haccepts p.1 (List.mem_map_of_mem hp))

/-- The start of a session from a store that can be written keeps every text that could be
read.  A key that gave no text, since it was never written or since it could not be read,
holds the text of the initial state, and all keys of no field are as they were. -/
theorem openSession_keeps_readable (s : Store) (url : Option String)
    (h : url.bind Share.fields? = none) (haccepts : ∀ key ∈ State.keys, s.Accepts key) :
    (∀ key ∈ textKeys, ∀ text, s.get key = .ok (some text) →
      ((start s).openSession url).store.get key = .ok (some text) ∧
        ((start s).openSession url).store.held? key = some (octets text)) ∧
    (∀ p ∈ State.initial.toPairs, (∀ text, s.get p.1 ≠ .ok (some text)) →
      ((start s).openSession url).store.held? p.1 = some (octets p.2)) ∧
    ∀ key, s.Apart key → ((start s).openSession url).store.held? key = s.held? key := by
  have hsaved := (stores_openSession s url).saved (by rw [start_eq_stored h])
  refine ⟨fun key hkey text hget => ?_, fun p hp hnone => ?_, fun key => hsaved.held?_of_apart⟩
  · have hmem : key ∈ State.keys := List.mem_of_mem_take (i := 3) hkey
    have hlog : key ≠ "show_compiler_log" := by
      rintro rfl
      exact absurd hkey (by decide)
    obtain ⟨p, hp, rfl⟩ : ∃ p ∈ State.initial.toPairs, p.1 = key := List.mem_map.mp hmem
    have hholds := holds_openSession h haccepts hp
    rw [Store.get?_load.mpr ⟨hmem, hget⟩, Option.map_some, Option.getD_some, State.written,
      if_neg hlog] at hholds
    refine ⟨hholds.get_eq ?_, hholds.held?_eq⟩
    exact (hsaved.readsBack_iff p.1).mpr (Store.readsBack_of_get hget)
  · have hload : s.load.get? p.1 = none := by
      rw [Option.eq_none_iff_forall_ne_some]
      exact fun text hload => hnone text (Store.get?_load.mp hload).2
    have hholds := holds_openSession h haccepts hp
    rw [hload] at hholds
    exact hholds.held?_eq

/-- A store with a compiler that cannot be read. -/
def unreadableStore : Store :=
  .faulty (.ofList [("code", "int x;"), ("compiler", "g75")]) ["compiler"] []

theorem openSession_unreadableStore :
    ((start unreadableStore).openSession none).store.get "code" = .ok (some "int x;") ∧
      ((start unreadableStore).openSession none).store.held? "compiler" =
        some (octets defaultCompiler) := by
  obtain ⟨hread, hlost, -⟩ := openSession_keeps_readable unreadableStore none rfl
    (by simp [unreadableStore, Store.accepts_faulty_iff])
  refine ⟨(hread "code" (by decide) "int x;" (by decide +kernel)).1, ?_⟩
  exact hlost ("compiler", defaultCompiler) (.tail _ (.head _))
    (by simp [unreadableStore, Store.get])

/-- A text that cannot be read is not kept. -/
theorem openSession_loses_unreadable :
    ¬ ∀ (s : Store) (url : Option String), url.bind Share.fields? = none →
      (∀ key ∈ State.keys, s.Accepts key) → ∀ key ∈ textKeys, ∀ content,
        s.held? key = some content →
          ((start s).openSession url).store.held? key = some content := by
  intro h
  have hkept := h unreadableStore none rfl (by simp [unreadableStore, Store.accepts_faulty_iff])
    "compiler" (by decide) (octets "g75") (by decide +kernel)
  have hlost : ((start unreadableStore).openSession none).store.held? "compiler" =
      some (octets "g102") := by rfl
  rw [hlost] at hkept
  exact absurd hkept (by decide +kernel)

end Playground.Desk
