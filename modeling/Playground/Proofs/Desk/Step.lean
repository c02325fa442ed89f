import Mathlib.Data.List.Nodup
import Playground.Desk
import Playground.Proofs.Phase.Recent

/-!
# What one step of the desk does

One equation per operation, which says what becomes of every part of the desk.
Later proofs read the parts off these equations and do not open the operations.

Cycles change in three ways only: one is added by an edit, some are dropped, and
one moves on.  `mem_change` is the lemma for the last two.
-/

namespace Playground.Desk

open PhaseLog (advance_generation)

/-! ## Phases -/

/-- Entering a phase changes the phases and nothing else. -/
theorem enter_eq (d : Desk) (target : Phase) (reason : String) :
    d.enter target reason = { d with phases := (d.enter target reason).phases } := by
  unfold enter
  split <;> rfl

theorem generation_enter (d : Desk) (target : Phase) (reason : String) :
    (d.enter target reason).phases.generation = d.phases.generation := by
  unfold enter
  split
  · next h => exact advance_generation h
  · rfl

theorem current_enter (d : Desk) (target : Phase) (reason : String) :
    (d.enter target reason).phases.current =
      if d.phases.current.allows target then target else d.phases.current := by
  unfold enter PhaseLog.advance
  by_cases h : d.phases.current.allows target = true
  · simp [h]
  · simp [h]

theorem allows_pendingCompile (p : Phase) : p.allows .pendingCompile = true := by
  cases p <;> rfl

/-! ## Cycles -/

/-- A cycle that is left after a change was there before, and has been changed
exactly if it is of that generation. -/
theorem mem_change {d : Desk} {g : Nat} {f : Cycle → Cycle} {c : Cycle}
    (h : c ∈ (d.change g f).cycles) :
    ∃ b ∈ d.cycles, c = if b.generation = g then f b else b := by
  simp only [change, List.mem_filter, List.mem_map] at h
  obtain ⟨⟨b, hb, rfl⟩, _⟩ := h
  exact ⟨b, hb, rfl⟩

/-- A change that keeps the generation of a cycle keeps the generations distinct. -/
theorem nodup_change {d : Desk} {g : Nat} {f : Cycle → Cycle}
    (hf : ∀ c, (f c).generation = c.generation) (h : (d.cycles.map Cycle.generation).Nodup) :
    ((d.change g f).cycles.map Cycle.generation).Nodup := by
  have hmap : (d.cycles.map fun c => if c.generation = g then f c else c).map Cycle.generation =
      d.cycles.map Cycle.generation := by
    rw [List.map_map]
    apply List.map_congr_left
    intro c _
    simp only [Function.comp_apply]
    split
    · exact hf c
    · rfl
  simp only [change]
  exact (hmap ▸ h).sublist (List.filter_sublist.map _)

theorem cycle?_eq_some {d : Desk} {g : Nat} {c : Cycle} (h : d.cycle? g = some c) :
    c ∈ d.cycles ∧ c.generation = g :=
  ⟨List.mem_of_find?_eq_some h, by simpa using List.find?_some h⟩

/-- With distinct generations a cycle is found by its own. -/
theorem eq_of_generation_eq {d : Desk} (h : (d.cycles.map Cycle.generation).Nodup) {b c : Cycle}
    (hb : b ∈ d.cycles) (hc : c ∈ d.cycles) (he : b.generation = c.generation) : b = c :=
  List.inj_on_of_nodup_map h hb hc he

/-! ## Edits -/

/-- The cycles that are left when a new one takes the place of the current one. -/
def superseded (d : Desk) : List Cycle := d.supersede.cycles

theorem supersede_eq (d : Desk) :
    d.supersede = { d with current := none, cycles := d.superseded } := by
  unfold superseded supersede
  cases h : d.current with
  | none => simp only [← h]
  | some g => rfl

/-- A change of the timers only leaves cycles that have asked the same. -/
theorem mem_change_kept {d : Desk} {g : Nat} {f : Cycle → Cycle} {c : Cycle}
    (hf : ∀ b, (f b).generation = b.generation ∧ (f b).snapshot = b.snapshot ∧
      (f b).stage = b.stage) (h : c ∈ (d.change g f).cycles) :
    ∃ b ∈ d.cycles, c.generation = b.generation ∧ c.snapshot = b.snapshot ∧ c.stage = b.stage := by
  obtain ⟨b, hb, rfl⟩ := mem_change h
  refine ⟨b, hb, ?_⟩
  split
  · exact hf b
  · exact ⟨rfl, rfl, rfl⟩

/-- A superseded cycle is an old one that may have lost its spinner. -/
theorem mem_superseded {d : Desk} {c : Cycle} (h : c ∈ d.superseded) :
    ∃ b ∈ d.cycles, c.generation = b.generation ∧ c.snapshot = b.snapshot ∧ c.stage = b.stage := by
  unfold superseded supersede at h
  split at h
  · exact mem_change_kept (f := Cycle.cancel) (fun _ => ⟨rfl, rfl, rfl⟩) h
  · exact ⟨c, h, rfl, rfl, rfl⟩

theorem nodup_superseded {d : Desk} (h : (d.cycles.map Cycle.generation).Nodup) :
    (d.superseded.map Cycle.generation).Nodup := by
  unfold superseded supersede
  split
  · exact nodup_change (fun _ => rfl) h
  · exact h

/-- An edit opens a new generation, whose cycle works on the state after the edit. -/
theorem schedule_eq (d : Desk) (reason : String) :
    d.schedule reason = { d with
      phases := (d.schedule reason).phases
      current := some (d.phases.generation + 1)
      cycles := .start (d.phases.generation + 1) d.state :: d.superseded } := by
  have hg : (({ d.supersede with phases := d.supersede.phases.nextGeneration }).enter .pendingCompile
      reason).phases.generation = d.phases.generation + 1 := by
    rw [generation_enter, supersede_eq]
    rfl
  simp only [schedule]
  rw [hg, enter_eq, supersede_eq]

theorem generation_schedule (d : Desk) (reason : String) :
    (d.schedule reason).phases.generation = d.phases.generation + 1 := by
  simp only [schedule, generation_enter, supersede_eq]
  rfl

theorem current_schedule (d : Desk) (reason : String) :
    (d.schedule reason).phases.current = .pendingCompile := by
  simp only [schedule, current_enter, allows_pendingCompile, if_true]

/-- The desk between a change of the state and the start of its cycle. -/
def changed (d : Desk) (e : Edit) : Desk := { d with
  state := e.apply d.state
  view := if e.syncs then d.view ++ [.sync (e.apply d.state)] else d.view
  store := if d.persists then (d.store.save (e.apply d.state)).1 else d.store }

theorem edit_eq_schedule (d : Desk) (e : Edit) : d.edit e = (d.changed e).schedule e.reason := by
  simp only [edit, persist, tell, changed]
  split <;> split <;> simp_all

end Playground.Desk
