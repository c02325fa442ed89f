import Playground.Proofs.Desk.Inversion

/-!
# What steps leave of the cycles

The steps that move no cycle on leave each cycle at its stage.  An edit adds a cycle, and
it drops others or stops their spinners.  An event that is handled stops a spinner at most,
and a spinner that has been stopped ends without an event.
-/

namespace Playground.Desk

/-- Each of the later cycles is an earlier one, but its spinner may have been stopped. -/
def Kept (earlier later : List Cycle) : Prop :=
  ∀ c ∈ later, ∃ b ∈ earlier, c.generation = b.generation ∧ c.snapshot = b.snapshot ∧
    c.stage = b.stage ∧ (c.spinner = .running → b.spinner = .running)

namespace Kept

variable {cs ds es : List Cycle}

theorem refl (cs : List Cycle) : Kept cs cs := fun c hc => ⟨c, hc, rfl, rfl, rfl, id⟩

theorem trans (h : Kept cs ds) (h' : Kept ds es) : Kept cs es := by
  intro c hc
  obtain ⟨b, hb, hg, hsnap, hs, hrun⟩ := h' c hc
  obtain ⟨a, ha, hg', hsnap', hs', hrun'⟩ := h b hb
  exact ⟨a, ha, hg.trans hg', hsnap.trans hsnap', hs.trans hs', fun hc => hrun' (hrun hc)⟩

end Kept

theorem Kept.change (d : Desk) (g : Nat) {f : Cycle → Cycle}
    (hf : ∀ b, (f b).generation = b.generation ∧ (f b).snapshot = b.snapshot ∧
      (f b).stage = b.stage ∧ ((f b).spinner = .running → b.spinner = .running)) :
    Kept d.cycles (d.change g f).cycles := by
  intro c hc
  obtain ⟨b, hb, rfl⟩ := mem_change hc
  refine ⟨b, hb, ?_⟩
  split
  · exact hf b
  · exact ⟨rfl, rfl, rfl, id⟩

theorem eq_running_of_stop {s : Spinner} (h : s.stop = .running) : s = .running := by
  cases s <;> simp_all [Spinner.stop]

theorem Kept.superseded (d : Desk) : Kept d.cycles d.superseded := by
  unfold Desk.superseded supersede
  split
  · exact Kept.change (f := Cycle.cancel) d _ fun _ => ⟨rfl, rfl, rfl, eq_running_of_stop⟩
  · exact .refl _

/-- An event that is handled stops a spinner at most. -/
theorem Kept.next (d : Desk) : Kept d.cycles (d.act .next).cycles := by
  have hsteps := steps_act d .next
  generalize d.notice? .next = n at hsteps
  generalize d.act .next = d' at hsteps
  cases hsteps with
  | move _ hm => cases hm
  | sent _ _ => rw [enter_eq]; exact .refl _
  | @rendered g _ _ _ _ =>
    exact Kept.change (f := Cycle.stopSpinner) d g fun _ => ⟨rfl, rfl, rfl, eq_running_of_stop⟩
  | _ => exact .refl _

theorem exists_run_spinnerStopped (d : Desk) (gs : List Nat) :
    ∃ cs, d.run (gs.map .spinnerStopped) = { d with cycles := cs } ∧ Kept d.cycles cs := by
  induction gs generalizing d with
  | nil => exact ⟨d.cycles, rfl, .refl _⟩
  | cons g gs ih =>
    have hact : ∃ cs, d.spinnerStopped g = { d with cycles := cs } ∧ Kept d.cycles cs := by
      unfold spinnerStopped
      split
      · split
        · exact ⟨_, rfl, Kept.change d g fun _ => ⟨rfl, rfl, rfl, nofun⟩⟩
        · exact ⟨d.cycles, rfl, .refl _⟩
      · exact ⟨d.cycles, rfl, .refl _⟩
    obtain ⟨cs, heq, hkept⟩ := hact
    obtain ⟨ds, heq', hkept'⟩ := ih (d.spinnerStopped g)
    refine ⟨ds, ?_, ?_⟩
    · change (d.spinnerStopped g).run _ = _
      rw [heq', heq]
    · rw [heq] at hkept'
      exact hkept.trans hkept'

/-- The steps of the spinners that have been told to stop. -/
def stops (d : Desk) : List Action :=
  (d.cycles.filter fun c => c.spinner = .stopped).map fun c => .spinnerStopped c.generation

/-- Spinners that stop change nothing else. -/
theorem exists_endStopped (d : Desk) :
    ∃ cs, d.endStopped = { d with cycles := cs } ∧ Kept d.cycles cs := by
  have hrun := d.exists_run_spinnerStopped
    ((d.cycles.filter fun c => c.spinner = .stopped).map Cycle.generation)
  rw [List.map_map] at hrun
  exact hrun

/-! ## Edits and waits -/

/-- An edit adds a cycle for the state that it leads to. -/
theorem cycles_edit (d : Desk) (e : Edit) : (d.edit e).cycles =
    .start (d.phases.generation + 1) (e.apply d.state) :: d.superseded := by
  have hsame : (d.changed e).superseded = d.superseded := by
    simp only [superseded, supersede, changed]
    cases d.current <;> rfl
  rw [edit_eq_schedule, schedule_eq, hsame]
  rfl

theorem generation_edit (d : Desk) (e : Edit) :
    (d.edit e).phases.generation = d.phases.generation + 1 := by
  rw [edit_eq_schedule, generation_schedule]
  rfl

theorem state_edit (d : Desk) (e : Edit) : (d.edit e).state = e.apply d.state := by
  rw [edit_eq_schedule, schedule_eq]
  rfl

/-- Only a wait takes time. -/
theorem now_act {d : Desk} {a : Action} (h : ∀ ms, a ≠ .wait ms) : (d.act a).now = d.now := by
  have hsteps := steps_act d a
  generalize d.notice? a = n at hsteps
  generalize d.act a = d' at hsteps
  cases hsteps with
  | edit e => rw [edit_eq_schedule, schedule_eq]; rfl
  | wait ms => exact absurd rfl (h ms)
  | sent _ _ => rw [enter_eq]; rfl
  | _ => rfl

end Playground.Desk
