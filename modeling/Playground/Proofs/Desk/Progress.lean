import Mathlib.Algebra.Ring.Nat
import Playground.Proofs.Desk.Course

/-!
# A desk always goes on

As long as the phase is not `rendered`, the current cycle waits for the edits to stop,
or an event of it is in the queue, or a service is about to answer it.  So a driver that
handles events until the phase is `rendered` is never left without one to come.

`work` counts the steps that can still be made without an edit.

    waiting      its end, the first event, and all that follows
    compiling    two answers and the last event
    parsing      an answer and the last event
    spinner      its end and its event
    event        handling it

Every step that moves a cycle on or handles an event takes one off.
-/

namespace Playground

/-- A rendering has been shown. -/
def Notice.isRendered : Notice → Bool
  | .rendered _ _ => true
  | _ => false

/-- The cycle waits for the parse service. -/
def Stage.isParsing : Stage → Bool
  | .parsing _ => true
  | _ => false

/-- The steps that are left to a cycle, with the events that it tells in them. -/
def Stage.work : Stage → Nat
  | .waiting => 7
  | .compiling => 3
  | .parsing _ => 2
  | .finished => 0

/-- The steps that are left to a spinner. -/
def Spinner.work : Spinner → Nat
  | .off => 0
  | .running | .stopped => 2

namespace Cycle

/-- The steps that are left to a cycle and its spinner. -/
def work (c : Cycle) : Nat := c.stage.work + c.spinner.work

theorem work_stopSpinner (c : Cycle) : c.stopSpinner.work = c.work := by
  cases h : c.spinner <;> simp [work, stopSpinner, Spinner.stop, Spinner.work, h]

/-- A cycle that moves on has less to do, even with the events that it tells. -/
theorem Moves.work_lt {c : Cycle} {a : Desk.Action} {f : Cycle → Cycle} {es : List Event}
    (h : c.Moves a f es) : (f c).work + es.length < c.work := by
  cases h with
  | sends hs =>
    cases hc : c.cancelled <;> simp [work, send, Stage.work, Spinner.work, hs, hc] <;> omega
  | compiled hs => simp [work, Stage.work, hs]
  | fails hs =>
    simp [work, finish, Stage.work, hs]
    omega
  | parsed hs =>
    simp [work, finish, Stage.work, hs]
    omega
  | spins hs => cases hc : c.spinner <;> simp_all [work, endSpinner, Spinner.work]
  | stops hs => simp [work, endSpinner, Spinner.work, hs]

theorem sum_work_unlessOver (c : Cycle) : (c.unlessOver.toList.map work).sum ≤ c.work := by
  unfold unlessOver
  split <;> simp

end Cycle

namespace Desk

/-- The steps that are left to a desk without an edit. -/
def work (d : Desk) : Nat := d.queue.length + (d.cycles.map Cycle.work).sum

/-- The step moves a cycle on or handles an event. -/
def goesOn (d : Desk) : Action → Bool
  | .debounceElapsed g => (d.cycle? g).any (·.stage = .waiting)
  | .compiled g _ => (d.cycle? g).any (·.stage = .compiling)
  | .parsed g _ => (d.cycle? g).any (·.stage.isParsing)
  | .spinnerElapsed g => (d.cycle? g).any (·.spinner ≠ .off)
  | .spinnerStopped g => (d.cycle? g).any (·.spinner = .stopped)
  | .next => !d.queue.isEmpty
  | .wait _ | .edit _ | .persist _ => false

/-- The step may be made by a driver that handles events until the phase is `rendered`, or
without it. -/
def drives (d : Desk) : Action → Bool
  | .edit _ | .persist _ => false
  | .next => d.phases.current ≠ .rendered
  | _ => true

/-- Events are handled until the phase is `rendered`, and the cycles go on by themselves in
any order. -/
def Driven (d : Desk) : List Action → Prop
  | [] => True
  | a :: as => d.drives a ∧ (d.act a).Driven as

/-- How many of some steps move a cycle on or handle an event. -/
def progress (d : Desk) : List Action → Nat
  | [] => 0
  | a :: as => (if d.goesOn a then 1 else 0) + (d.act a).progress as

theorem sum_work_change {d : Desk} (hnodup : (d.cycles.map Cycle.generation).Nodup)
    (hlive : ∀ c ∈ d.cycles, c.isLive) {g : Nat} {c : Cycle} (hc : d.cycle? g = some c)
    (f : Cycle → Cycle) : ((d.change g f).cycles.map Cycle.work).sum + c.work ≤
      (d.cycles.map Cycle.work).sum + (f c).work := by
  obtain ⟨before, after, hcycles, -, hchange⟩ := exists_change_eq hnodup hlive hc f
  have hle := (f c).sum_work_unlessOver
  rw [hcycles, hchange]
  simp only [List.map_append, List.map_cons, List.sum_append, List.sum_cons]
  omega

theorem sum_work_stopSpinner {d : Desk} (hnodup : (d.cycles.map Cycle.generation).Nodup)
    (hlive : ∀ c ∈ d.cycles, c.isLive) (g : Nat) :
    ((d.change g Cycle.stopSpinner).cycles.map Cycle.work).sum ≤
      (d.cycles.map Cycle.work).sum := by
  cases hc : d.cycle? g with
  | none => exact Nat.le_of_eq (by rw [change_eq_self hlive hc])
  | some c =>
    have hle := sum_work_change hnodup hlive hc Cycle.stopSpinner
    rw [Cycle.work_stopSpinner] at hle
    omega

theorem work_moved_lt {d : Desk} (hnodup : (d.cycles.map Cycle.generation).Nodup)
    (hlive : ∀ c ∈ d.cycles, c.isLive) {c : Cycle} (hc : d.cycle? c.generation = some c)
    {a : Action} {f : Cycle → Cycle} {es : List Event} (hm : c.Moves a f es) :
    (d.moved c.generation f es).work < d.work := by
  have hle := sum_work_change hnodup hlive hc f
  have hlt := hm.work_lt
  simp only [work, moved, List.length_append]
  omega

/-- Handling an event takes it off, and nothing is added. -/
theorem work_next_lt {d : Desk} (hnodup : (d.cycles.map Cycle.generation).Nodup)
    (hlive : ∀ c ∈ d.cycles, c.isLive) (hq : d.queue ≠ []) : (d.act .next).work < d.work := by
  have hleft : ∀ e es, d.queue = e :: es → (d.left es).work < d.work := by
    intro e es hq
    simp [work, left, hq]
  have hsteps := steps_act d .next
  generalize d.notice? .next = n at hsteps
  generalize d.act .next = d' at hsteps
  cases hsteps with
  | idle _ hnil => exact absurd (hnil rfl) hq
  | move _ hm => cases hm
  | stale hq _ => exact hleft _ _ hq
  | early hq _ _ => exact hleft _ _ hq
  | showed hq _ _ => exact hleft _ _ hq
  | sent hq _ =>
    rw [enter_eq]
    exact hleft _ _ hq
  | @rendered g result es hq _ =>
    have hle := sum_work_stopSpinner hnodup hlive g
    have hlt := hleft _ _ hq
    simp only [work, left, showing, change] at hle hlt ⊢
    omega

/-! ## Steps that do something -/

theorem act_of_moves {d : Desk} {c : Cycle} {a : Action} {f : Cycle → Cycle} {es : List Event}
    (hc : d.cycle? c.generation = some c) (hm : c.Moves a f es) :
    d.act a = d.moved c.generation f es := by
  cases hm with
  | sends hs => simp [act, debounceElapsed, hc, hs, moved, push, change]
  | compiled hs => simp [act, compiled, hc, hs, moved, change]
  | fails hs => simp [act, compiled, hc, hs, moved, finish, push, change]
  | parsed hs => simp [act, parsed, hc, hs, moved, finish, push, change]
  | spins hs => simp [act, spinnerElapsed, hc, hs, moved, push, change]
  | stops hs => simp [act, spinnerStopped, hc, hs, moved, change]

theorem exists_of_any {d : Desk} {g : Nat} {p : Cycle → Bool} (h : (d.cycle? g).any p) :
    ∃ c, c.generation = g ∧ d.cycle? c.generation = some c ∧ p c := by
  cases hc : d.cycle? g with
  | none => simp [hc] at h
  | some c =>
    obtain ⟨-, rfl⟩ := cycle?_eq_some hc
    exact ⟨c, rfl, hc, by simpa [hc] using h⟩

theorem exists_moves {d : Desk} {a : Action} (h : d.goesOn a) (hnext : a ≠ .next) :
    ∃ c f es, d.cycle? c.generation = some c ∧ Cycle.Moves c a f es := by
  cases a with
  | next => exact absurd rfl hnext
  | wait ms => cases h
  | edit e => cases h
  | persist on => cases h
  | debounceElapsed g =>
    obtain ⟨c, rfl, hc, hs⟩ := exists_of_any h
    exact ⟨c, _, _, hc, .sends (by simpa using hs)⟩
  | compiled g answer =>
    obtain ⟨c, rfl, hc, hs⟩ := exists_of_any h
    cases answer with
    | error e => exact ⟨c, _, _, hc, .fails (by simpa using hs)⟩
    | ok o => exact ⟨c, _, _, hc, .compiled (by simpa using hs)⟩
  | parsed g answer =>
    obtain ⟨c, rfl, hc, hs⟩ := exists_of_any h
    cases hst : c.stage with
    | parsing o => exact ⟨c, _, _, hc, .parsed hst⟩
    | _ => simp [hst, Stage.isParsing] at hs
  | spinnerElapsed g =>
    obtain ⟨c, rfl, hc, hs⟩ := exists_of_any h
    exact ⟨c, _, _, hc, .spins (by simpa using hs)⟩
  | spinnerStopped g =>
    obtain ⟨c, rfl, hc, hs⟩ := exists_of_any h
    exact ⟨c, _, _, hc, .stops (by simpa using hs)⟩

theorem goesOn_of_moves {d : Desk} {c : Cycle} {a : Action} {f : Cycle → Cycle} {es : List Event}
    (hc : d.cycle? c.generation = some c) (hm : c.Moves a f es) : d.goesOn a := by
  cases hm with
  | parsed hs => simp [goesOn, hc, hs, Stage.isParsing]
  | _ hs => simp [goesOn, hc, hs]

/-- Any other step but the passing of time does nothing. -/
theorem act_eq_self {d : Desk} {a : Action} (h : d.drives a) (hgo : d.goesOn a = false)
    (hwait : ∀ ms, a ≠ .wait ms) : d.act a = d := by
  have hempty : ∀ e es, a = .next → d.queue ≠ e :: es := by
    rintro e es rfl hq
    simp [goesOn, hq] at hgo
  have hsteps := steps_act d a
  generalize d.notice? a = n at hsteps
  generalize d.act a = d' at hsteps
  cases hsteps with
  | edit e => cases h
  | persist on => cases h
  | wait ms => exact absurd rfl (hwait ms)
  | idle _ _ => rfl
  | move hc hm => simp [goesOn_of_moves hc hm] at hgo
  | stale hq _ => exact absurd hq (hempty _ _ rfl)
  | early hq _ _ => exact absurd hq (hempty _ _ rfl)
  | sent hq _ => exact absurd hq (hempty _ _ rfl)
  | showed hq _ _ => exact absurd hq (hempty _ _ rfl)
  | rendered hq _ => exact absurd hq (hempty _ _ rfl)

theorem work_act_lt {d : Desk} (hnodup : (d.cycles.map Cycle.generation).Nodup)
    (hlive : ∀ c ∈ d.cycles, c.isLive) {a : Action} (h : d.goesOn a) :
    (d.act a).work < d.work := by
  by_cases hnext : a = .next
  case pos =>
    subst hnext
    apply work_next_lt hnodup hlive
    intro hq
    simp [goesOn, hq] at h
  case neg =>
    obtain ⟨c, f, es, hc, hm⟩ := exists_moves h hnext
    rw [act_of_moves hc hm]
    exact work_moved_lt hnodup hlive hc hm

theorem work_act_eq {d : Desk} {a : Action} (h : d.drives a) (hgo : d.goesOn a = false) :
    (d.act a).work = d.work := by
  by_cases hwait : ∃ ms, a = .wait ms
  case pos =>
    obtain ⟨ms, rfl⟩ := hwait
    rfl
  case neg => rw [act_eq_self h hgo fun ms hms => hwait ⟨ms, hms⟩]

/-- A driven desk makes no more progress than it has work. -/
theorem Driven.progress_le {log : List Exchange} {seen : List Notice} {d : Desk}
    (ht : Tracks log d) (hc : Course seen d) {as : List Action} (h : d.Driven as) :
    d.progress as + (d.run as).work ≤ d.work := by
  induction as generalizing log seen d with
  | nil => simp [progress, run]
  | cons a as ih =>
    obtain ⟨ha, has⟩ := h
    have hrest := ih (ht.act a) (hc.act ht a) has
    have hrun : d.run (a :: as) = (d.act a).run as := rfl
    rw [hrun, progress]
    cases hgo : d.goesOn a with
    | true =>
      have hlt := work_act_lt ht.nodup hc.live hgo
      rw [if_pos rfl]
      omega
    | false =>
      have heq := work_act_eq ha hgo
      rw [if_neg Bool.false_ne_true]
      omega

/-! ## Where the current cycle is -/

/-- The cycle of a generation waits for the edits to stop. -/
def Waits (d : Desk) (g : Nat) : Prop :=
  d.phases.current = .pendingCompile ∧
    ∃ c, d.cycle? g = some c ∧ c.stage = .waiting ∧ c.cancelled = false

/-- The request of a generation has been sent, and its event is in the queue. -/
def Starts (d : Desk) (g : Nat) : Prop :=
  d.phases.current = .pendingCompile ∧ .started g ∈ d.queue

/-- The request of a generation is known to be on its way.  Either the cycle waits for a
service, or its outcome is in the queue. -/
def Compiles (seen : List Notice) (d : Desk) (g : Nat) : Prop :=
  d.phases.current = .compiling ∧ .requestSent g ∈ seen ∧
    Xor (∃ c, d.cycle? g = some c ∧ c.stage.isWorking) (∃ result, .finished g result ∈ d.queue)

/-- A cycle that waits has told nothing, and any other has told that it has started. -/
theorem Told.waiting_or_started {g : Nat} {o : Option Cycle} {told : List Event}
    (h : Told g o told) : told = [] ∧ (∃ c, o = some c ∧ c.stage = .waiting) ∨
      (∃ rest, told = .started g :: rest) ∧ ∀ c, o = some c → c.stage ≠ .waiting := by
  cases htold : told with
  | nil =>
    subst htold
    cases h with
    | waiting hs _ => exact .inl ⟨rfl, _, rfl, hs⟩
  | cons e rest =>
    subst htold
    refine .inr ⟨?_, ?_⟩
    · cases h <;> exact ⟨_, rfl⟩
    · rintro c rfl
      exact h.stage_ne_waiting (by simp)

/-- A cycle that has started waits for a service, or else has told its outcome. -/
theorem Told.working_or_finished {g : Nat} {o : Option Cycle} {told : List Event}
    (h : Told g o told) (hne : told ≠ []) :
    Xor (∃ c, o = some c ∧ c.stage.isWorking) (∃ result, .finished g result ∈ told) := by
  cases h with
  | waiting => exact absurd rfl hne
  | sent hw _ => exact .inl ⟨⟨_, rfl, hw⟩, by simp⟩
  | overdue hw _ => exact .inl ⟨⟨_, rfl, hw⟩, by simp⟩
  | done hs _ => exact .inr ⟨⟨_, by simp; rfl⟩, by simp [hs, Stage.isWorking]⟩
  | doneOverdue => exact .inr ⟨⟨_, by simp; rfl⟩, by simp⟩
  | overdueDone => exact .inr ⟨⟨_, by simp; rfl⟩, by simp⟩

theorem mem_eventsOf {d : Desk} {e : Event} : e ∈ d.eventsOf e.generation ↔ e ∈ d.queue := by
  simp [eventsOf]

/-- No outcome has been handled of a cycle that is current. -/
theorem Handled.finished_not_mem {g : Nat} {p : Phase} {handled : List Event} {ns : List Notice}
    (h : Handled g p handled ns) (result : Except PlaygroundError CompileOutcome) :
    .finished g result ∉ handled := by
  cases h <;> simp

theorem Handled.requestSent_mem {g : Nat} {handled : List Event} {ns : List Notice}
    (h : Handled g .compiling handled ns) : .requestSent g ∈ ns := by
  cases h <;> simp

theorem Handled.eq_nil {g : Nat} {handled : List Event} {ns : List Notice}
    (h : Handled g .pendingCompile handled ns) : handled = [] := by
  cases h
  rfl

theorem Handled.ne_nil {g : Nat} {handled : List Event} {ns : List Notice}
    (h : Handled g .compiling handled ns) : handled ≠ [] := by
  cases h <;> simp

variable {seen : List Notice} {d : Desk}

/-- A current cycle waits, or has started, or compiles. -/
theorem Course.waits_or_starts_or_compiles (h : Course seen d) {g : Nat}
    (hcur : d.current = some g) :
    d.Waits g ∧ ¬ d.Starts g ∧ ¬ d.Compiles seen g ∨
      ¬ d.Waits g ∧ d.Starts g ∧ ¬ d.Compiles seen g ∨
      ¬ d.Waits g ∧ ¬ d.Starts g ∧ d.Compiles seen g := by
  obtain ⟨handled, htold, hhandled⟩ := h.underway g hcur
  have hqueue : ∀ e : Event, e.generation = g → (e ∈ d.eventsOf g ↔ e ∈ d.queue) := by
    rintro e rfl
    exact mem_eventsOf
  rcases hhandled.phase_eq with hphase | hphase
  case inl =>
    have hnot : ¬ d.Compiles seen g := by
      rintro ⟨hcomp, -⟩
      simp [hphase] at hcomp
    rw [hphase] at hhandled
    rw [hhandled.eq_nil, List.nil_append] at htold
    rcases htold.waiting_or_started with ⟨hnone, c, hc, hs⟩ | ⟨⟨rest, hstarted⟩, hne⟩
    · refine .inl ⟨⟨hphase, c, hc, hs, ?_⟩, ?_, hnot⟩
      · have hlive := h.live c (cycle?_eq_some hc).1
        simpa [Cycle.isLive, hs] using hlive
      · rintro ⟨-, hmem⟩
        rw [← hqueue _ rfl, hnone] at hmem
        cases hmem
    · refine .inr (.inl ⟨?_, ⟨hphase, ?_⟩, hnot⟩)
      · rintro ⟨-, c, hc, hs, -⟩
        exact hne c hc hs
      · rw [← hqueue _ rfl, hstarted]
        exact List.mem_cons_self ..
  case inr =>
    rw [hphase] at hhandled
    have hpending : d.phases.current ≠ .pendingCompile := by simp [hphase]
    refine .inr (.inr ⟨fun hw => hpending hw.1, fun hs => hpending hs.1, hphase, ?_, ?_⟩)
    · exact (List.mem_filter.mp hhandled.requestSent_mem).1
    · have hfinished : ∀ result, .finished g result ∈ handled ++ d.eventsOf g ↔
          .finished g result ∈ d.queue := by
        intro result
        rw [List.mem_append, hqueue (.finished g result) rfl]
        simp [hhandled.finished_not_mem result]
      have hxor := htold.working_or_finished (by simp [hhandled.ne_nil])
      simpa only [hfinished] using hxor

/-- As long as the phase is not `rendered`, there is a step of the current cycle to make that needs
no edit, whatever the services answer. -/
theorem Course.exists_goesOn (h : Course seen d) (hphase : d.phases.current ≠ .rendered) :
    d.goesOn .next ∨ ∃ g, d.current = some g ∧ (d.goesOn (.debounceElapsed g) ∨
      (∀ answer, d.goesOn (.compiled g answer)) ∨
      ∀ answer, d.goesOn (.parsed g answer)) := by
  cases hcur : d.current with
  | none => exact absurd (h.resting hcur).1 hphase
  | some g =>
    have hnext : ∀ e ∈ d.queue, d.goesOn .next := by
      intro e he
      simpa [goesOn] using List.ne_nil_of_mem he
    rcases h.waits_or_starts_or_compiles hcur with ⟨hw, -⟩ | ⟨-, hs, -⟩ | ⟨-, -, hcomp⟩
    · obtain ⟨-, c, hc, hs, -⟩ := hw
      exact .inr ⟨g, rfl, .inl (by simp [goesOn, hc, hs])⟩
    · exact .inl (hnext _ hs.2)
    · rcases hcomp.2.2 with ⟨⟨c, hc, hw⟩, -⟩ | ⟨⟨result, hmem⟩, -⟩
      · refine .inr ⟨g, rfl, .inr ?_⟩
        cases hs : c.stage with
        | compiling => exact .inl fun _ => by simp [goesOn, hc, hs]
        | parsing o => exact .inr fun _ => by simp [goesOn, hc, hs, Stage.isParsing]
        | _ => simp [hs, Stage.isWorking] at hw
      · exact .inl (hnext _ hmem)

/-! ## Runs without an edit -/

theorem run_append (d : Desk) (as bs : List Action) : d.run (as ++ bs) = (d.run as).run bs :=
  List.foldl_append ..

theorem notices_append (d : Desk) (as bs : List Action) :
    d.notices (as ++ bs) = d.notices as ++ (d.run as).notices bs := by
  induction as generalizing d with
  | nil => rfl
  | cons a as ih =>
    rw [List.cons_append, notices, notices, ih, List.append_assoc]
    rfl

theorem generation_act {a : Action} (h : a.isEdit = false) :
    (d.act a).phases.generation = d.phases.generation ∧ (d.act a).state = d.state := by
  have hsteps := steps_act d a
  generalize d.notice? a = n at hsteps
  generalize d.act a = d' at hsteps
  cases hsteps with
  | edit e => cases h
  | sent _ _ =>
    refine ⟨generation_enter (d.left _) _ _, ?_⟩
    rw [enter_eq]
    rfl
  | rendered _ _ => exact ⟨generation_enter (d.left _) _ _, rfl⟩
  | _ => exact ⟨rfl, rfl⟩

/-- Steps without an edit keep the generation and the state. -/
theorem generation_run {as : List Action} (h : ∀ a ∈ as, a.isEdit = false) (d : Desk) :
    (d.run as).phases.generation = d.phases.generation ∧ (d.run as).state = d.state := by
  induction as generalizing d with
  | nil => exact ⟨rfl, rfl⟩
  | cons a as ih =>
    obtain ⟨hgen, hstate⟩ := generation_act (d := d) (h a (List.mem_cons_self ..))
    obtain ⟨hgen', hstate'⟩ := ih (fun b hb => h b (List.mem_cons_of_mem a hb)) (d.act a)
    exact ⟨hgen'.trans hgen, hstate'.trans hstate⟩

/-- Only an event of the newest generation does something. -/
theorem Tracks.generation_notice {log : List Exchange} (ht : Tracks log d) {a : Action} {n : Notice}
    (hn : d.notice? a = some n) (hact : n.isActive) : n.generation = d.phases.generation := by
  have hsteps := steps_act d a
  rw [hn] at hsteps
  generalize d.act a = d' at hsteps
  cases hsteps with
  | sent _ hcur => exact ht.current_eq _ hcur
  | showed _ hcur _ => exact ht.current_eq _ hcur
  | rendered _ hcur => exact ht.current_eq _ hcur
  | stale _ _ => cases hact
  | early _ _ _ => cases hact

/-- Without an edit, only events of the generation that is the newest one do something. -/
theorem Tracks.generation_notices {log : List Exchange} (ht : Tracks log d) {as : List Action}
    (h : ∀ a ∈ as, a.isEdit = false) :
    ∀ n ∈ d.notices as, n.isActive → n.generation = d.phases.generation := by
  induction as generalizing log d with
  | nil => nofun
  | cons a as ih =>
    intro n hn hact
    rcases List.mem_append.mp hn with hn | hn
    · exact ht.generation_notice (Option.mem_toList.mp hn) hact
    · have hrest := ih (ht.act a) (fun b hb => h b (List.mem_cons_of_mem a hb)) n hn hact
      rwa [(generation_act (h a (List.mem_cons_self ..))).1] at hrest

/-! ## Driven runs -/

theorem isEdit_of_drives {a : Action} (h : d.drives a) : a.isEdit = false := by
  cases a with
  | edit e => cases h
  | _ => rfl

theorem Driven.isEdit_eq {as : List Action} (h : d.Driven as) : ∀ a ∈ as, a.isEdit = false := by
  induction as generalizing d with
  | nil => nofun
  | cons a as ih =>
    intro b hb
    rcases List.mem_cons.mp hb with rfl | hb
    · exact isEdit_of_drives h.1
    · exact ih h.2 b hb

theorem Driven.append {as bs : List Action} (h : d.Driven as) (h' : (d.run as).Driven bs) :
    d.Driven (as ++ bs) := by
  induction as generalizing d with
  | nil => exact h'
  | cons a as ih => exact ⟨h.1, ih h.2 h'⟩

/-- As long as the phase is not `rendered`, a notice is of the newest generation unless it
is stale. -/
theorem Course.generation_notice {log : List Exchange} (h : Course seen d) (ht : Tracks log d)
    {a : Action} (ha : d.drives a) : ∀ n ∈ d.notice? a,
      if n.isActive then n.generation = d.phases.generation
      else n.generation < d.phases.generation := by
  intro n hn
  by_cases hact : n.isActive
  case pos =>
    rw [if_pos hact]
    exact ht.generation_notice hn hact
  case neg =>
    rw [if_neg hact]
    have hsteps := steps_act d a
    rw [Option.mem_def.mp hn] at hsteps
    generalize d.act a = d' at hsteps
    cases hsteps with
    | early hq hcur hphase => exact absurd (h.phase_of_stillCompiling hq hcur) hphase
    | @stale e es hq hne =>
      have hle : e.generation ≤ d.phases.generation := ht.event_le e (by simp [hq])
      have hphase : d.phases.current ≠ .rendered := by
        intro hr
        simp [drives, hr] at ha
      cases hcur : d.current with
      | none => exact absurd (h.resting hcur).1 hphase
      | some g =>
        rw [hcur, ht.current_eq g hcur, ne_eq, Option.some.injEq] at hne
        change e.generation < d.phases.generation
        omega
    | _ => exact absurd rfl hact

theorem Driven.generation_notices {log : List Exchange} (ht : Tracks log d) (hc : Course seen d)
    {as : List Action} (h : d.Driven as) : ∀ n ∈ d.notices as,
      if n.isActive then n.generation = d.phases.generation
      else n.generation < d.phases.generation := by
  induction as generalizing log seen d with
  | nil => simp [notices]
  | cons a as ih =>
    obtain ⟨ha, has⟩ := h
    intro n hn
    rcases List.mem_append.mp hn with hn | hn
    · exact hc.generation_notice ht ha n (by simpa using hn)
    · have hrest := ih (ht.act a) (hc.act ht a) has n hn
      rwa [(generation_act (isEdit_of_drives ha)).1] at hrest

/-- The newest generation has been rendered once if the phase is `rendered`, and not at all
before. -/
theorem Course.countP_rendered (h : Course seen d) (hcur : ∀ g, d.current = some g →
    g = d.phases.generation) : (Notice.effects seen d.phases.generation).countP Notice.isRendered =
      if d.phases.current = .rendered then 1 else 0 := by
  cases hc : d.current with
  | none =>
    obtain ⟨hphase, showed, status, hword⟩ := h.resting hc
    rw [hword, hphase]
    cases showed <;> rfl
  | some g =>
    obtain ⟨handled, -, hhandled⟩ := h.underway g hc
    rw [← hcur g hc]
    generalize Notice.effects seen g = ns at hhandled
    generalize d.phases.current = p at hhandled
    cases hhandled <;> rfl

theorem nodup_word (g : Nat) (showed : Bool) (status : Status) :
    (Notice.word g showed status).Nodup := by
  cases showed <;> simp [Notice.word]

/-- An event does something once at most. -/
theorem Course.count_le_one (h : Course seen d) {n : Notice} (hact : n.isActive) :
    seen.count n ≤ 1 := by
  obtain ⟨showed, status, hword⟩ := h.grammar n.generation
  have heffects : (Notice.effects seen n.generation).count n = seen.count n :=
    List.count_filter (by simp [hact])
  rw [← heffects]
  exact List.nodup_iff_count_le_one.mp ((nodup_word _ _ _).sublist hword.sublist) n

/-- A driven desk renders the newest generation once, unless it has done so before. -/
theorem Driven.countP_rendered {log : List Exchange} (ht : Tracks log d) (hc : Course seen d)
    {as : List Action} (h : d.Driven as) : (d.notices as).countP Notice.isRendered =
      if d.phases.current = .rendered then 0
      else if (d.run as).phases.current = .rendered then 1 else 0 := by
  have hgen := (generation_run h.isEdit_eq d).1
  have hbefore := hc.countP_rendered ht.current_eq
  have hafter := (hc.run ht as).countP_rendered (ht.run as).current_eq
  have hall : (Notice.effects (d.notices as) d.phases.generation).countP Notice.isRendered =
      (d.notices as).countP Notice.isRendered := by
    rw [Notice.effects, List.countP_filter]
    apply List.countP_congr
    intro n hn
    have hn := h.generation_notices ht hc n hn
    cases n <;> simp_all [Notice.isRendered, Notice.isActive]
  rw [hgen, Notice.effects_append, List.countP_append, hbefore, hall] at hafter
  generalize (d.notices as).countP Notice.isRendered = n at hafter ⊢
  by_cases hd : d.phases.current = .rendered <;> by_cases he : (d.run as).phases.current = .rendered
    <;> simp only [hd, he, if_true, if_false] at hafter ⊢ <;> omega

end Desk

end Playground
