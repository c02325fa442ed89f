import Playground.Proofs.Desk.Kept
import Playground.Proofs.Desk.Progress
import Playground.Timeline

/-!
# How time passes

`Ticks` lists what can happen while one waits.  Each tick is some steps of the desk.

    begin    timers that do not matter any more are dropped, and those of new cycles start
    ring     the timer that is due first goes off
    clock    no timer is due, and time goes on
    handle   the oldest event is handled

A timer that goes off sets the timers of what comes next, even of an answer that takes
no time.  `Wound` says that the timers fit the desk.  A cycle that is new has none for the end
of its pause before the next wait begins, and one that waits for an answer has the timer of the
answer if it is `Served`.
-/

namespace Playground

/-! ## Operations -/

/-- How one waits at a timeline. -/
inductive Timeline.Wait where
  /-- For some time. -/
  | sleep (ms : Nat)
  /-- For the next event up to some time, and it is handled. -/
  | next (ms : Nat)
  /-- Until the phase is `rendered`, and all events are handled that come. -/
  | settle
deriving DecidableEq, Repr

/-- What one does at a timeline.  The services may be others each time one waits. -/
inductive Timeline.Op where
  /-- The user changes the state. -/
  | edit (e : Edit)
  /-- Changes are stored, or not any more. -/
  | persist (on : Bool)
  /-- Time passes. -/
  | wait (sv : Services) (w : Timeline.Wait)

namespace Timeline

/-- The timeline after a wait. -/
def wait (sv : Services) (timing : Timing) (t : Timeline) : Wait → Timeline
  | .sleep ms => t.sleep sv timing ms
  | .next ms => (t.next sv timing ms).2
  | .settle => t.settle sv timing

/-- The timeline after an operation. -/
def perform (timing : Timing) (t : Timeline) : Op → Timeline
  | .edit e => t.on (·.edit e)
  | .persist on => t.on fun d => { d with persists := on }
  | .wait sv w => t.wait sv timing w

/-- The timeline after some operations. -/
def run (timing : Timing) (t : Timeline) (ops : List Op) : Timeline := ops.foldl (perform timing) t

end Timeline

/-! ## Timers and cycles -/

/-- What a timer is for. -/
inductive Alarm.Kind where
  | debounce
  | compile
  | parse
  | spinner
deriving DecidableEq, Repr

namespace Alarm

def kind : Alarm → Kind
  | debounce _ => .debounce
  | compiled _ _ => .compile
  | parsed _ _ => .parse
  | spinner _ => .spinner

def generation : Alarm → Nat
  | debounce g | compiled g _ | parsed g _ | spinner g => g

/-- The step of the desk when the timer goes off. -/
def action : Alarm → Desk.Action
  | debounce g => .debounceElapsed g
  | compiled g answer => .compiled g answer
  | parsed g answer => .parsed g answer
  | spinner g => .spinnerElapsed g

/-- What the compile service is asked when the timer goes off. -/
def sends? (d : Desk) : Alarm → Option CompileRequest
  | debounce g => (d.cycle? g).map (·.snapshot.compileRequest)
  | _ => none

/-- What the parse service is asked when the timer goes off. -/
def asks? (d : Desk) : Alarm → Option ParseRequest
  | compiled g answer => do
    let c ← d.cycle? g
    let o ← answer.toOption
    return c.snapshot.parseRequest o.stderr
  | _ => none

/-- The timers that are set when the timer goes off, with their delays. -/
def sets (sv : Services) (timing : Timing) (d : Desk) (a : Alarm) : List (Nat × Alarm) :=
  ((a.sends? d).map fun r => (timing.spinner, spinner a.generation) ::
      ((sv.compile r).map fun x => (x.delay, compiled a.generation x.answer)).toList).getD [] ++
    ((a.asks? d).bind fun r =>
      (sv.parse r).map fun x => (x.delay, parsed a.generation x.answer)).toList

/-- What is asked when the timer goes off is answered, if a timer of this kind is for its
answer. -/
def IsAnswered (sv : Services) (d : Desk) (a : Alarm) : Kind → Prop
  | .compile => ∀ r ∈ a.sends? d, (sv.compile r).isSome
  | .parse => ∀ r ∈ a.asks? d, (sv.parse r).isSome
  | .debounce | .spinner => True

theorem action_isEdit (a : Alarm) : a.action.isEdit = false := by
  cases a <;> rfl

theorem action_ne_next (a : Alarm) : a.action ≠ .next := by
  cases a <;> nofun

theorem action_ne_wait (a : Alarm) (ms : Nat) : a.action ≠ .wait ms := by
  cases a <;> nofun

theorem drives_action (d : Desk) (a : Alarm) : d.drives a.action := by
  cases a <;> rfl

/-- The timers that are set are for the same cycle, and not for a pause. -/
theorem of_mem_sets {sv : Services} {timing : Timing} {d : Desk} {a : Alarm} {p : Nat × Alarm}
    (h : p ∈ a.sets sv timing d) : p.2.generation = a.generation ∧ p.2.kind ≠ .debounce := by
  rcases List.mem_append.mp h with h | h
  · cases hr : a.sends? d with
    | none => simp [hr] at h
    | some r =>
      rw [hr, Option.map_some, Option.getD_some] at h
      rcases List.mem_cons.mp h with rfl | h
      · exact ⟨rfl, nofun⟩
      · obtain ⟨x, -, rfl⟩ := Option.map_eq_some_iff.mp (Option.mem_toList.mp h)
        exact ⟨rfl, nofun⟩
  · obtain ⟨r, -, h⟩ := Option.bind_eq_some_iff.mp (Option.mem_toList.mp h)
    obtain ⟨x, -, rfl⟩ := Option.map_eq_some_iff.mp h
    exact ⟨rfl, nofun⟩

/-- A spinner that is over sets no timer. -/
theorem kind_ne_spinner_of_mem_sets {sv : Services} {timing : Timing} {d : Desk} {a : Alarm}
    {p : Nat × Alarm} (h : p ∈ a.sets sv timing d) : a.kind ≠ .spinner := by
  cases a with
  | spinner g => simp [sets, sends?, asks?] at h
  | _ => nofun

/-- Of two timers that are set, one is that of the spinner. -/
theorem pairwise_sets (sv : Services) (timing : Timing) (d : Desk) (a : Alarm) :
    (a.sets sv timing d).Pairwise fun p q => p.2.kind = .spinner ∨ q.2.kind = .spinner := by
  rw [sets]
  cases hr : a.sends? d with
  | none => cases (a.asks? d).bind _ <;> simp
  | some r =>
    have hnone : a.asks? d = none := by
      cases a with
      | debounce g => rfl
      | _ => cases hr
    cases sv.compile r <;> simp [hnone, kind]

/-- The end of a pause sets the timers of the spinner and of the compile service. -/
theorem sets_debounce {d : Desk} {g : Nat} {c : Cycle} (h : d.cycle? g = some c) (sv : Services)
    (timing : Timing) : (debounce g).sets sv timing d = (timing.spinner, spinner g) ::
      ((sv.compile c.snapshot.compileRequest).map fun x =>
        (x.delay, compiled g x.answer)).toList := by
  simp [sets, sends?, asks?, h, generation]

/-- Output of the compile service sets the timer of the parse service. -/
theorem sets_compiled {d : Desk} {g : Nat} {c : Cycle} (h : d.cycle? g = some c) (o : CompileOutput)
    (sv : Services) (timing : Timing) : (compiled g (.ok o)).sets sv timing d =
      ((sv.parse (c.snapshot.parseRequest o.stderr)).map fun x =>
        (x.delay, parsed g x.answer)).toList := by
  simp [sets, sends?, asks?, h, generation, Except.toOption]

theorem generation_of_moves {c : Cycle} {a : Alarm} {f : Cycle → Cycle} {es : List Event}
    (h : c.Moves a.action f es) : a.generation = c.generation := by
  cases a <;> simp only [action] at h <;> cases h <;> rfl

end Alarm

/-- The timer is for the answer of a service. -/
def Alarm.Kind.isAnswer : Alarm.Kind → Bool
  | .compile | .parse => true
  | .debounce | .spinner => false

/-- The cycle waits for a timer of this kind. -/
def Cycle.awaits (c : Cycle) : Alarm.Kind → Bool
  | .debounce => c.stage = .waiting
  | .compile => c.stage = .compiling
  | .parse => c.stage.isParsing
  | .spinner => c.spinner = .running

/-- What a cycle waits for beside the end of its spinner depends on its stage only. -/
theorem Cycle.awaits_eq {b c : Cycle} (h : c.stage = b.stage) {k : Alarm.Kind} (hk : k ≠ .spinner) :
    c.awaits k = b.awaits k := by
  cases k with
  | spinner => exact absurd rfl hk
  | _ => simp only [awaits, h]

/-- A cycle waits for one thing at a time, beside the end of its spinner. -/
theorem Cycle.kind_eq_of_awaits {c : Cycle} {k l : Alarm.Kind} (hk : k ≠ .spinner)
    (hl : l ≠ .spinner) (h : c.awaits k) (h' : c.awaits l) : k = l := by
  cases k <;> cases l <;> first | rfl | (cases hs : c.stage <;> simp_all [awaits, Stage.isParsing])

namespace Desk

/-- The step needs no one: time passes, or a cycle moves on. -/
def Action.isOwn : Action → Bool
  | .edit _ | .persist _ | .next => false
  | _ => true

theorem drives_of_isOwn {a : Action} (h : a.isOwn) (d : Desk) : d.drives a := by
  cases a with
  | edit _ => cases h
  | persist _ => cases h
  | next => cases h
  | _ => rfl

theorem isEdit_of_isOwn {a : Action} (h : a.isOwn) : a.isEdit = false := by
  cases a with
  | edit _ => cases h
  | _ => rfl

theorem isOwn_of_mem_stops {d : Desk} {a : Action} (h : a ∈ d.stops) : a.isOwn := by
  obtain ⟨c, -, rfl⟩ := List.mem_map.mp h
  rfl

/-- Steps of its own drive a desk. -/
theorem driven_of_isOwn {as : List Action} (h : ∀ a ∈ as, a.isOwn) (d : Desk) : d.Driven as := by
  induction as generalizing d with
  | nil => exact trivial
  | cons a as ih =>
    exact ⟨drives_of_isOwn (h a (List.mem_cons_self ..)) d,
      ih (fun b hb => h b (List.mem_cons_of_mem a hb)) _⟩

/-- Only events that are handled are noticed. -/
theorem notices_of_isOwn {as : List Action} (h : ∀ a ∈ as, a.isOwn) (d : Desk) :
    d.notices as = [] := by
  induction as generalizing d with
  | nil => rfl
  | cons a as ih =>
    have hnone : d.notice? a = none := by
      have hown := h a (List.mem_cons_self ..)
      cases a <;> first | rfl | cases hown
    rw [notices, hnone, ih fun b hb => h b (List.mem_cons_of_mem a hb)]
    rfl

/-- A cycle that waits for a timer moves on when it goes off. -/
theorem goesOn_action {d : Desk} (hnodup : (d.cycles.map Cycle.generation).Nodup) {c : Cycle}
    (hc : c ∈ d.cycles) {a : Alarm} (hg : a.generation = c.generation) (h : c.awaits a.kind) :
    d.goesOn a.action := by
  have hcycle : d.cycle? c.generation = some c := (cycle?_eq_some_iff hnodup).mpr ⟨hc, rfl⟩
  cases a <;> simp only [Alarm.generation] at hg <;> subst hg <;>
    simp_all [goesOn, Alarm.action, Cycle.awaits, Alarm.kind]

end Desk

namespace Timeline

/-! ## Ticks -/

/-- The timeline at another time. -/
def goTo (t : Timeline) (ms : Nat) : Timeline := t.on fun d => { d with now := ms }

/-- There is a timer of this kind for the cycle of a generation. -/
def HasTimer (t : Timeline) (k : Alarm.Kind) (g : Nat) : Prop :=
  ∃ x ∈ t.timers, x.alarm.kind = k ∧ x.alarm.generation = g

/-- If the cycle of this generation waits for a timer of this kind, it has one. -/
def ArmedAt (t : Timeline) (g : Nat) (k : Alarm.Kind) : Prop :=
  ∀ c ∈ t.desk.cycles, c.generation = g → c.awaits k → t.HasTimer k g

/-- Every cycle that waits for a timer of this kind has one. -/
def Armed (t : Timeline) (k : Alarm.Kind) : Prop := ∀ g, t.ArmedAt g k

/-- The answer that the cycle of this generation waits for comes. -/
def Served (t : Timeline) (g : Nat) : Prop := ∀ k : Alarm.Kind, k.isAnswer → t.ArmedAt g k

/-- A timer has gone off, and the others are left. -/
def rung (sv : Services) (timing : Timing) (t : Timeline) (x : Timer) (others : List Timer) :
    Timeline where
  desk := (t.goTo x.due).desk.act x.alarm.action
  timers := others ++ (x.alarm.sets sv timing t.desk).map fun p => ⟨x.due + p.1, p.2⟩
  requests := t.requests ++ ((x.alarm.sends? t.desk).map (x.due, ·)).toList
  logs := t.logs ++ (x.alarm.asks? t.desk).toList

/-- A timer that is due first goes off. -/
inductive Ring (sv : Services) (timing : Timing) :
    Timeline → List Desk.Action → Timeline → Prop where
  | mk {t : Timeline} {x : Timer} {before after : List Timer} :
      t.Armed .debounce → t.timers = before ++ x :: after →
      (∀ y ∈ before ++ after, x.due ≤ y.due) → t.now ≤ x.due →
      Ring sv timing t [.wait (x.due - t.now), x.alarm.action]
        (t.rung sv timing x (before ++ after))

/-- Something happens while one waits. -/
inductive Ticks (sv : Services) (timing : Timing) :
    Timeline → List Desk.Action → Timeline → Prop where
  | begin (t : Timeline) : Ticks sv timing t t.desk.stops (t.begin timing)
  | ring {t u : Timeline} {as : List Desk.Action} : Ring sv timing t as u → Ticks sv timing t as u
  | clock {t : Timeline} {deadline : Nat} :
      t.Armed .debounce → t.now ≤ deadline → (∀ x ∈ t.timers, deadline < x.due) →
      Ticks sv timing t [.wait (deadline - t.now)] (t.goTo deadline)
  | handle (t : Timeline) : Ticks sv timing t [.next] (t.on (·.act .next))

/-- Time passes, tick by tick. -/
inductive Passes (sv : Services) (timing : Timing) :
    Timeline → List Desk.Action → Timeline → Prop where
  | refl (t : Timeline) : Passes sv timing t [] t
  | tick {t u v : Timeline} {as bs : List Desk.Action} :
      Ticks sv timing t as u → Passes sv timing u bs v → Passes sv timing t (as ++ bs) v

variable {sv : Services} {timing : Timing} {t u : Timeline} {as : List Desk.Action}

theorem now_rung (sv : Services) (timing : Timing) (t : Timeline) (x : Timer)
    (others : List Timer) : (t.rung sv timing x others).now = x.due :=
  Desk.now_act x.alarm.action_ne_wait

section Rung

variable {x y : Timer} {before after others : List Timer}

theorem mem_timers_iff (htimers : t.timers = before ++ x :: after) :
    y ∈ t.timers ↔ y = x ∨ y ∈ before ++ after := by
  rw [htimers]
  exact List.perm_middle.mem_iff.trans List.mem_cons

/-- The timer that goes off is due first. -/
theorem due_le_of_mem (htimers : t.timers = before ++ x :: after)
    (hmin : ∀ y ∈ before ++ after, x.due ≤ y.due) (hy : y ∈ t.timers) : x.due ≤ y.due := by
  rcases (mem_timers_iff htimers).mp hy with rfl | hy
  · exact Nat.le_refl _
  · exact hmin y hy

/-- A ring leaves the other timers and those that it sets. -/
theorem mem_rung_iff : y ∈ (t.rung sv timing x others).timers ↔
    y ∈ others ∨ ∃ p ∈ x.alarm.sets sv timing t.desk, ⟨x.due + p.1, p.2⟩ = y := by
  rw [rung, List.mem_append, List.mem_map]

/-- A ring sets no timer for a pause. -/
theorem mem_others_of_debounce (hy : y ∈ (t.rung sv timing x others).timers)
    (hk : y.alarm.kind = .debounce) : y ∈ others := by
  rcases mem_rung_iff.mp hy with hy | ⟨p, hp, rfl⟩
  · exact hy
  · exact absurd hk (Alarm.of_mem_sets hp).2

end Rung

/-- A timer that goes off is two steps of the desk. -/
theorem Ring.desk_eq (h : Ring sv timing t as u) : u.desk = t.desk.run as := by
  cases h with
  | mk _ _ _ hnow =>
    have hdue := Nat.add_sub_cancel' hnow
    simp only [now] at hdue
    simp [Desk.run, Desk.act, rung, goTo, on, now, hdue]

theorem Ticks.desk_eq (h : Ticks sv timing t as u) : u.desk = t.desk.run as := by
  cases h with
  | begin => rfl
  | ring h => exact h.desk_eq
  | clock _ hnow _ =>
    have hdue := Nat.add_sub_cancel' hnow
    simp only [now] at hdue
    simp [Desk.run, Desk.act, goTo, on, now, hdue]
  | handle => rfl

theorem Passes.desk_eq (h : Passes sv timing t as u) : u.desk = t.desk.run as := by
  induction h with
  | refl => rfl
  | tick h _ ih => rw [ih, h.desk_eq, Desk.run_append]

theorem Passes.append {v : Timeline} {bs : List Desk.Action} (h : Passes sv timing t as u)
    (h' : Passes sv timing u bs v) : Passes sv timing t (as ++ bs) v := by
  induction h with
  | refl => exact h'
  | tick h _ ih =>
    rw [List.append_assoc]
    exact .tick h (ih h')

theorem Ticks.passes (h : Ticks sv timing t as u) : Passes sv timing t as u := by
  simpa using Passes.tick h (.refl u)

end Timeline

end Playground
