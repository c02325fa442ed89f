import Playground.Proofs.Desk.Step

/-!
# All that a step can do

`Steps d a n d'` lists what a step `a` can make of a desk, with the notice of the event
that it handles.

    edit                    a new generation
    persist, wait           the store, the clock
    debounce, answers,      nothing, or one cycle moves on and tells its events
      spinner
    next                    nothing, or one event is handled

Invariants of the desk are proved by cases on it and do not open the step.
-/

namespace Playground

/-- The user changes the state in the step. -/
def Desk.Action.isEdit : Desk.Action → Bool
  | .edit _ => true
  | _ => false

/-- How a cycle moves on by itself in a step, and what it tells. -/
inductive Cycle.Moves (c : Cycle) : Desk.Action → (Cycle → Cycle) → List Event → Prop where
  /-- The edits have stopped. -/
  | sends : c.stage = .waiting →
      Moves c (.debounceElapsed c.generation) Cycle.send [.started c.generation]
  /-- The compile service has output. -/
  | compiled {o : CompileOutput} : c.stage = .compiling →
      Moves c (.compiled c.generation (.ok o)) (fun b => { b with stage := .parsing o }) []
  /-- The compile service has failed. -/
  | fails {e : PlaygroundError} : c.stage = .compiling →
      Moves c (.compiled c.generation (.error e)) Cycle.finish [.finished c.generation (.error e)]
  /-- The parse service has answered. -/
  | parsed {o : CompileOutput} {answer : Except PlaygroundError (List Entry)} :
      c.stage = .parsing o →
      Moves c (.parsed c.generation answer) Cycle.finish
        [.finished c.generation (answer.map fun entries => ⟨o.succeeded, entries⟩)]
  /-- The spinner tells that it has run for long enough. -/
  | spins : c.spinner ≠ .off →
      Moves c (.spinnerElapsed c.generation) Cycle.endSpinner [.stillCompiling c.generation]
  /-- The spinner stops. -/
  | stops : c.spinner = .stopped → Moves c (.spinnerStopped c.generation) Cycle.endSpinner []

namespace Cycle.Moves

variable {c : Cycle} {a : Desk.Action} {f : Cycle → Cycle} {es : List Event}

theorem generation_eq (h : c.Moves a f es) (b : Cycle) : (f b).generation = b.generation := by
  cases h <;> rfl

theorem snapshot_eq (h : c.Moves a f es) (b : Cycle) : (f b).snapshot = b.snapshot := by
  cases h <;> rfl

theorem cancelled_eq (h : c.Moves a f es) (b : Cycle) : (f b).cancelled = b.cancelled := by
  cases h <;> rfl

/-- A cycle tells its own events. -/
theorem generation_of_mem (h : c.Moves a f es) {e : Event} (he : e ∈ es) :
    e.generation = c.generation := by
  cases h <;> simp at he <;> rw [he] <;> rfl

/-- No cycle goes back to the start. -/
theorem stage_ne_waiting (h : c.Moves a f es) (hs : (f c).stage = .waiting) :
    c.stage = .waiting ∧ f c = c.endSpinner := by
  cases h with
  | sends _ => cases hs
  | compiled _ => cases hs
  | fails _ => cases hs
  | parsed _ => cases hs
  | spins _ => exact ⟨hs, rfl⟩
  | stops _ => exact ⟨hs, rfl⟩

theorem isEdit_eq (h : c.Moves a f es) : a.isEdit = false := by
  cases h <;> rfl

theorem length_le_one (h : c.Moves a f es) : es.length ≤ 1 := by
  cases h <;> simp

end Cycle.Moves

namespace Desk

/-- The notice of a step, if it handles an event. -/
def notice? (d : Desk) : Action → Option Notice
  | .next => d.next?.map Prod.fst
  | _ => none

/-- The notices of some steps, oldest first. -/
def notices (d : Desk) : List Action → List Notice
  | [] => []
  | a :: as => (d.notice? a).toList ++ (d.act a).notices as

/-- The desk when the cycle of a generation has moved on and told some events. -/
def moved (d : Desk) (g : Nat) (f : Cycle → Cycle) (es : List Event) : Desk :=
  { d with queue := d.queue ++ es, cycles := (d.change g f).cycles }

theorem moved_nil (d : Desk) (g : Nat) (f : Cycle → Cycle) : d.moved g f [] = d.change g f := by
  simp [moved, change]

/-- The desk with the oldest event taken out, and `es` left. -/
def left (d : Desk) (es : List Event) : Desk := { d with queue := es }

@[simp] theorem left_phases (d : Desk) (es : List Event) : (d.left es).phases = d.phases := rfl

@[simp] theorem left_current (d : Desk) (es : List Event) : (d.left es).current = d.current := rfl

@[simp] theorem left_state (d : Desk) (es : List Event) : (d.left es).state = d.state := rfl

/-- The desk when the outcome of the current cycle is shown. -/
def showing (d : Desk) (g : Nat) (result : Except PlaygroundError CompileOutcome) : Desk :=
  { d with
    phases := (d.enter .rendered (renderingOf d.state result).status.name).phases
    current := none
    cycles := (d.change g Cycle.stopSpinner).cycles
    view := d.view ++ [.render (renderingOf d.state result)]
    rendering := some (renderingOf d.state result) }

/-- All that a step can make of a desk. -/
inductive Steps (d : Desk) : Action → Option Notice → Desk → Prop where
  /-- The user changes the state. -/
  | edit (e : Edit) : Steps d (.edit e) none (d.edit e)
  /-- Changes are stored, or not any more. -/
  | persist (on : Bool) : Steps d (.persist on) none { d with persists := on }
  /-- Time passes. -/
  | wait (ms : Nat) : Steps d (.wait ms) none { d with now := d.now + ms }
  /-- No cycle waits for this, and no event is there. -/
  | idle {a : Action} : a.isEdit = false → (a = .next → d.queue = []) → Steps d a none d
  /-- A cycle moves on. -/
  | move {c : Cycle} {a : Action} {f : Cycle → Cycle} {es : List Event} :
      d.cycle? c.generation = some c → c.Moves a f es →
      Steps d a none (d.moved c.generation f es)
  /-- The event of a cycle that is not the current one. -/
  | stale {e : Event} {es : List Event} : d.queue = e :: es → d.current ≠ some e.generation →
      Steps d .next (some (.stale e.generation)) (d.left es)
  /-- The spinner of the current cycle, outside the phase `compiling`. -/
  | early {g : Nat} {es : List Event} : d.queue = .stillCompiling g :: es →
      d.current = some g → d.phases.current ≠ .compiling →
      Steps d .next (some (.stale g)) (d.left es)
  /-- The request of the current cycle is on its way. -/
  | sent {g : Nat} {es : List Event} : d.queue = .started g :: es → d.current = some g →
      Steps d .next (some (.requestSent g)) ((d.left es).enter .compiling "debounce elapsed")
  /-- The current cycle takes long. -/
  | showed {g : Nat} {es : List Event} : d.queue = .stillCompiling g :: es →
      d.current = some g → d.phases.current = .compiling →
      Steps d .next (some (.showedCompiling g)) ((d.left es).tell .compiling)
  /-- The current cycle is through. -/
  | rendered {g : Nat} {result : Except PlaygroundError CompileOutcome} {es : List Event} :
      d.queue = .finished g result :: es → d.current = some g →
      Steps d .next (some (.rendered g (renderingOf d.state result).status))
        ((d.left es).showing g result)

/-! ## Handling an event -/

theorem handle_of_ne {d : Desk} {e : Event} (h : d.current ≠ some e.generation) :
    d.handle e = (.stale e.generation, d) :=
  if_pos h

theorem handle_started {d : Desk} {g : Nat} (h : d.current = some g) :
    d.handle (.started g) = (.requestSent g, d.enter .compiling "debounce elapsed") := by
  simp [handle, Event.generation, h]

theorem handle_stillCompiling {d : Desk} {g : Nat} (h : d.current = some g) :
    d.handle (.stillCompiling g) =
      if d.phases.current = .compiling then (.showedCompiling g, d.tell .compiling)
      else (.stale g, d) := by
  simp [handle, Event.generation, h]

theorem handle_finished {d : Desk} {g : Nat} (h : d.current = some g)
    (result : Except PlaygroundError CompileOutcome) :
    d.handle (.finished g result) =
      (.rendered g (renderingOf d.state result).status, d.showing g result) := by
  have hphases : ∀ (target : Phase) (reason : String),
      ({ d.change g Cycle.stopSpinner with current := none }.enter target reason).phases =
        (d.enter target reason).phases := by
    intro target reason
    simp only [enter, change]
    split <;> rfl
  simp only [handle, Event.generation, h, ne_eq, not_true_eq_false, if_false, showing]
  rw [enter_eq, hphases]
  rfl

theorem steps_next (d : Desk) : Steps d .next (d.notice? .next) (d.act .next) := by
  simp only [notice?, act, next?]
  cases hq : d.queue with
  | nil => exact .idle rfl fun _ => hq
  | cons e es =>
    change Steps d .next (some ((d.left es).handle e).1) ((d.left es).handle e).2
    by_cases hcur : d.current = some e.generation
    case neg =>
      rw [handle_of_ne (d := d.left es) hcur]
      exact .stale hq hcur
    case pos =>
      cases e with
      | started g =>
        rw [handle_started (d := d.left es) (g := g) hcur]
        exact .sent hq hcur
      | stillCompiling g =>
        rw [handle_stillCompiling (d := d.left es) (g := g) hcur]
        split
        case isTrue hphase => exact .showed hq hcur hphase
        case isFalse hphase => exact .early hq hcur hphase
      | finished g result =>
        rw [handle_finished (d := d.left es) (g := g) hcur]
        exact .rendered hq hcur

/-! ## Steps -/

/-- Every step is one of these. -/
theorem steps_act (d : Desk) (a : Action) : Steps d a (d.notice? a) (d.act a) := by
  cases a with
  | edit e => exact .edit e
  | persist on => exact .persist on
  | wait ms => exact .wait ms
  | next => exact steps_next d
  | debounceElapsed g =>
    simp only [notice?, act, debounceElapsed]
    cases hc : d.cycle? g with
    | none => exact .idle rfl nofun
    | some c =>
      obtain ⟨-, rfl⟩ := cycle?_eq_some hc
      simp only
      split
      case isTrue hs => exact .move hc (.sends hs)
      case isFalse => exact .idle rfl nofun
  | compiled g answer =>
    simp only [notice?, act, compiled]
    cases hc : d.cycle? g with
    | none => exact .idle rfl nofun
    | some c =>
      obtain ⟨-, rfl⟩ := cycle?_eq_some hc
      simp only
      split
      case isTrue hs =>
        cases answer with
        | error e => exact .move hc (.fails hs)
        | ok o =>
          simp only [← moved_nil]
          exact .move hc (.compiled hs)
      case isFalse => exact .idle rfl nofun
  | parsed g answer =>
    simp only [notice?, act, parsed]
    cases hc : d.cycle? g with
    | none => exact .idle rfl nofun
    | some c =>
      obtain ⟨-, rfl⟩ := cycle?_eq_some hc
      simp only
      cases hs : c.stage with
      | parsing o => exact .move hc (.parsed hs)
      | waiting => exact .idle rfl nofun
      | compiling => exact .idle rfl nofun
      | finished => exact .idle rfl nofun
  | spinnerElapsed g =>
    simp only [notice?, act, spinnerElapsed]
    cases hc : d.cycle? g with
    | none => exact .idle rfl nofun
    | some c =>
      obtain ⟨-, rfl⟩ := cycle?_eq_some hc
      simp only
      split
      case isTrue => exact .idle rfl nofun
      case isFalse hs => exact .move hc (.spins hs)
  | spinnerStopped g =>
    simp only [notice?, act, spinnerStopped]
    cases hc : d.cycle? g with
    | none => exact .idle rfl nofun
    | some c =>
      obtain ⟨-, rfl⟩ := cycle?_eq_some hc
      simp only
      split
      case isTrue hs =>
        rw [← moved_nil]
        exact .move hc (.stops hs)
      case isFalse => exact .idle rfl nofun

end Desk

end Playground
