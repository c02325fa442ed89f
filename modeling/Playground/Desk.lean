import Playground.Desk.Cycle
import Playground.Desk.Edit
import Playground.Phase
import Playground.Rendering.Plain
import Playground.Session
import Playground.Storage

/-!
# The desk

All that a session has on the screen and under way: the state, its phase, the
rendering, the store, the cycles and the events they have told.

An edit takes the place of the current cycle and starts a new one.  A cycle goes on
by itself, one action at a time, and its events wait in a queue until they are
handled in order.  An event of a cycle that is not the current one changes nothing.

* started: the phase is `compiling` now.
* still compiling: if the phase is `compiling`, the loading indicator is shown.
* finished: the rendering is shown, its status is the reason of the phase `rendered`,
  and there is no current cycle any more.
-/

namespace Playground

/-- All that a session has on the screen and under way. -/
structure Desk where
  /-- The state. -/
  state : State
  /-- The phase. -/
  phases : PhaseLog
  /-- The generation of the current cycle. -/
  current : Option Nat
  /-- The cycles that may still do something, newest first. -/
  cycles : List Cycle
  /-- The events that have been told and not been handled, oldest first. -/
  queue : List Event
  /-- What is on the screen. -/
  rendering : Option Rendering
  /-- What the view has been told, oldest first. -/
  view : List ViewCall
  /-- Where the state is kept. -/
  store : Store
  /-- Every change is stored. -/
  persists : Bool
  /-- The time, in milliseconds. -/
  now : Nat

/-- What handling an event has done. -/
inductive Notice where
  /-- The request of a cycle is on its way. -/
  | requestSent (generation : Nat)
  /-- The loading indicator is shown. -/
  | showedCompiling (generation : Nat)
  /-- A rendering is shown. -/
  | rendered (generation : Nat) (status : Status)
  /-- The cycle is not the current one. -/
  | stale (generation : Nat)
deriving DecidableEq, Repr

namespace Desk

/-! ## Edits -/

/-- Enters a phase.  A transition that may not happen is left out. -/
def enter (d : Desk) (target : Phase) (reason : String) : Desk :=
  match d.phases.advance d.now target (some reason) with
  | .ok phases => { d with phases }
  | .error _ => d

/-- Tells the view something. -/
def tell (d : Desk) (call : ViewCall) : Desk := { d with view := d.view ++ [call] }

/-- Changes the cycle of a generation, and drops the cycles that are over. -/
def change (d : Desk) (g : Nat) (f : Cycle → Cycle) : Desk :=
  { d with cycles := (d.cycles.map fun c => if c.generation = g then f c else c).filter Cycle.isLive }

/-- The current cycle is cancelled, if there is one. -/
def supersede (d : Desk) : Desk :=
  match d.current with
  | some g => { d.change g Cycle.cancel with current := none }
  | none => d

/-- Starts a new cycle. -/
def schedule (d : Desk) (reason : String) : Desk :=
  let d := d.supersede
  let d := { d with phases := d.phases.nextGeneration }.enter .pendingCompile reason
  let g := d.phases.generation
  { d with current := some g, cycles := .start g d.state :: d.cycles }

/-- Stores the state, if changes are stored. -/
def persist (d : Desk) : Desk :=
  if d.persists then { d with store := (d.store.save d.state).1 } else d

/-- Changes the state. -/
def edit (d : Desk) (e : Edit) : Desk :=
  let d := { d with state := e.apply d.state }
  let d := if e.syncs then d.tell (.sync d.state) else d
  d.persist.schedule e.reason

/-- The desk with a store beside it that nothing is written to yet. -/
def blank (s : Store) : Desk :=
  ⟨.initial, .start, none, [], [], none, [], s, false, 0⟩

/-- A new desk, which compiles the state it starts with. -/
def start (s : Store) : Desk := ((blank s).tell (.sync .initial)).schedule "initial state"

/-- Begins a session from a link or the store. -/
def openSession (d : Desk) (url : Option String) : Desk :=
  let session := Session.start url d.store
  { d with persists := session.persists }.edit (.load session.fields)

/-! ## Cycles -/

/-- The cycle of a generation. -/
def cycle? (d : Desk) (g : Nat) : Option Cycle := d.cycles.find? (·.generation = g)

/-- Puts an event into the queue. -/
def push (d : Desk) (e : Event) : Desk := { d with queue := d.queue ++ [e] }

/-- The edits have stopped: a waiting cycle sends its request. -/
def debounceElapsed (d : Desk) (g : Nat) : Desk :=
  match d.cycle? g with
  | some c => if c.stage = .waiting then (d.push (.started g)).change g Cycle.send else d
  | none => d

/-- A cycle tells its outcome. -/
def finish (d : Desk) (g : Nat) (result : Except PlaygroundError CompileOutcome) : Desk :=
  (d.push (.finished g result)).change g Cycle.finish

/-- The compile service answers a cycle. -/
def compiled (d : Desk) (g : Nat) (answer : Except PlaygroundError CompileOutput) : Desk :=
  match d.cycle? g with
  | some c =>
    if c.stage = .compiling then
      match answer with
      | .error e => d.finish g (.error e)
      | .ok o => d.change g fun c => { c with stage := .parsing o }
    else d
  | none => d

/-- The parse service answers a cycle. -/
def parsed (d : Desk) (g : Nat) (answer : Except PlaygroundError (List Entry)) : Desk :=
  match d.cycle? g with
  | some c =>
    match c.stage with
    | .parsing o => d.finish g (answer.map fun entries => ⟨o.succeeded, entries⟩)
    | _ => d
  | none => d

/-- The spinner of a cycle has run for long enough. -/
def spinnerElapsed (d : Desk) (g : Nat) : Desk :=
  match d.cycle? g with
  | some c =>
    if c.spinner = .off then d else (d.push (.stillCompiling g)).change g Cycle.endSpinner
  | none => d

/-- The spinner of a cycle follows when it has been told to stop. -/
def spinnerStopped (d : Desk) (g : Nat) : Desk :=
  match d.cycle? g with
  | some c => if c.spinner = .stopped then d.change g Cycle.endSpinner else d
  | none => d

/-! ## Events -/

/-- The rendering of an outcome. -/
def renderingOf (s : State) : Except PlaygroundError CompileOutcome → Rendering
  | .ok o => .ofEntries o.succeeded o.entries s.code
  | .error e => .failed e

/-- Handles an event. -/
def handle (d : Desk) (e : Event) : Notice × Desk :=
  if d.current ≠ some e.generation then (.stale e.generation, d)
  else
    match e with
    | .started g => (.requestSent g, d.enter .compiling "debounce elapsed")
    | .stillCompiling g =>
      if d.phases.current = .compiling then (.showedCompiling g, d.tell .compiling)
      else (.stale g, d)
    | .finished g result =>
      let r := renderingOf d.state result
      let d := { d.change g Cycle.stopSpinner with current := none }
      let d := (d.enter .rendered r.status.name).tell (.render r)
      (.rendered g r.status, { d with rendering := some r })

/-- Handles the oldest event, if there is one. -/
def next? (d : Desk) : Option (Notice × Desk) :=
  match d.queue with
  | [] => none
  | e :: es => some ({ d with queue := es }.handle e)

/-! ## Runs -/

/-- A step of the desk. -/
inductive Action where
  /-- The user changes the state. -/
  | edit (e : Edit)
  /-- Changes are stored from now on, or not any more. -/
  | persist (on : Bool)
  /-- The edits have stopped. -/
  | debounceElapsed (generation : Nat)
  /-- The compile service answers. -/
  | compiled (generation : Nat) (answer : Except PlaygroundError CompileOutput)
  /-- The parse service answers. -/
  | parsed (generation : Nat) (answer : Except PlaygroundError (List Entry))
  /-- The spinner has run for long enough. -/
  | spinnerElapsed (generation : Nat)
  /-- The spinner has been told to stop. -/
  | spinnerStopped (generation : Nat)
  /-- The oldest event is handled. -/
  | next
  /-- Time passes. -/
  | wait (ms : Nat)

/-- The desk after a step. -/
def act (d : Desk) : Action → Desk
  | .edit e => d.edit e
  | .persist on => { d with persists := on }
  | .debounceElapsed g => d.debounceElapsed g
  | .compiled g answer => d.compiled g answer
  | .parsed g answer => d.parsed g answer
  | .spinnerElapsed g => d.spinnerElapsed g
  | .spinnerStopped g => d.spinnerStopped g
  | .next => (d.next?.map Prod.snd).getD d
  | .wait ms => { d with now := d.now + ms }

/-- The desk after some steps. -/
def run (d : Desk) (as : List Action) : Desk := as.foldl act d

/-- The desk when the spinners that have been told to stop are over. -/
def endStopped (d : Desk) : Desk :=
  d.run ((d.cycles.filter fun c => c.spinner = .stopped).map fun c => .spinnerStopped c.generation)

end Desk

end Playground
