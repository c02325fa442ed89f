import Playground.Desk

/-!
# Timelines

A desk on a clock of its own.  Time moves only while one waits.  A wait starts the
debounce timer of a cycle that is new, and then lets the timers go off in the order
in which they are due, each of which is a step of the desk.

* `sleep` waits for some time, and events pile up.
* `next` handles an event that is there already without waiting.  Else it waits for
  one, up to some time.
* `settle` handles events until the current cycle has rendered.

A spinner that is told to stop just when it has run for long enough does not tell its
event here.

A service may never answer a request.  So it is if the task that asks fails, since its cycle
is lost then.  No timer is set for such an answer.

A timer that goes off may set others, but later ones of the cycle: debounce, compile
answer, parse answer.  `weight` counts how many can still go off, and bounds the
loops.
-/

namespace Playground

/-- An answer and the time it takes, in milliseconds. -/
structure Delayed (α : Type) where
  /-- The time. -/
  delay : Nat
  /-- The answer. -/
  answer : α

/-- The services that a desk asks.  There is nothing for a request that is never answered. -/
structure Services where
  /-- The compile service. -/
  compile : CompileRequest → Option (Delayed (Except PlaygroundError CompileOutput))
  /-- The parse service. -/
  parse : ParseRequest → Option (Delayed (Except PlaygroundError (List Entry)))

/-- How long a desk waits, in milliseconds. -/
structure Timing where
  /-- For the edits to stop. -/
  debounce : Nat
  /-- For an answer, before the loading indicator is shown. -/
  spinner : Nat
deriving DecidableEq, Repr

/-- What happens when a timer goes off. -/
inductive Alarm where
  /-- The edits have stopped. -/
  | debounce (generation : Nat)
  /-- The compile service answers. -/
  | compiled (generation : Nat) (answer : Except PlaygroundError CompileOutput)
  /-- The parse service answers. -/
  | parsed (generation : Nat) (answer : Except PlaygroundError (List Entry))
  /-- The spinner has run for long enough. -/
  | spinner (generation : Nat)

/-- A timer. -/
structure Timer where
  /-- The time at which it goes off. -/
  due : Nat
  /-- What happens then. -/
  alarm : Alarm

/-- A desk, the timers, and what the services have been asked. -/
structure Timeline where
  /-- The desk. -/
  desk : Desk
  /-- The timers. -/
  timers : List Timer
  /-- The requests to the compile service, with the times at which they were sent. -/
  requests : List (Nat × CompileRequest)
  /-- The requests to the parse service. -/
  logs : List ParseRequest

namespace Alarm

/-- The timer still matters: its cycle has not been cancelled or stopped. -/
def isLive (d : Desk) : Alarm → Bool
  | .debounce g => ((d.cycle? g).map fun c => decide (c.stage = .waiting)).getD false
  | .spinner g => ((d.cycle? g).map fun c => decide (c.spinner = .running)).getD false
  | .compiled _ _ | .parsed _ _ => true

/-- How often timers can go off after this one, with itself. -/
def weight : Alarm → Nat
  | .debounce _ => 4
  | .compiled _ _ => 2
  | .parsed _ _ => 1
  | .spinner _ => 1

/-- The alarm ends the wait of a cycle for the edits to stop. -/
def isDebounceOf (g : Nat) : Alarm → Bool
  | .debounce h => g = h
  | _ => false

end Alarm

namespace Timeline

/-- The desk at the start of its clock. -/
def start (d : Desk) : Timeline := ⟨d, [], [], []⟩

/-- How often timers can still go off. -/
def weight (t : Timeline) : Nat := t.timers.foldr (fun x n => x.alarm.weight + n) 0

/-- The time. -/
def now (t : Timeline) : Nat := t.desk.now

/-- Changes the desk. -/
def on (t : Timeline) (f : Desk → Desk) : Timeline := { t with desk := f t.desk }

/-- Sets a timer. -/
def set (t : Timeline) (delay : Nat) (a : Alarm) : Timeline :=
  { t with timers := t.timers ++ [⟨t.now + delay, a⟩] }

/-! ## Timers that go off -/

/-- The compile service answers a cycle, which asks the parse service. -/
def compiled (sv : Services) (t : Timeline) (g : Nat)
    (answer : Except PlaygroundError CompileOutput) : Timeline :=
  let asks : Option ParseRequest := do
    let c ← t.desk.cycle? g
    let o ← answer.toOption
    return c.snapshot.parseRequest o.stderr
  let t := t.on (·.compiled g answer)
  match asks with
  | none => t
  | some r =>
    let t := { t with logs := t.logs ++ [r] }
    match sv.parse r with
    | none => t
    | some a =>
      if a.delay = 0 then t.on (·.parsed g a.answer) else t.set a.delay (.parsed g a.answer)

/-- A cycle sends its request. -/
def send (sv : Services) (timing : Timing) (t : Timeline) (g : Nat) : Timeline :=
  match t.desk.cycle? g with
  | none => t
  | some c =>
    let r := c.snapshot.compileRequest
    let t := (t.on (·.debounceElapsed g)).set timing.spinner (.spinner g)
    let t := { t with requests := t.requests ++ [(t.now, r)] }
    match sv.compile r with
    | none => t
    | some a =>
      if a.delay = 0 then t.compiled sv g a.answer else t.set a.delay (.compiled g a.answer)

/-- A timer goes off. -/
def fire (sv : Services) (timing : Timing) (t : Timeline) (x : Timer) : Timeline :=
  let t := t.on fun d => { d with now := x.due }
  match x.alarm with
  | .debounce g => t.send sv timing g
  | .compiled g answer => t.compiled sv g answer
  | .parsed g answer => t.on (·.parsed g answer)
  | .spinner g => t.on (·.spinnerElapsed g)

/-! ## Waiting -/

/-- Drops the timers that do not matter any more, with the spinners that have been told to
stop, and starts those of new cycles. -/
def begin (timing : Timing) (t : Timeline) : Timeline :=
  let timers := t.timers.filter fun x => x.alarm.isLive t.desk
  let new := t.desk.cycles.filter fun c => c.stage = .waiting &&
    !timers.any fun x => x.alarm.isDebounceOf c.generation
  { t with
    desk := t.desk.endStopped
    timers := timers ++ new.map fun c => ⟨t.now + timing.debounce, .debounce c.generation⟩ }

/-- The timer that goes off first, and the others. -/
def earliest? : List Timer → Option (Timer × List Timer)
  | [] => none
  | x :: xs =>
    match earliest? xs with
    | none => some (x, [])
    | some (y, ys) => if x.due ≤ y.due then some (x, xs) else some (y, x :: ys)

/-- Lets the first timer go off, if it is due by a time. -/
def fireBy? (sv : Services) (timing : Timing) (deadline : Nat) (t : Timeline) : Option Timeline :=
  match earliest? t.timers with
  | none => none
  | some (x, xs) => if x.due ≤ deadline then some ({ t with timers := xs }.fire sv timing x) else none

/-- Lets all timers go off that are due by a time. -/
def fireAll (sv : Services) (timing : Timing) (deadline : Nat) : Nat → Timeline → Timeline
  | 0, t => t
  | fuel + 1, t =>
    match t.fireBy? sv timing deadline with
    | some t => fireAll sv timing deadline fuel t
    | none => t

/-- Moves to a time. -/
def moveTo (sv : Services) (timing : Timing) (deadline : Nat) (t : Timeline) : Timeline :=
  (fireAll sv timing deadline t.weight t).on fun d => { d with now := deadline }

/-- Waits for some time. -/
def sleep (sv : Services) (timing : Timing) (ms : Nat) (t : Timeline) : Timeline :=
  if ms = 0 then t else (t.begin timing).moveTo sv timing (t.now + ms)

/-- The time at which the first timer goes off. -/
def firstDue? (t : Timeline) : Option Nat := (earliest? t.timers).map fun p => p.1.due

/-- Lets the first timer go off and all others that are due at the same time, if
that is by the deadline. -/
def fireFirst? (sv : Services) (timing : Timing) (deadline : Nat) (t : Timeline) :
    Option Timeline :=
  match t.firstDue? with
  | none => none
  | some due => if due ≤ deadline then some (fireAll sv timing due t.weight t) else none

/-- Waits until there is an event, up to a time. -/
def await (sv : Services) (timing : Timing) (deadline : Nat) : Nat → Timeline → Timeline
  | 0, t => t
  | fuel + 1, t =>
    if !t.desk.queue.isEmpty then t
    else
      match t.fireFirst? sv timing deadline with
      | some t => await sv timing deadline fuel t
      | none => t.on fun d => { d with now := deadline }

/-- Handles the oldest event, if there is one. -/
def handle? (t : Timeline) : Option (Notice × Timeline) :=
  t.desk.next?.map fun p => (p.1, { t with desk := p.2 })

/-- Handles the next event, and waits for it up to some time. -/
def next (sv : Services) (timing : Timing) (ms : Nat) (t : Timeline) : Option Notice × Timeline :=
  let t :=
    if t.desk.queue.isEmpty && ms ≠ 0 then
      let b := t.begin timing
      b.await sv timing (t.now + ms) (b.weight + 1)
    else t
  match t.handle? with
  | some (n, t) => (some n, t)
  | none => (none, t)

/-- Handles events until the phase is `rendered`. -/
def settleWith (sv : Services) (timing : Timing) : Nat → Timeline → Timeline
  | 0, t => t
  | fuel + 1, t =>
    if t.desk.phases.current = .rendered then t
    else
      match t.handle? with
      | some (_, t) => settleWith sv timing fuel t
      | none =>
        let b := t.begin timing
        match b.firstDue? with
        | none => b
        | some due => settleWith sv timing fuel (fireAll sv timing due b.weight b)

/-- Handles events until the current cycle has rendered. -/
def settle (sv : Services) (timing : Timing) (t : Timeline) : Timeline :=
  settleWith sv timing (t.desk.queue.length + 4 * (t.begin timing).weight + 1) t

end Timeline

end Playground
