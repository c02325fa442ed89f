import Playground.Header.Include
import Playground.Service.Compile
import Playground.Service.Parse
import Playground.State

/-!
# Compile cycles

A cycle compiles the state as it was at one edit.  It waits for the edits to stop,
asks the compile service and then the parse service, and tells what happened as
events.  A spinner runs beside the request.

    waiting      the edits may go on, and a cycle that is cancelled here ends
    compiling    the compile service has been asked
    parsing      the parse service has been asked
    finished     the outcome has been told

A spinner that is told to stop may have run for long enough at this very moment.  It
may tell its event then all the same, as long as it is not over.
-/

namespace Playground

/-- How far a cycle has come. -/
inductive Stage where
  /-- It waits for the edits to stop. -/
  | waiting
  /-- It waits for the compile service. -/
  | compiling
  /-- It waits for the parse service, with what the compile service has answered. -/
  | parsing (output : CompileOutput)
  /-- It has told its outcome. -/
  | finished
deriving DecidableEq, Repr

/-- What the spinner of a cycle does. -/
inductive Spinner where
  /-- It has not been started, or it is over. -/
  | off
  /-- It runs. -/
  | running
  /-- It has been told to stop. -/
  | stopped
deriving DecidableEq, Repr

/-- The spinner when it is told to stop. -/
def Spinner.stop : Spinner → Spinner
  | .running => .stopped
  | s => s

/-- A compile cycle. -/
structure Cycle where
  /-- Its number. -/
  generation : Nat
  /-- The state it compiles. -/
  snapshot : State
  /-- How far it has come. -/
  stage : Stage
  /-- A later edit has taken its place. -/
  cancelled : Bool
  /-- Its spinner. -/
  spinner : Spinner
deriving DecidableEq, Repr

/-- What a cycle that went through has found. -/
structure CompileOutcome where
  /-- The compile succeeded. -/
  succeeded : Bool
  /-- The output. -/
  entries : List Entry
deriving DecidableEq, Repr

/-- What a cycle tells. -/
inductive Event where
  /-- The edits have stopped, and the request is sent. -/
  | started (generation : Nat)
  /-- The request takes long. -/
  | stillCompiling (generation : Nat)
  /-- The cycle is through. -/
  | finished (generation : Nat) (result : Except PlaygroundError CompileOutcome)

/-- The cycle that tells an event. -/
def Event.generation : Event → Nat
  | .started g => g
  | .stillCompiling g => g
  | .finished g _ => g

namespace State

/-- What the compile service is asked for a state. -/
def compileRequest (s : State) : CompileRequest :=
  .of s.compiler s.compilerFlags (includeHeader s.code).2

/-- What the parse service is asked for a state with the lines of a log. -/
def parseRequest (s : State) (log : List String) : ParseRequest :=
  ⟨(includeHeader s.code).1, log, s.showCompilerLog⟩

end State

namespace Cycle

/-- A new cycle for a state. -/
def start (generation : Nat) (s : State) : Cycle := ⟨generation, s, .waiting, false, .off⟩

/-- The cycle may still do something. -/
def isLive (c : Cycle) : Bool :=
  match c.stage with
  | .waiting => !c.cancelled
  | .compiling | .parsing _ => true
  | .finished => c.spinner ≠ .off

/-- The cycle when a later edit takes its place. -/
def cancel (c : Cycle) : Cycle := { c with cancelled := true, spinner := c.spinner.stop }

/-- The cycle when its spinner is told to stop. -/
def stopSpinner (c : Cycle) : Cycle := { c with spinner := c.spinner.stop }

/-- The cycle when its spinner is over. -/
def endSpinner (c : Cycle) : Cycle := { c with spinner := .off }

/-- The cycle when its request is sent. -/
def send (c : Cycle) : Cycle :=
  { c with stage := .compiling, spinner := if c.cancelled then .stopped else .running }

/-- The cycle when its outcome is told. -/
def finish (c : Cycle) : Cycle := { c with stage := .finished }

end Cycle

end Playground
