/-!
# Phases

The phases of a playground and the transitions between them.  An edit leads back
to `pendingCompile` from everywhere, so no phase is final.  The log keeps the most
recent transitions, and counts all of them.

    idle             pendingCompile
    pendingCompile   pendingCompile, compiling
    compiling        pendingCompile, rendered
    rendered         pendingCompile
-/

namespace Playground

/-- What a playground is doing. -/
inductive Phase where
  /-- It has not started yet. -/
  | idle
  /-- It waits for the edits to stop. -/
  | pendingCompile
  /-- A request is under way. -/
  | compiling
  /-- The output of the latest cycle is shown. -/
  | rendered
deriving DecidableEq, Repr, Inhabited

namespace Phase

/-- The name of a phase. -/
def name : Phase → String
  | .idle => "Idle"
  | .pendingCompile => "PendingCompile"
  | .compiling => "Compiling"
  | .rendered => "Rendered"

/-- The name under which a phase is stored. -/
def key : Phase → String
  | .idle => "idle"
  | .pendingCompile => "pending_compile"
  | .compiling => "compiling"
  | .rendered => "rendered"

/-- The phase with a stored name. -/
def ofKey? (key : String) : Option Phase :=
  [idle, pendingCompile, compiling, rendered].find? (·.key = key)

/-- A transition that may happen. -/
def allows (source target : Phase) : Bool :=
  match source, target with
  | _, .pendingCompile => true
  | .pendingCompile, .compiling => true
  | .compiling, .rendered => true
  | _, _ => false

end Phase

/-- A transition that has happened. -/
structure Transition where
  /-- The phase that was left. -/
  source : Phase
  /-- The phase that was entered. -/
  target : Phase
  /-- The compile cycle it belongs to. -/
  generation : Nat
  /-- Milliseconds since the start. -/
  elapsedMs : Nat
  /-- Why it happened. -/
  reason : Option String
deriving DecidableEq, Repr, Inhabited

/-- A transition that may not happen. -/
structure IllegalTransition where
  /-- The current phase. -/
  source : Phase
  /-- The phase asked for. -/
  target : Phase
deriving DecidableEq, Repr

/-- The text shown for a transition that may not happen. -/
def IllegalTransition.message (e : IllegalTransition) : String :=
  "Illegal phase transition: " ++ e.source.name ++ " → " ++ e.target.name

/-- The current phase and the most recent transitions. -/
structure PhaseLog where
  /-- The current phase. -/
  current : Phase
  /-- The number of compile cycles opened so far. -/
  generation : Nat
  /-- The transitions kept, oldest first. -/
  kept : List Transition
  /-- The number of transitions that have happened. -/
  total : Nat
deriving DecidableEq, Repr

namespace PhaseLog

/-- The number of transitions kept. -/
def capacity : Nat := 64

/-- The log of a playground that has not started. -/
def start : PhaseLog := ⟨.idle, 0, [], 0⟩

instance : Inhabited PhaseLog := ⟨start⟩

/-- Opens a new compile cycle. -/
def nextGeneration (l : PhaseLog) : PhaseLog := { l with generation := l.generation + 1 }

/-- The kept transitions with room for one more. -/
def makeRoom (kept : List Transition) : List Transition :=
  if kept.length = capacity then kept.drop 1 else kept

/-- Enters a phase at a time, if the transition may happen. -/
def advance (l : PhaseLog) (elapsedMs : Nat) (target : Phase) (reason : Option String) :
    Except IllegalTransition PhaseLog :=
  if l.current.allows target then
    .ok {
      current := target
      generation := l.generation
      kept := makeRoom l.kept ++ [⟨l.current, target, l.generation, elapsedMs, reason⟩]
      total := l.total + 1 }
  else .error ⟨l.current, target⟩

/-- One line about everything that has happened. -/
def summary (l : PhaseLog) : String :=
  Phase.idle.name ++ " → " ++ l.current.name ++ " (" ++ toString l.total
    ++ " transitions, generation " ++ toString l.generation ++ ")"

end PhaseLog

end Playground
