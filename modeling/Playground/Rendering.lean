import Playground.Diagnostics.Marker
import Playground.Error

/-!
# Renderings

What is shown after a compile: the entries of the output, the markers of the code
and the status.  A cycle that failed shows the text of its error as a single line
on the error stream.
-/

namespace Playground

/-- The outcome of the last compile. -/
inductive Status where
  /-- It compiled without compiler output. -/
  | ok
  /-- It compiled, and the compiler had something to say. -/
  | warning
  /-- The compiler or a service failed. -/
  | failed
deriving DecidableEq, Repr, Inhabited

namespace Status

/-- The status of a compile by its success and whether compiler output is shown. -/
def ofOutcome (succeeded hasCompilerOutput : Bool) : Status :=
  if !succeeded then .failed else if hasCompilerOutput then .warning else .ok

/-- The name of a status. -/
def name : Status → String
  | .ok => "ok"
  | .warning => "warning"
  | .failed => "failed"

/-- The colour of the indicator: green for a clean compile, orange otherwise. -/
def colour : Status → String
  | .ok => "rgb(18, 187, 18)"
  | .warning | .failed => "rgb(255, 101, 0)"

end Status

/-- Everything shown after a compile. -/
structure Rendering where
  /-- The output. -/
  entries : List Entry
  /-- The annotations of the code. -/
  markers : List Marker
  /-- The outcome. -/
  status : Status
deriving DecidableEq, Repr, Inhabited

namespace Rendering

/-- The rendering of parsed entries, with the markers anchored in `code`. -/
def ofEntries (succeeded : Bool) (entries : List Entry) (code : String) : Rendering where
  entries
  markers := Playground.markers (.ofText code) entries
  status := .ofOutcome succeeded (entries.any (·.isCompilerOutput))

/-- The rendering of a failed cycle. -/
def failed (e : PlaygroundError) : Rendering where
  entries := [.program e.message true]
  markers := []
  status := .failed

end Rendering

end Playground
