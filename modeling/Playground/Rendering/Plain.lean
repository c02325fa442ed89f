import Playground.Rendering
import Playground.State

/-!
# Plain text

A rendering as text: the entries line by line, one line per marker and the status
in brackets.  A screen is what a view has been told to show, and `transcript` is
what a terminal prints for it.
-/

namespace Playground

/-- What a view is told. -/
inductive ViewCall where
  /-- Stale output gives way to the loading indicator. -/
  | compiling
  /-- Show a rendering. -/
  | render (r : Rendering)
  /-- The input widgets follow the state after a reset or a load. -/
  | sync (s : State)
deriving DecidableEq, Repr

/-- What is shown while a slow compile runs. -/
def loadingText : String := "<Compiling...>"

/-- The line of a marker, as in `--> 3:5-14 error: 'x' was not declared`. -/
def Marker.plain (m : Marker) : String :=
  "--> " ++ toString m.line ++ ":" ++ toString m.startCol ++ "-" ++ toString m.endCol ++ " "
    ++ m.severity.name ++ ": " ++ m.message

/-- The text of an entry, ended by a newline. -/
def Entry.plain (e : Entry) : String :=
  if e.message.toList.getLast? = some '\n' then e.message else e.message ++ "\n"

/-- The text of a rendering. -/
def Rendering.plain (r : Rendering) (showMarkers : Bool) : String :=
  String.join (r.entries.map Entry.plain)
    ++ (if showMarkers then String.join (r.markers.map fun m => m.plain ++ "\n") else "")
    ++ "[" ++ r.status.name ++ "]\n"

/-- What a terminal prints when a view is told something. -/
def ViewCall.plain (showMarkers : Bool) : ViewCall → String
  | .compiling => loadingText ++ "\n"
  | .render r => r.plain showMarkers
  | .sync _ => ""

/-- Everything a terminal has printed. -/
def transcript (showMarkers : Bool) (calls : List ViewCall) : String :=
  String.join (calls.map (ViewCall.plain showMarkers))

end Playground
