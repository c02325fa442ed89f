import Playground.Diagnostics.Marker
import Playground.Json.Printer
import Playground.Json.Reader
import Playground.Json.Shape
import Playground.Phase
import Playground.State

/-!
# Wire forms

How the values that leave the playground are written as JSON, and how they are
read back.  Each type has a `toJson` and an `ofJson?`.  Records are written with
their fields in the declared order.  `LineOffset` is a pair, `Record` carries its
kind as a tag, and `Transition` leaves out a missing reason.
-/

namespace Playground

open Json

/-! ## Line offsets -/

/-- The pair of an offset. -/
def LineOffset.toJson (o : LineOffset) : Json := .array [.ofNat o.headerLines, .ofNat o.includeLine]

/-- The offset of a pair. -/
def LineOffset.ofJson? : Json → Option LineOffset
  | .array [h, i] => do return ⟨← h.asWord?, ← i.asWord?⟩
  | _ => none

/-! ## Records and entries -/

/-- The tagged object of a record. -/
def Record.toJson : Record → Json
  | .program message stderr =>
    .ofMembers [("kind", .text "program"), ("message", .text message), ("stderr", .bool stderr)]
  | .compiler message => .ofMembers [("kind", .text "compiler"), ("message", .text message)]

/-- The record of a tagged value. -/
def Record.ofJson? (v : Json) : Option Record := do
  let (kind, v) ← tagged? "kind" v
  if kind = "program" then
    match ← fields? ["message", "stderr"] v with
    | [some message, some stderr] => return .program (← message.asText?) (← stderr.asBool?)
    | _ => none
  else if kind = "compiler" then
    match ← fields? ["message"] v with
    | [some message] => return .compiler (← message.asText?)
    | _ => none
  else none

/-- The object of an entry. -/
def Entry.toJson (e : Entry) : Json :=
  .ofMembers [("message", .text e.message), ("is_error_output", .bool e.isErrorOutput),
    ("is_compiler_output", .bool e.isCompilerOutput)]

/-- The entry of a value. -/
def Entry.ofJson? (v : Json) : Option Entry := do
  match ← fields? ["message", "is_error_output", "is_compiler_output"] v with
  | [some message, some isError, some isCompiler] =>
    return ⟨← message.asText?, ← isError.asBool?, ← isCompiler.asBool?⟩
  | _ => none

/-! ## Severities and markers -/

/-- The name of a severity. -/
def Severity.toJson (s : Severity) : Json := .text s.name

/-- The severity of a name. -/
def Severity.ofJson? (v : Json) : Option Severity := do
  let name ← v.asName?
  [Severity.warning, .error].find? (·.name = name)

/-- The object of a marker. -/
def Marker.toJson (m : Marker) : Json :=
  .ofMembers [("line", .ofNat m.line), ("start_col", .ofNat m.startCol),
    ("end_col", .ofNat m.endCol), ("severity", m.severity.toJson), ("source", .text m.source),
    ("message", .text m.message)]

/-- The marker of a value. -/
def Marker.ofJson? (v : Json) : Option Marker := do
  match ← fields? ["line", "start_col", "end_col", "severity", "source", "message"] v with
  | [some line, some startCol, some endCol, some severity, some source, some message] =>
    return ⟨← line.asWord?, ← startCol.asWord?, ← endCol.asWord?, ← Severity.ofJson? severity,
      ← source.asText?, ← message.asText?⟩
  | _ => none

/-! ## Phases and transitions -/

/-- The stored name of a phase. -/
def Phase.toJson (p : Phase) : Json := .text p.key

/-- The phase of a stored name. -/
def Phase.ofJson? (v : Json) : Option Phase := v.asName?.bind Phase.ofKey?

/-- The object of a transition. -/
def Transition.toJson (t : Transition) : Json :=
  .ofMembers ([("from", t.source.toJson), ("to", t.target.toJson),
    ("generation", .ofNat t.generation), ("elapsed_ms", .ofNat t.elapsedMs)]
    ++ t.reason.toList.map fun r => ("reason", .text r))

/-- The transition of a value. -/
def Transition.ofJson? (v : Json) : Option Transition := do
  match ← fields? ["from", "to", "generation", "elapsed_ms", "reason"] v with
  | [some source, some target, some generation, some elapsed, reason] =>
    return ⟨← Phase.ofJson? source, ← Phase.ofJson? target, ← generation.asWord?,
      ← elapsed.asWord?, ← (reason.getD .null).asOption? asText?⟩
  | _ => none

/-! ## States -/

/-- The object of a state. -/
def State.toJson (s : State) : Json :=
  .ofMembers [("code", .text s.code), ("compiler", .text s.compiler),
    ("compiler_flags", .text s.compilerFlags), ("show_compiler_log", .bool s.showCompilerLog)]

/-- The state of a value. -/
def State.ofJson? (v : Json) : Option State := do
  match ← fields? State.keys v with
  | [some code, some compiler, some flags, some log] =>
    return ⟨← code.asText?, ← compiler.asText?, ← flags.asText?, ← log.asBool?⟩
  | _ => none

end Playground
