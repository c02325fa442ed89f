import Playground.State

/-!
# Edits

What the user can do to the state.  Each edit has a reason that the log of phases
shows.  A reset and a load change the state behind the back of the input widgets, so
these have to follow.
-/

namespace Playground

/-- A change of the state. -/
inductive Edit where
  /-- The program is edited. -/
  | code (text : String)
  /-- Another compiler is chosen. -/
  | compiler (id : String)
  /-- The flags are edited. -/
  | flags (text : String)
  /-- The log of the compiler is shown or hidden. -/
  | showLog (shown : Bool)
  /-- Everything is as at the start. -/
  | reset
  /-- Stored or shared fields are loaded. -/
  | load (fields : Fields)
deriving DecidableEq, Repr

namespace Edit

/-- The state after an edit. -/
def apply (e : Edit) (s : State) : State :=
  match e with
  | .code text => { s with code := text }
  | .compiler id => { s with compiler := id }
  | .flags text => { s with compilerFlags := text }
  | .showLog shown => { s with showCompilerLog := shown }
  | .reset => .initial
  | .load fields => s.apply fields

/-- Why a compile is due after an edit. -/
def reason : Edit → String
  | .code _ => "code edited"
  | .compiler _ => "compiler changed"
  | .flags _ => "compiler flags changed"
  | .showLog _ => "compiler log toggled"
  | .reset => "reset"
  | .load _ => "state loaded"

/-- The input widgets have to follow the state. -/
def syncs : Edit → Bool
  | .reset | .load _ => true
  | _ => false

end Edit

end Playground
