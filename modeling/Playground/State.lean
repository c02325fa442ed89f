import Playground.State.Compiler
import Playground.State.Example
import Playground.State.Fields

/-!
# Playground states

Everything the user can change: the code, the compiler, its flags and whether its
log is shown.  A state is stored and shared as texts under the four `State.keys`.
`apply` writes the fields a map names and leaves the others.
-/

namespace Playground

/-- Everything the user can change. -/
structure State where
  /-- The program. -/
  code : String
  /-- The id of the compiler.  Ids that are not offered are passed on as they are. -/
  compiler : String
  /-- The flags of the compiler. -/
  compilerFlags : String
  /-- The log of the compiler is shown. -/
  showCompilerLog : Bool
deriving DecidableEq, Repr

namespace State

/-- The keys of the fields, in the order in which they are written. -/
def keys : List String := ["code", "compiler", "compiler_flags", "show_compiler_log"]

/-- The state of a new playground. -/
def initial : State where
  code := exampleProgram
  compiler := defaultCompiler
  compilerFlags := "-fpermissive -std=c++17"
  showCompilerLog := true

instance : Inhabited State := ⟨initial⟩

/-- The text of a flag. -/
def flagText (b : Bool) : String := if b then "true" else "false"

/-- The text of each field under its key, in order. -/
def toPairs (s : State) : List (String × String) :=
  [("code", s.code), ("compiler", s.compiler), ("compiler_flags", s.compilerFlags),
    ("show_compiler_log", flagText s.showCompilerLog)]

/-- The fields of a state as a map. -/
def toFields (s : State) : Fields := .ofList s.toPairs

/-- The state with the field of one key written.  The flag is on exactly for the
text `true`, and a key of no field changes nothing. -/
def set (s : State) (key value : String) : State :=
  if key = "code" then { s with code := value }
  else if key = "compiler" then { s with compiler := value }
  else if key = "compiler_flags" then { s with compilerFlags := value }
  else if key = "show_compiler_log" then { s with showCompilerLog := value = "true" }
  else s

/-- The state with every field written that the map names. -/
def apply (s : State) (m : Fields) : State := m.toList.foldl (fun s p => s.set p.1 p.2) s

/-- The compiler of the state is one that is offered. -/
def hasKnownCompiler (s : State) : Bool := (findCompiler? s.compiler).isSome

theorem map_fst_toPairs (s : State) : s.toPairs.map Prod.fst = keys := rfl

end State

end Playground
