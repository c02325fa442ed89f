import Playground.Diagnostics.Reference

/-!
# Diagnostic entries

A compile run yields records: output of compile-time print statements, and lines
of the compiler's own log.  `Record.entry?` turns one into an entry of the output.
Program output always survives, with its text as it is.  A compiler line survives
if the log is shown or if it is an error or a warning, and its line numbers are
corrected.

Entries are pulled from a source one by one.  A pull reads records up to and
including the one that gives the last entry asked for, and `Pulled.consumed`
counts them.  A line of a log becomes a record when it is read.
-/

namespace Playground

/-- A record of a compile run, before correction and filtering. -/
inductive Record where
  /-- Output of a compile-time print statement. -/
  | program (message : String) (stderr : Bool)
  /-- A line of the compiler's log. -/
  | compiler (message : String)
deriving DecidableEq, Repr

/-- One item of the output. -/
structure Entry where
  /-- The text. -/
  message : String
  /-- It goes to the error stream. -/
  isErrorOutput : Bool
  /-- It comes from the compiler and not from a print statement. -/
  isCompilerOutput : Bool
deriving DecidableEq, Repr, Inhabited

namespace Entry

/-- The entry of a compiler line, which is always error output. -/
def compiler (message : String) : Entry := ⟨message, true, true⟩

/-- The entry of program output. -/
def program (message : String) (stderr : Bool) : Entry := ⟨message, stderr, false⟩

end Entry

/-- The entry of a record, if it survives.  Without `verbose` only errors and
warnings of the compiler do. -/
def Record.entry? (o : LineOffset) (verbose : Bool) :
    Record → Except LineOffset.Failure (Option Entry)
  | .program message stderr => .ok (some (.program message stderr))
  | .compiler message =>
    if verbose || isErrorOrWarning message.toList then
      (correctLineNumbers o message.toList).map fun s => some (.compiler (String.ofList s))
    else .ok none

/-- The entries pulled from a source, and how many records that took. -/
structure Pulled where
  /-- The entries, in order. -/
  entries : List Entry
  /-- The records read. -/
  consumed : Nat
deriving DecidableEq, Repr

namespace Pulled

/-- Nothing pulled. -/
def nothing : Pulled := ⟨[], 0⟩

/-- One more record was read first, and gave this entry or none. -/
def after (e? : Option Entry) (p : Pulled) : Pulled := ⟨e?.toList ++ p.entries, p.consumed + 1⟩

end Pulled

/-- Pulls up to `n` entries from a source whose items become records as they are read. -/
def pullFrom {α : Type} (record : α → Record) (o : LineOffset) (verbose : Bool) :
    Nat → List α → Except LineOffset.Failure Pulled
  | 0, _ => .ok .nothing
  | _ + 1, [] => .ok .nothing
  | n + 1, a :: as => do
    match ← Record.entry? o verbose (record a) with
    | some e => return (← pullFrom record o verbose n as).after (some e)
    | none => return (← pullFrom record o verbose (n + 1) as).after none

/-- Pulls up to `n` entries from a list of records. -/
def pull (o : LineOffset) (verbose : Bool) (n : Nat) (rs : List Record) :
    Except LineOffset.Failure Pulled :=
  pullFrom id o verbose n rs

/-- Pulls up to `n` entries from the lines of a compiler log. -/
def pullLog (o : LineOffset) (verbose : Bool) (n : Nat) (lines : List String) :
    Except LineOffset.Failure Pulled :=
  pullFrom .compiler o verbose n lines

/-- Every entry of a list of records. -/
def parse (o : LineOffset) (verbose : Bool) (rs : List Record) :
    Except LineOffset.Failure (List Entry) :=
  (rs.mapM (Record.entry? o verbose)).map fun es => es.flatMap Option.toList

/-- Every entry of a compiler log. -/
def parseLog (o : LineOffset) (verbose : Bool) (lines : List String) :
    Except LineOffset.Failure (List Entry) :=
  parse o verbose (lines.map .compiler)

end Playground
