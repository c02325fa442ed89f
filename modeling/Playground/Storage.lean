import Playground.Files.Disk
import Playground.State

/-!
# Storage

Texts under keys, where a state is kept between sessions.  A store is a map in
memory or one file per key in a directory.  A faulty store is a map of which some
keys cannot be read or written.

`load` leaves out what is missing and what cannot be read.  `save` writes every
field of a state, counts the failures and goes on after each.
-/

namespace Playground

/-- Texts under keys. -/
inductive Store where
  /-- A map in memory. -/
  | memory (values : Fields)
  /-- A map of which some keys cannot be read or written. -/
  | faulty (values : Fields) (unreadable unwritable : List String)
  /-- A directory with one file per key. -/
  | files (directory : String) (disk : Files.Disk)
deriving DecidableEq, Repr

instance : Inhabited Store := ⟨.memory .empty⟩

namespace Store

/-- The text of a key, or nothing if it was never written. -/
def get (s : Store) (key : String) : Except PlaygroundError (Option String) :=
  match s with
  | .memory values => .ok (values.get? key)
  | .faulty values unreadable _ =>
    if key ∈ unreadable then .error (.storage (.other ("cannot read " ++ key)))
    else .ok (values.get? key)
  | .files directory disk =>
    match disk.readText (Files.childText directory key) with
    | .ok value => .ok (some value)
    | .error .notFound => .ok none
    | .error e => .error (.storage e)

/-- The store with the text of a key written, and the failure if there is one. -/
def set (s : Store) (key value : String) : Store × Except PlaygroundError Unit :=
  match s with
  | .memory values => (.memory (values.insert key value), .ok ())
  | .faulty values unreadable unwritable =>
    if key ∈ unwritable then (s, .error (.configuration ("cannot write " ++ key)))
    else (.faulty (values.insert key value) unreadable unwritable, .ok ())
  | .files directory disk =>
    match disk.makeDirectories directory with
    | (disk, .error e) => (.files directory disk, .error (.storage e))
    | (disk, .ok ()) =>
      match disk.writeText (Files.childText directory key) value with
      | .ok disk => (.files directory disk, .ok ())
      | .error e => (.files directory disk, .error (.storage e))

/-- The stored fields of a state that can be read. -/
def load (s : Store) : Fields :=
  .ofList (State.keys.filterMap fun key =>
    match s.get key with
    | .ok (some value) => some (key, value)
    | _ => none)

/-- Writes one pair, and counts a failure. -/
def saveStep (acc : Store × Nat) (p : String × String) : Store × Nat :=
  match acc.1.set p.1 p.2 with
  | (s, .ok ()) => (s, acc.2)
  | (s, .error _) => (s, acc.2 + 1)

/-- The store with the fields of a state written, and the number of failures. -/
def save (s : Store) (st : State) : Store × Nat := st.toPairs.foldl saveStep (s, 0)

end Store

end Playground
