import Playground.Share.Link
import Playground.Storage

/-!
# Sessions

Where the first state of a session comes from.  A link that carries fields wins
over the store.  Only what came from the store is written back to it.
-/

namespace Playground

/-- Where the first state of a session comes from. -/
inductive Origin where
  /-- A share link.  Changes are not stored. -/
  | shared
  /-- The store, which may be empty. -/
  | stored
deriving DecidableEq, Repr

/-- The name of an origin. -/
def Origin.name : Origin → String
  | .shared => "shared"
  | .stored => "stored"

/-- The start of a session. -/
structure Session where
  /-- Where it comes from. -/
  origin : Origin
  /-- The fields to load. -/
  fields : Fields
deriving DecidableEq, Repr

namespace Session

/-- The session of a link, if there is one, and a store. -/
def start (url : Option String) (s : Store) : Session :=
  match url.bind Share.fields? with
  | some fields => ⟨.shared, fields⟩
  | none => ⟨.stored, s.load⟩

/-- Changes are stored. -/
def persists (s : Session) : Bool := s.origin = .stored

end Session

end Playground
