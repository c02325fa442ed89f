/-!
# TOML values

A document is a table, and its lines build it up.  A table knows how it came about,
since that decides what may still be added to it.

* inline: written in braces.  Nothing can be added.
* header: named by a header of its own.  Its lines follow the header.
* implied: on the way to the table of a header.  It may get a header later.
* dotted: on the way of a key with dots.  Only such keys may add to it.

A key that is there already is never written again.  `Table.insert?` and
`Table.open?` say what the lines of a document do.
-/

namespace Playground

/-- How a table came about. -/
inductive Toml.Origin where
  | inline
  | header
  | implied
  | dotted
deriving DecidableEq, Repr

/-- A TOML value.  Floats and times are only known to be well formed. -/
inductive Toml where
  | string (s : String)
  | integer (n : Int)
  | float
  | time
  | boolean (b : Bool)
  | array (elements : List Toml)
  | table (origin : Toml.Origin) (members : List (String × Toml))
  /-- The tables of headers in double brackets, and the last of them. -/
  | tables (earlier : List (List (String × Toml))) (last : List (String × Toml))
deriving Repr, Inhabited

namespace Toml

/-- The members of a table. -/
abbrev Table := List (String × Toml)

namespace Table

/-- The value of a key. -/
def get? (t : Table) (key : String) : Option Toml := (t.find? (·.1 = key)).map Prod.snd

/-- The table with the value of a key. -/
def put (t : Table) (key : String) (v : Toml) : Table :=
  (t.filter fun m => !decide (m.1 = key)) ++ [(key, v)]

/-- Changes the table to which a path leads, which `f` gets with its origin.  Tables
that are missing are made: dotted ones on the way of a key, implied ones on the way of
a header. -/
def within? (byKey : Bool) (f : Origin → Table → Option Table) (origin : Origin) :
    List String → Table → Option Table
  | [], t => f origin t
  | k :: ks, t =>
    match t.get? k with
    | none =>
      let made : Origin := if byKey then .dotted else .implied
      (within? byKey f made ks []).map fun u => t.put k (.table made u)
    | some (.table found u) =>
      if found = .inline ∨ (byKey ∧ found = .header) then none
      else (within? byKey f found ks u).map fun u => t.put k (.table found u)
    | some (.tables earlier last) =>
      (within? byKey f .header ks last).map fun last => t.put k (.tables earlier last)
    | some _ => none

/-- The table with the value of a new key. -/
def add? (t : Table) (key : String) (v : Toml) : Option Table :=
  if (t.get? key).isSome then none else some (t.put key v)

/-- The table with a line that gives a dotted key a value.  All tables on the way of
the key have to be dotted. -/
def insert? (path : List String) (key : String) (v : Toml) (t : Table) : Option Table :=
  within? true (fun origin u =>
    if path ≠ [] ∧ origin ≠ .dotted then none else u.add? key v) .header path t

/-- The document with a line below a header. -/
def insertBelow? (header path : List String) (key : String) (v : Toml) (t : Table) :
    Option Table :=
  within? false (fun _ u => u.insert? path key v) .header header t

/-- The document with a header. -/
def open? (path : List String) (key : String) (t : Table) : Option Table :=
  within? false (fun _ u =>
    match u.get? key with
    | none => some (u.put key (.table .header []))
    | some (.table .implied members) => some (u.put key (.table .header members))
    | some _ => none) .header path t

/-- The document with a header in double brackets. -/
def append? (path : List String) (key : String) (t : Table) : Option Table :=
  within? false (fun _ u =>
    match u.get? key with
    | none => some (u.put key (.tables [] []))
    | some (.tables earlier last) => some (u.put key (.tables (earlier ++ [last]) []))
    | some _ => none) .header path t

end Table

/-- The text of a string. -/
def asString? : Toml → Option String
  | .string s => some s
  | _ => none

/-- The number of an integer that is not negative. -/
def asNat? : Toml → Option Nat
  | .integer n => if 0 ≤ n then some n.toNat else none
  | _ => none

end Toml

end Playground
