import Playground.Toml.Quoted
import Playground.Toml.Scalar
import Playground.Toml.Value

/-!
# Reading TOML

A document is read line by line: blank lines, comments, headers and keys with values.
Arrays may go over several lines and have comments in them, inline tables may not.
`read?` gives the table of a document that is well formed.

The counters of the readers start above the length of the input.  Each step takes a
character, so they never run out.
-/

namespace Playground.Toml

open Text

/-- The input without the blanks at its start. -/
def skipBlanks (s : List Char) : List Char := s.dropWhile fun c => c = ' ' || c = '\t'

/-- The input without a comment at its start.  A comment holds no controls. -/
def skipComment (s : List Char) : List Char :=
  match s with
  | '#' :: s => s.dropWhile isPrintable
  | s => s

/-- What follows the end of a line, with blanks and a comment before it. -/
def afterLine? (s : List Char) : Option (List Char) :=
  match skipComment (skipBlanks s) with
  | [] => some []
  | s => afterNewline? s

/-- The input without blanks, comments and line ends at its start. -/
def skipLines : Nat → List Char → List Char
  | 0, s => s
  | fuel + 1, s =>
    let s := skipComment (skipBlanks s)
    match afterNewline? s with
    | some s => skipLines fuel s
    | none => s

/-! ## Keys -/

/-- A character of a key without quotes. -/
def isKeyChar (c : Char) : Bool := c.isAlphanum || c = '_' || c = '-'

/-- Reads one part of a key. -/
def readKeyPart (s : List Char) : Option (String × List Char) :=
  match s with
  | '"' :: r => readLine '"' [] s.length r
  | '\'' :: r => readLine '\'' [] s.length r
  | s =>
    let key := s.takeWhile isKeyChar
    if key = [] then none else some (String.ofList key, s.dropWhile isKeyChar)

/-- Reads a key: the parts before the last one, and the last one. -/
def readKey : Nat → List Char → Option ((List String × String) × List Char)
  | 0, _ => none
  | fuel + 1, s => do
    let (part, s) ← readKeyPart (skipBlanks s)
    match skipBlanks s with
    | '.' :: s => (readKey fuel s).map fun p => ((part :: p.1.1, p.1.2), p.2)
    | s => some (([], part), s)

/-! ## Values -/

mutual

/-- Reads a value. -/
def readValue : Nat → List Char → Option (Toml × List Char)
  | 0, _ => none
  | fuel + 1, s =>
    match s with
    | [] => none
    | c :: r =>
      if c = '"' ∨ c = '\'' then (readQuoted c s).map fun p => (.string p.1, p.2)
      else if c = '[' then (readElements fuel [] r).map fun p => (.array p.1, p.2)
      else if c = '\x7b' then
        match skipBlanks r with
        | '\x7d' :: r => some (.table .inline [], r)
        | r => (readMembers fuel [] r).map fun p => (.table .inline p.1, p.2)
      else readWord? s

/-- Reads the elements of an array, behind those in `done`, and the bracket that
closes it. -/
def readElements (fuel : Nat) (done : List Toml) (s : List Char) :
    Option (List Toml × List Char) :=
  match fuel with
  | 0 => none
  | fuel + 1 =>
    match skipLines s.length s with
    | ']' :: s => some (done.reverse, s)
    | s => do
      let (v, s) ← readValue fuel s
      match skipLines s.length s with
      | ']' :: s => some ((v :: done).reverse, s)
      | ',' :: s => readElements fuel (v :: done) s
      | _ => none

/-- Reads the members of an inline table, behind those in `done`, and the brace that
closes it. -/
def readMembers (fuel : Nat) (done : Table) (s : List Char) : Option (Table × List Char) :=
  match fuel with
  | 0 => none
  | fuel + 1 => do
    let ((path, key), s) ← readKey (s.length + 1) s
    let s ← after? ['='] (skipBlanks s)
    let (v, s) ← readValue fuel (skipBlanks s)
    let done ← done.insert? path key v
    match skipBlanks s with
    | '\x7d' :: s => some (done, s)
    | ',' :: s => readMembers fuel done s
    | _ => none

end

/-! ## Documents -/

/-- A document that is being read. -/
structure Reader where
  /-- The table so far. -/
  table : Table
  /-- The header below which the lines are. -/
  header : List String

/-- Reads a header, behind its bracket. -/
def Reader.readHeader (d : Reader) (s : List Char) : Option (Reader × List Char) :=
  match s with
  | '[' :: s => do
    let ((path, key), s) ← readKey (s.length + 1) s
    let s ← after? [']', ']'] (skipBlanks s)
    return (⟨← d.table.append? path key, path ++ [key]⟩, s)
  | s => do
    let ((path, key), s) ← readKey (s.length + 1) s
    let s ← after? [']'] (skipBlanks s)
    return (⟨← d.table.open? path key, path ++ [key]⟩, s)

/-- Reads a key and its value. -/
def Reader.readPair (d : Reader) (s : List Char) : Option (Reader × List Char) := do
  let ((path, key), s) ← readKey (s.length + 1) s
  let s ← after? ['='] (skipBlanks s)
  let (v, s) ← readValue (2 * s.length + 2) (skipBlanks s)
  return ({ d with table := ← d.table.insertBelow? d.header path key v }, s)

/-- Reads the lines of a document. -/
def Reader.readLines : Nat → Reader → List Char → Option Table
  | 0, _, _ => none
  | fuel + 1, d, s =>
    match skipBlanks s with
    | [] => some d.table
    | '#' :: s => do Reader.readLines fuel d (← afterLine? ('#' :: s))
    | '[' :: s => do
      let (d, s) ← d.readHeader s
      Reader.readLines fuel d (← afterLine? s)
    | c :: s =>
      match afterNewline? (c :: s) with
      | some s => Reader.readLines fuel d s
      | none => do
        let (d, s) ← d.readPair (c :: s)
        Reader.readLines fuel d (← afterLine? s)

/-- The table of a document.  A byte order mark at its start does not count. -/
def read? (text : String) : Option Table :=
  let s := match text.toList with
    | '\ufeff' :: s => s
    | s => s
  Reader.readLines (s.length + 1) ⟨[], []⟩ s

end Playground.Toml
