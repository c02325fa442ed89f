import Playground.Error
import Playground.Files.Path

/-!
# Disks

A tree of files and directories, as a map from locations to nodes.  A location is
the list of the names from the root.  A path is walked part by part, and each part
but the last has to lead to a directory.  So `..` leads to the directory around the
place reached, and a name behind a file is an error of its own.

`read` and `write` never make a directory.  `makeDirectories` makes every missing
one on its path, and leaves those it has made when it fails.
-/

namespace Playground.Files

open Text

/-- The names from the root to an entry. -/
abbrev Location := List String

/-- What is at a location. -/
inductive Node where
  | file (content : List UInt8)
  | directory
deriving DecidableEq, Repr

/-- A tree of files and directories, and the directory from which paths are
walked. -/
structure Disk where
  /-- The entries below the root. -/
  nodes : List (Location × Node)
  /-- The working directory. -/
  current : Location
deriving DecidableEq, Repr, Inhabited

namespace Disk

/-- What is at a location.  The root is always there. -/
def node? (d : Disk) (l : Location) : Option Node :=
  if l = [] then some .directory else (d.nodes.find? (·.1 = l)).map Prod.snd

/-- The disk with a node at a location. -/
def put (d : Disk) (l : Location) (n : Node) : Disk :=
  { d with nodes := (l, n) :: d.nodes.filter fun e => !decide (e.1 = l) }

theorem node?_put (d : Disk) (l k : Location) (n : Node) (h : l ≠ []) :
    (d.put l n).node? k = if k = l then some n else d.node? k := by
  unfold node? put
  by_cases hk : k = l
  · subst hk
    simp [h]
  · have hlk : ¬ l = k := fun e => hk e.symm
    simp only [List.find?_cons, hlk, decide_false, List.find?_filter, if_neg hk]
    have hf : (fun e : Location × Node => decide ((!decide (e.1 = l)) = true ∧
        decide (e.1 = k) = true)) = fun e => decide (e.1 = k) := by
      funext e
      by_cases he : e.1 = k
      · simp [he, hk]
      · simp [he]
    rw [hf]

/-! ## Walking -/

/-- The longest name of an entry, in octets. -/
def maxName : Nat := 255

/-- The longest path, in octets. -/
def maxPath : Nat := 4095

/-- The location to which a part leads from a directory. -/
def enter (l : Location) : Part → Except IoError Location
  | .here => .ok l
  | .up => .ok l.dropLast
  | .name s => if maxName < Utf8.size s.toList then .error .nameTooLong else .ok (l ++ [s])

/-- The directory to which parts lead. -/
def walk (d : Disk) (l : Location) : List Part → Except IoError Location
  | [] => .ok l
  | p :: ps =>
    match enter l p with
    | .error e => .error e
    | .ok l =>
      match d.node? l with
      | some .directory => d.walk l ps
      | some (.file _) => .error .notADirectory
      | none => .error .notFound

/-- Where the walk of a path begins. -/
def origin (d : Disk) (p : Path) : Location := if p.isAbsolute then [] else d.current

/-- The directory that holds the last part of a path. -/
def holder (d : Disk) (p : Path) : Except IoError Location :=
  d.walk (d.origin p) p.parts.dropLast

/-- The path of a text that can be a path at all. -/
def checked (text : String) : Except IoError Path :=
  if text.toList.contains '\x00' then .error .nulInPath
  else if text = "" then .error .notFound
  else if maxPath < Utf8.size text.toList then .error .nameTooLong
  else .ok (.ofText text)

/-! ## Files -/

/-- The content of the file at a path. -/
def readAt (d : Disk) (p : Path) : Except IoError (List UInt8) := do
  let dir ← d.holder p
  match p.parts.getLast? with
  | none => .error .isADirectory
  | some part =>
    match d.node? (← enter dir part) with
    | none => .error .notFound
    | some .directory => .error .isADirectory
    | some (.file content) => if p.endsInSlash then .error .notADirectory else .ok content

/-- The content of the file that a text names. -/
def read (d : Disk) (text : String) : Except IoError (List UInt8) := do d.readAt (← checked text)

/-- The text of the file that a text names. -/
def readText (d : Disk) (text : String) : Except IoError String := do
  match Utf8.decode? (← d.read text) with
  | some s => .ok (String.ofList s)
  | none => .error .invalidUtf8

/-- The disk with a file at a path, written anew. -/
def writeAt (d : Disk) (p : Path) (content : List UInt8) : Except IoError Disk := do
  let dir ← d.holder p
  match p.parts.getLast? with
  | some (.name s) =>
    if p.endsInSlash then .error .isADirectory
    else
      let l ← enter dir (.name s)
      if d.node? l = some .directory then .error .isADirectory else .ok (d.put l (.file content))
  | _ => .error .isADirectory

/-- The disk with the file that a text names, written anew. -/
def write (d : Disk) (text : String) (content : List UInt8) : Except IoError Disk := do
  d.writeAt (← checked text) content

/-- The disk with a text in the file that a text names. -/
def writeText (d : Disk) (text content : String) : Except IoError Disk :=
  d.write text (Utf8.encode content.toList)

/-! ## Directories -/

/-- The path leads to a directory. -/
def isDirectory (d : Disk) (p : Path) : Bool := (d.walk (d.origin p) p.parts).toOption.isSome

/-- The disk with a new directory at a path. -/
def makeDirectory (d : Disk) (p : Path) : Except IoError Disk := do
  let dir ← d.holder p
  match p.parts.getLast? with
  | some (.name s) =>
    let l ← enter dir (.name s)
    if (d.node? l).isSome then .error .alreadyExists else .ok (d.put l .directory)
  | _ => .error .alreadyExists

/-- The disk with a directory at a path, if there was none. -/
def ensureDirectory (d : Disk) (p : Path) : Except IoError Disk :=
  match d.makeDirectory p with
  | .ok d => .ok d
  | .error e => if d.isDirectory p then .ok d else .error e

/-- The disk with all directories on a path, and the failure that stopped it. -/
def makeDirectoriesAt (d : Disk) (p : Path) : Disk × Except IoError Unit :=
  if _h : p.parts = [] then (d, .ok ())
  else
    match d.ensureDirectory p with
    | .ok d => (d, .ok ())
    | .error .notFound =>
      match d.makeDirectoriesAt p.parent with
      | (d, .error e) => (d, .error e)
      | (d, .ok ()) =>
        match d.ensureDirectory p with
        | .ok d => (d, .ok ())
        | .error e => (d, .error e)
    | .error e => (d, .error e)
termination_by p.parts.length
decreasing_by exact Path.length_parent_lt p _h

/-- The disk with all directories on the path that a text names, and the failure
that stopped it. -/
def makeDirectories (d : Disk) (text : String) : Disk × Except IoError Unit :=
  if text = "" then (d, .ok ())
  else
    match checked text with
    | .ok p => d.makeDirectoriesAt p
    | .error e => (d, .error e)

end Disk

end Playground.Files
