import Playground.Text.Search
import Playground.Text.Utf8

/-!
# Paths

A path is a sequence of parts between slashes.  Empty parts do not count, but a
slash at the end does: it says that the path names a directory.  `Path.parent`
leads to the directory that has to be there first, and `childText` writes the path of
a name in a directory.
-/

namespace Playground.Files

open Text

/-- A part of a path. -/
inductive Part where
  /-- The directory itself, `.`. -/
  | here
  /-- The directory around it, `..`. -/
  | up
  /-- An entry of the directory. -/
  | name (s : String)
deriving DecidableEq, Repr

/-- The part that a text between two slashes names. -/
def Part.ofText (s : List Char) : Part :=
  if s = ['.'] then .here else if s = ['.', '.'] then .up else .name (String.ofList s)

/-- A path. -/
structure Path where
  /-- It starts at the root, and not at the working directory. -/
  isAbsolute : Bool
  /-- Its parts. -/
  parts : List Part
  /-- It ends in a slash. -/
  endsInSlash : Bool
deriving DecidableEq, Repr

namespace Path

/-- The path that a text names. -/
def ofText (s : String) : Path where
  isAbsolute := s.toList.head? = some '/'
  parts := ((splitOn '/' s.toList).filter (· ≠ [])).map Part.ofText
  endsInSlash := s.toList.getLast? = some '/'

/-- The path leads nowhere from the working directory. -/
def isEmpty (p : Path) : Bool := !p.isAbsolute && p.parts.isEmpty

/-- The parts without the dots at their end. -/
def withoutDots (parts : List Part) : List Part := (parts.reverse.dropWhile (· = .here)).reverse

/-- The path of the directory that holds the last part of the path. -/
def parent (p : Path) : Path where
  isAbsolute := p.isAbsolute
  parts := withoutDots (withoutDots p.parts).dropLast
  endsInSlash := false

theorem length_withoutDots_le (parts : List Part) : (withoutDots parts).length ≤ parts.length := by
  unfold withoutDots
  have := (List.dropWhile_sublist (· = Part.here) (l := parts.reverse)).length_le
  simpa using this

theorem length_parent_lt (p : Path) (h : p.parts ≠ []) :
    p.parent.parts.length < p.parts.length := by
  have h1 := length_withoutDots_le (withoutDots p.parts).dropLast
  have h2 := length_withoutDots_le p.parts
  have h3 : 0 < p.parts.length := List.length_pos_iff.2 h
  have h4 : (withoutDots p.parts).dropLast.length = (withoutDots p.parts).length - 1 :=
    List.length_dropLast
  show (withoutDots (withoutDots p.parts).dropLast).length < p.parts.length
  omega

end Path

/-- The text of the path of `name` in the directory `dir`. -/
def childText (dir name : String) : String :=
  if name.toList.head? = some '/' ∨ dir = "" then name
  else if dir.toList.getLast? = some '/' then dir ++ name
  else dir ++ "/" ++ name

example : (Path.ofText "/a//b/").parts = [.name "a", .name "b"] := by decide +kernel
example : (Path.ofText "../x/.").parent.parts = [.up] := by decide +kernel
example : childText "store" "code" = "store/code" := by decide +kernel

end Playground.Files
