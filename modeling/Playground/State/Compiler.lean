/-!
# Compilers

The compilers the playground offers, by the id the compile service knows them
under.  Older compilers than these do not build the header.
-/

namespace Playground

/-- A compiler of the compile service. -/
structure Compiler where
  /-- The name shown to the user. -/
  name : String
  /-- The id the compile service knows it under. -/
  id : String
deriving DecidableEq, Repr

/-- The compilers that build the header, newest first. -/
def compilers : List Compiler := [
  ⟨"GCC trunk", "gsnapshot"⟩, ⟨"GCC 10.2", "g102"⟩, ⟨"GCC 10.1", "g101"⟩, ⟨"GCC 9.3", "g93"⟩,
  ⟨"GCC 9.2", "g92"⟩, ⟨"GCC 9.1", "g91"⟩, ⟨"GCC 8.3", "g83"⟩, ⟨"GCC 8.2", "g82"⟩,
  ⟨"GCC 8.1", "g81"⟩, ⟨"GCC 7.5", "g75"⟩, ⟨"GCC 7.4", "g74"⟩]

/-- The id of the compiler a new playground starts with. -/
def defaultCompiler : String := "g102"

/-- The offered compiler with an id. -/
def findCompiler? (id : String) : Option Compiler := compilers.find? (·.id = id)

end Playground
