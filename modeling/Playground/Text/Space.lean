/-!
# White space

The characters with the Unicode property `White_Space`, and the text left when
they are taken off its ends.  `isSpace_eq_true_iff` says the table holds exactly
the code points of its ranges.
-/

namespace Playground.Text

/-- The code points with the property `White_Space`, as closed ranges. -/
def spaceRanges : List (Nat × Nat) :=
  [(0x09, 0x0D), (0x20, 0x20), (0x85, 0x85), (0xA0, 0xA0), (0x1680, 0x1680), (0x2000, 0x200A),
    (0x2028, 0x2029), (0x202F, 0x202F), (0x205F, 0x205F), (0x3000, 0x3000)]

/-- The character is white space. -/
def isSpace (c : Char) : Bool :=
  spaceRanges.any fun r => r.1 ≤ c.toNat && c.toNat ≤ r.2

/-- The text without the white space at its start. -/
def trimStart (s : List Char) : List Char := s.dropWhile isSpace

/-- The text without the white space at its end. -/
def trimEnd (s : List Char) : List Char := (s.reverse.dropWhile isSpace).reverse

/-- The text without the white space at both ends. -/
def trim (s : List Char) : List Char := trimEnd (trimStart s)

theorem isSpace_eq_true_iff (c : Char) :
    isSpace c = true ↔ ∃ r ∈ spaceRanges, r.1 ≤ c.toNat ∧ c.toNat ≤ r.2 := by
  simp [isSpace]

theorem isSpace_newline : isSpace '\n' = true := by decide

end Playground.Text
