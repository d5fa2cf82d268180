/-
Two notions of white space.

Between tokens only six ASCII characters count: space, tab, line feed,
carriage return, vertical tab and form feed. The bounding box comment is read
with the wider class, the Unicode property White_Space.
-/
set_option autoImplicit false

namespace VectorPage

/-- The white space between tokens. -/
def isBlank (c : Char) : Bool :=
  c == ' ' || c == '\t' || c == '\n' || c == '\r' || c == '\x0b' || c == '\x0c'

/-- The code points above ASCII with the property White_Space, as closed
ranges in rising order. -/
def wideSpaceRanges : List (Nat × Nat) :=
  [(0x85, 0x85), (0xA0, 0xA0), (0x1680, 0x1680), (0x2000, 0x200A), (0x2028, 0x2029),
   (0x202F, 0x202F), (0x205F, 0x205F), (0x3000, 0x3000)]

/-- The characters with the Unicode property White_Space. -/
def isWhiteSpace (c : Char) : Bool :=
  isBlank c || wideSpaceRanges.any fun (lo, hi) => lo ≤ c.toNat && c.toNat ≤ hi

end VectorPage
