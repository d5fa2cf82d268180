/-
The bounding box that a page program announces.

The comment is looked for in the whole text, comments and strings alike. At a
place where it stands with four fields behind it, the fields decide: if one
of them is no number the program has no bounding box, and later comments are
not considered. A place where four fields do not follow is passed over.
-/
import VectorPage.Number.Numeral
import VectorPage.Text.Blank

set_option autoImplicit false

namespace VectorPage

/-- The rectangle with a lower left and an upper right corner. -/
structure BoundingBox where
  left : Float
  bottom : Float
  right : Float
  top : Float

namespace BoundingBox

def width (b : BoundingBox) : Float := b.right - b.left

def height (b : BoundingBox) : Float := b.top - b.bottom

/-! ## Finding the comment -/

/-- What the comment begins with. -/
def marker : List Char := "%%BoundingBox:".toList

/-- The characters of a field. -/
def isFieldChar (c : Char) : Bool :=
  isDigit c || isSign c || c == '.' || c == 'e' || c == 'E'

/-- The longest field at the front of a text, and the rest. -/
def takeField? (cs : List Char) : Option (List Char × List Char) :=
  let (field, rest) := takeRun isFieldChar cs
  if field.isEmpty then none else some (field, rest)

/-- A field behind at least one white space. -/
def takeNextField? (cs : List Char) : Option (List Char × List Char) :=
  let (space, rest) := takeRun isWhiteSpace cs
  if space.isEmpty then none else takeField? rest

/-- The four fields of a comment at the front of a text. -/
def fieldsAt? (cs : List Char) : Option (List (List Char)) := do
  let rest ← marker.isPrefixOf? cs
  let (a, rest) ← takeField? (rest.dropWhile isWhiteSpace)
  let (b, rest) ← takeNextField? rest
  let (c, rest) ← takeNextField? rest
  let (d, _) ← takeNextField? rest
  return [a, b, c, d]

/-- The fields of the first comment that has four. -/
def firstFields? : List Char → Option (List (List Char))
  | [] => none
  | c :: rest =>
    match fieldsAt? (c :: rest) with
    | some fields => some fields
    | none => firstFields? rest

/-- The box that four fields give, if they are numbers. -/
def ofFields? (fields : List (List Char)) : Option BoundingBox :=
  match fields.map Numeral.read? with
  | [some left, some bottom, some right, some top] => some ⟨left, bottom, right, top⟩
  | _ => none

/-- **The bounding box of a page program**, if it announces one. -/
def find? (source : String) : Option BoundingBox :=
  (firstFields? source.toList).bind ofFields?

end BoundingBox

end VectorPage
