/-
Affine maps of the plane.

A map is six coefficients; the point `(x, y)` goes to
`(a x + c y + e, b x + d y + f)`. The formulas ask nothing of the
coefficients but the four operations and an order, so the same text is run on
doubles and read over the rationals, where it obeys the laws of affine maps.
What needs angles or square roots is defined for doubles alone.
-/
import VectorPage.Number.Angle

set_option autoImplicit false

namespace VectorPage

/-- A point of the page. -/
abbrev Point := Float × Float

/-- The affine map `(x, y) ↦ (a x + c y + e, b x + d y + f)`. -/
structure Affine (α : Type) where
  a : α
  b : α
  c : α
  d : α
  e : α
  f : α
  deriving DecidableEq, Repr

namespace Affine

variable {α : Type}

/-- The identity. -/
def identity [OfNat α 0] [OfNat α 1] : Affine α :=
  ⟨1, 0, 0, 1, 0, 0⟩

/-- **Composition in reading order**: first `m`, then `n`. -/
def andThen [Add α] [Mul α] (m n : Affine α) : Affine α where
  a := n.a * m.a + n.c * m.b
  b := n.b * m.a + n.d * m.b
  c := n.a * m.c + n.c * m.d
  d := n.b * m.c + n.d * m.d
  e := n.a * m.e + n.c * m.f + n.e
  f := n.b * m.e + n.d * m.f + n.f

/-- The map `m` with `n` applied before it, which is how a drawing operator
concatenates onto the current transform. -/
def concat [Add α] [Mul α] (m n : Affine α) : Affine α :=
  n.andThen m

/-- Concatenates a translation. -/
def translate [Add α] [Mul α] [OfNat α 0] [OfNat α 1] (m : Affine α) (tx ty : α) : Affine α :=
  m.concat ⟨1, 0, 0, 1, tx, ty⟩

/-- Concatenates a scaling of the axes. -/
def scale [Add α] [Mul α] [OfNat α 0] (m : Affine α) (sx sy : α) : Affine α :=
  m.concat ⟨sx, 0, 0, sy, 0, 0⟩

/-- Concatenates the rotation with a given cosine and sine. -/
def rotateBy [Add α] [Mul α] [Neg α] [OfNat α 0] (m : Affine α) (cosine sine : α) : Affine α :=
  m.concat ⟨cosine, sine, -sine, cosine, 0, 0⟩

/-- The image of a point. -/
def apply [Add α] [Mul α] (m : Affine α) (x y : α) : α × α :=
  (m.a * x + m.c * y + m.e, m.b * x + m.d * y + m.f)

/-- The image of a displacement, which translations do not move. -/
def applyVector [Add α] [Mul α] (m : Affine α) (dx dy : α) : α × α :=
  (m.a * dx + m.c * dy, m.b * dx + m.d * dy)

/-- The factor by which the map scales areas. -/
def determinant [Sub α] [Mul α] (m : Affine α) : α :=
  m.a * m.d - m.b * m.c

/-- Whether a determinant is too small to divide by. -/
def isNegligible [Neg α] [OfScientific α] [LT α] [DecidableLT α] (det : α) : Bool :=
  -1e-10 < det && det < 1e-10

/-- **The inverse map**, or the identity when the determinant is
negligible. -/
def invert [Add α] [Sub α] [Mul α] [Div α] [Neg α] [OfNat α 0] [OfNat α 1] [OfScientific α]
    [LT α] [DecidableLT α] (m : Affine α) : Affine α :=
  let det := m.determinant
  if isNegligible det then identity
  else
    { a := m.d / det
      b := -m.b / det
      c := -m.c / det
      d := m.a / det
      e := (m.c * m.f - m.d * m.e) / det
      f := (m.b * m.e - m.a * m.f) / det }

/-- Whether the coefficients are those of the identity. -/
def isIdentity [OfNat α 0] [OfNat α 1] [BEq α] (m : Affine α) : Bool :=
  m.a == 1 && m.b == 0 && m.c == 0 && m.d == 1 && m.e == 0 && m.f == 0

/-! ## On doubles -/

/-- Concatenates a counter-clockwise rotation in degrees. -/
def rotate (m : Affine Float) (angle : Float) : Affine Float :=
  m.rotateBy (radians angle).cos (radians angle).sin

/-- The lengths of the images of the two unit vectors. -/
def axisLengths (m : Affine Float) : Point :=
  (vectorLength m.a m.b, vectorLength m.c m.d)

/-- A map taken apart into a translation, a rotation in degrees, a scaling
and angles of skew. The skew is not used to put it together again. -/
structure Parts where
  translation : Point
  scaling : Point
  rotation : Float
  skew : Point

/-- The parts of a map. -/
def parts (m : Affine Float) : Parts :=
  let sx := vectorLength m.a m.b
  let sy := if sx == 0 then 0 else m.determinant / sx
  { translation := (m.e, m.f)
    scaling := (sx, sy)
    rotation := degrees (Float.atan2 m.b m.a)
    skew :=
      (degrees (Float.atan2 (m.a * m.c + m.b * m.d) (sx * sx)),
       degrees (Float.atan2 (m.a * m.b + m.c * m.d) (sy * sy))) }

end Affine

end VectorPage
