/-
Lengths and angles on doubles.

The length of a vector is the root of the rounded sum of squares, corrected
once by what the square of that root is off. Vectors whose squares would
leave the range of doubles are scaled by a power of two first, which is
exact. Remainders are taken on integers and are exact as well. Angles are in
degrees.
-/
import VectorPage.Number.Exact

set_option autoImplicit false

namespace VectorPage

/-! ## Length of a vector -/

/-- A power of two. -/
def twoTo (e : Int) : Float :=
  Exact.toFloat ⟨false, 1, e⟩

/-- Below this part of the longer component the shorter one is lost in
rounding. -/
def negligiblePart : Float := twoTo (-54)

/-- Components above this are scaled down before they are squared. -/
def longLimit : Float := twoTo 511

/-- Components below this are scaled up before they are squared. -/
def shortLimit : Float := twoTo (-459)

/-- The factor by which long vectors are scaled down. -/
def shrinkFactor : Float := twoTo (-600)

/-- **The corrected root** of `x² + y²`, for `0 ≤ y ≤ x`. The root `h` of the
rounded sum is lowered by its excess `h² - x² - y²` over `2 h`. The excess is
built from the small difference between `h` and one of the components, the
shorter one if `h` is at most twice as long, so that little of it is lost. -/
def correctedRoot (x y : Float) : Float :=
  let h := (x * x + y * y).sqrt
  let excess :=
    if h ≤ 2 * y then
      let d := h - y
      x * (2 * d - x) + (d - 2 * (x - y)) * d
    else
      let d := h - x
      2 * d * (x - 2 * y) + ((4 * d - y) * y + d * d)
  h - excess / (2 * h)

/-- The length of a vector with components `0 ≤ short ≤ long`. -/
def lengthOf (long short : Float) : Float :=
  if longLimit < long then
    if short ≤ long * negligiblePart then long + short
    else correctedRoot (long * shrinkFactor) (short * shrinkFactor) / shrinkFactor
  else if short < shortLimit then
    if short / negligiblePart ≤ long then long + short
    else correctedRoot (long / shrinkFactor) (short / shrinkFactor) * shrinkFactor
  else if short ≤ long * negligiblePart then long + short
  else correctedRoot long short

/-- **The length of the vector `(x, y)`.** An infinite component makes it
infinite, even beside a component that is not a number. -/
def vectorLength (x y : Float) : Float :=
  if x.isInf || y.isInf then 1 / 0
  else if x.isNaN || y.isNaN then 0 / 0
  else if x.abs < y.abs then lengthOf y.abs x.abs
  else lengthOf x.abs y.abs

/-! ## Remainders -/

/-- The remainder of `x` by `y` that has the sign of `x` and a magnitude
below that of `y`; exact. It is not a number when `x` is not finite or `y` is
zero or not a number. -/
def remainder (x y : Float) : Float :=
  match Exact.ofFloat? x, Exact.ofFloat? y with
  | some u, some v =>
    if v.mantissa = 0 then 0 / 0
    else
      let e := min u.exponent v.exponent
      Exact.toFloat ⟨u.negative, u.mantissaAt e % v.mantissaAt e, e⟩
  | some _, none => if y.isNaN then 0 / 0 else x
  | none, _ => 0 / 0

/-- The angle in `[0, 360)` that an angle in degrees comes down to. -/
def wholeTurnRemainder (degrees : Float) : Float :=
  let r := remainder degrees 360
  if r < 0 then r + 360 else r

/-! ## Degrees -/

/-- From degrees to radians. -/
def radians (degrees : Float) : Float :=
  degrees * 0.017453292519943295

/-- From radians to degrees. -/
def degrees (radians : Float) : Float :=
  radians * 57.29577951308232

end VectorPage
