/-
Colours.

A colour is three channels of one byte. Components given as numbers between
zero and one are scaled, cut to the range of a byte and rounded, halves up,
so no operand gives a colour outside the range; a component that is not a
number gives zero.
-/
import VectorPage.Number.Exact

set_option autoImplicit false

namespace VectorPage

/-- A colour by its red, green and blue channels. -/
structure Color where
  red : UInt8
  green : UInt8
  blue : UInt8
  deriving DecidableEq, Repr

/-- The way a list of components is read. -/
inductive ColorSpace where
  | gray
  | rgb
  | cmyk
  deriving DecidableEq, Repr

/-- The space of a number of components: one is gray, four are cyan,
magenta, yellow and black, any other number is red, green and blue. -/
def ColorSpace.ofCount : Nat → ColorSpace
  | 1 => gray
  | 4 => cmyk
  | _ => rgb

/-- A value as a byte: cut to the range from 0 to 255 and rounded, halves
up. -/
def channel (x : Float) : UInt8 :=
  match Exact.ofFloat? x with
  | some v =>
    if v.negative then 0
    else UInt8.ofNat (min (divHalfUp v.magnitude.1 v.magnitude.2) 255)
  | none => if x > 0 then 255 else 0

namespace Color

/-- The colour with channels given from 0 to 255. -/
def ofChannels (r g b : Float) : Color :=
  ⟨channel r, channel g, channel b⟩

/-- From red, green and blue. -/
def ofRgb (r g b : Float) : Color :=
  ofChannels (r * 255) (g * 255) (b * 255)

/-- From a level of gray. -/
def ofGray (level : Float) : Color :=
  ofRgb level level level

/-- From cyan, magenta, yellow and black. -/
def ofCmyk (c m y k : Float) : Color :=
  ofChannels (255 * (1 - c) * (1 - k)) (255 * (1 - m) * (1 - k)) (255 * (1 - y) * (1 - k))

/-- From a list of components, whose number decides the space; missing
components are zero. -/
def ofComponents (xs : List Float) : Color :=
  match ColorSpace.ofCount xs.length with
  | .gray => ofGray (xs.getD 0 0)
  | .cmyk => ofCmyk (xs.getD 0 0) (xs.getD 1 0) (xs.getD 2 0) (xs.getD 3 0)
  | .rgb => ofRgb (xs.getD 0 0) (xs.getD 1 0) (xs.getD 2 0)

/-- The text of a colour. -/
def text (c : Color) : String :=
  "rgb(" ++ Nat.repr c.red.toNat ++ ", " ++ Nat.repr c.green.toNat ++ ", "
    ++ Nat.repr c.blue.toNat ++ ")"

end Color

end VectorPage
