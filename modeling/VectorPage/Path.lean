/-
Paths under construction, and their text.

A path is a list of segments and a rule for the coordinates that come in:
they are taken as given, mapped through a transform, or left for a group
around the element to transform. Its text is a list of words, a letter and
numbers for each segment, parted by single blanks.

Coordinates are doubles unless another type is named: like the maps that place
them, paths ask no more of their coordinates than sums and products.
-/
import VectorPage.Affine
import VectorPage.Number.Fixed

set_option autoImplicit false

namespace VectorPage

variable {α : Type}

/-- One command of a path. The `By` forms are relative to the point reached
so far. -/
inductive Segment (α : Type := Float) where
  | moveTo (x y : α)
  | moveBy (dx dy : α)
  | lineTo (x y : α)
  | lineBy (dx dy : α)
  | curveTo (x₁ y₁ x₂ y₂ x y : α)
  | curveBy (dx₁ dy₁ dx₂ dy₂ dx dy : α)
  | arcTo (rx ry rotation : α) (large sweep : Bool) (x y : α)
  | close

namespace Segment

/-- The word of a flag. -/
def flagText (flag : Bool) : String :=
  if flag then "1" else "0"

/-- **The words of a segment**: its letter, then its numbers and flags. -/
def words : Segment → List String
  | moveTo x y => "M" :: [x, y].map numberText
  | moveBy dx dy => "m" :: [dx, dy].map numberText
  | lineTo x y => "L" :: [x, y].map numberText
  | lineBy dx dy => "l" :: [dx, dy].map numberText
  | curveTo x₁ y₁ x₂ y₂ x y => "C" :: [x₁, y₁, x₂, y₂, x, y].map numberText
  | curveBy dx₁ dy₁ dx₂ dy₂ dx dy => "c" :: [dx₁, dy₁, dx₂, dy₂, dx, dy].map numberText
  | arcTo rx ry rotation large sweep x y =>
    "A" :: ([rx, ry, rotation].map numberText
      ++ [flagText large, flagText sweep] ++ [x, y].map numberText)
  | close => ["Z"]

/-- The text of one segment. -/
def text (s : Segment) : String :=
  " ".intercalate s.words

end Segment

/-- The text of a list of segments. -/
def segmentsText (segments : List Segment) : String :=
  " ".intercalate (segments.flatMap Segment.words)

/-- The data of a path element or a clip: the segments of a path that was
drawn, or a text taken as it stands. -/
inductive PathData where
  | drawn (segments : List Segment)
  | verbatim (text : String)

/-- The text of path data. -/
def PathData.text : PathData → String
  | drawn segments => segmentsText segments
  | verbatim text => text

/-- How a path places the coordinates it is given. -/
inductive Placement (α : Type := Float) where
  /-- As given. -/
  | plain
  /-- Mapped through a transform. -/
  | baked (m : Affine α)
  /-- As given, for a group around the element to transform. -/
  | grouped

namespace Placement

/-- Where a point is placed. -/
def point [Add α] [Mul α] (p : Placement α) (x y : α) : α × α :=
  match p with
  | baked m => m.apply x y
  | _ => (x, y)

/-- Where a displacement is placed. -/
def vector [Add α] [Mul α] (p : Placement α) (dx dy : α) : α × α :=
  match p with
  | baked m => m.applyVector dx dy
  | _ => (dx, dy)

/-- Whether a group around the element is to transform it. -/
def isGrouped : Placement α → Bool
  | grouped => true
  | _ => false

end Placement

/-- A path under construction. -/
structure Path (α : Type := Float) where
  segments : Array (Segment α) := #[]
  placement : Placement α := .plain

namespace Path

/-- Appends a segment whose coordinates are placed already. -/
def push (p : Path α) (s : Segment α) : Path α :=
  { p with segments := p.segments.push s }

def moveTo [Add α] [Mul α] (p : Path α) (x y : α) : Path α :=
  let (x, y) := p.placement.point x y
  p.push (.moveTo x y)

def moveBy [Add α] [Mul α] (p : Path α) (dx dy : α) : Path α :=
  let (dx, dy) := p.placement.vector dx dy
  p.push (.moveBy dx dy)

def lineTo [Add α] [Mul α] (p : Path α) (x y : α) : Path α :=
  let (x, y) := p.placement.point x y
  p.push (.lineTo x y)

def lineBy [Add α] [Mul α] (p : Path α) (dx dy : α) : Path α :=
  let (dx, dy) := p.placement.vector dx dy
  p.push (.lineBy dx dy)

def curveTo [Add α] [Mul α] (p : Path α) (x₁ y₁ x₂ y₂ x y : α) : Path α :=
  let (x₁, y₁) := p.placement.point x₁ y₁
  let (x₂, y₂) := p.placement.point x₂ y₂
  let (x, y) := p.placement.point x y
  p.push (.curveTo x₁ y₁ x₂ y₂ x y)

def curveBy [Add α] [Mul α] (p : Path α) (dx₁ dy₁ dx₂ dy₂ dx dy : α) : Path α :=
  let (dx₁, dy₁) := p.placement.vector dx₁ dy₁
  let (dx₂, dy₂) := p.placement.vector dx₂ dy₂
  let (dx, dy) := p.placement.vector dx dy
  p.push (.curveBy dx₁ dy₁ dx₂ dy₂ dx dy)

/-- An elliptical arc. Only its end point is placed; the radii stay. -/
def arcTo [Add α] [Mul α] (p : Path α) (rx ry rotation : α) (large sweep : Bool) (x y : α) :
    Path α :=
  let (x, y) := p.placement.point x y
  p.push (.arcTo rx ry rotation large sweep x y)

def close (p : Path α) : Path α :=
  p.push .close

/-- The path without its last segment. -/
def dropLast (p : Path α) : Path α :=
  { p with segments := p.segments.pop }

/-- The last segment. -/
def last? (p : Path α) : Option (Segment α) :=
  p.segments.back?

/-- Whether the path has no segment. -/
def isEmpty (p : Path α) : Bool :=
  p.segments.isEmpty

/-- Whether the path is one absolute move and one absolute line. -/
def isSingleLine (p : Path α) : Bool :=
  p.segments.size == 2 &&
    match p.segments.toList with
    | [.moveTo _ _, .lineTo _ _] => true
    | _ => false

/-- Whether the last segment closes the subpath. -/
def isClosed (p : Path α) : Bool :=
  match p.last? with
  | some .close => true
  | _ => false

/-- The empty path with the same placement. -/
def reset (p : Path α) : Path α :=
  { p with segments := #[] }

/-- What the path has drawn. -/
def data (p : Path) : PathData :=
  .drawn p.segments.toList

end Path

end VectorPage
