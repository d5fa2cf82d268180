/-
Building a path.

The machine tracks the point reached in the coordinates of the program, and
the place where a text would begin: a text begins where the last move went.
-/
import VectorPage.Machine.Basic

set_option autoImplicit false

namespace VectorPage.Machine

/-- Moves the tracked point. -/
def reach (m : Machine) (p : Point) : Machine :=
  { m with point := p }

/-- The tracked point displaced. -/
def displaced (m : Machine) (d : Point) : Point :=
  (m.point.1 + d.1, m.point.2 + d.2)

/-- Changes the path under construction. -/
def build (m : Machine) (f : Path → Path) : Machine :=
  { m with path := f m.path }

/-- Lets a text begin at a point. -/
def startText (m : Machine) (p : Point) : Machine :=
  { m with graphics := { m.graphics with textPosition := some p } }

/-! ## Moves, lines and curves -/

def moveTo (m : Machine) : Machine :=
  let (p, m) := m.popPoint
  ((m.build (·.moveTo p.1 p.2)).reach p).startText p

def moveBy (m : Machine) : Machine :=
  let (d, m) := m.popPoint
  let p := m.displaced d
  ((m.build (·.moveBy d.1 d.2)).reach p).startText p

/-- Whether a single line is complete: the operator that comes next, whatever
its name is bound to, neither restyles it nor goes on from its end. -/
def endsLine (stream : TokenStream) : Bool :=
  match stream.upcomingOperator?.bind Operator.ofName? with
  | some op => !(op.restyles || op.extendsPath)
  | none => true

/-- A straight line. A single line that is complete is painted at once. -/
def lineTo (m : Machine) (stream : TokenStream) : Machine :=
  let (p, m) := m.popPoint
  let m := (m.build (·.lineTo p.1 p.2)).reach p
  if m.path.isSingleLine && endsLine stream then m.paintPath .lines else m

def lineBy (m : Machine) : Machine :=
  let (d, m) := m.popPoint
  let p := m.displaced d
  (m.build (·.lineBy d.1 d.2)).reach p

def curveTo (m : Machine) : Machine :=
  let (p, m) := m.popPoint
  let (p₂, m) := m.popPoint
  let (p₁, m) := m.popPoint
  (m.build (·.curveTo p₁.1 p₁.2 p₂.1 p₂.2 p.1 p.2)).reach p

def curveBy (m : Machine) : Machine :=
  let (d, m) := m.popPoint
  let (d₂, m) := m.popPoint
  let (d₁, m) := m.popPoint
  let p := m.displaced d
  (m.build (·.curveBy d₁.1 d₁.2 d₂.1 d₂.2 d.1 d.2)).reach p

/-- Closes the subpath, unless there is none or it is closed. -/
def closePath (m : Machine) : Machine :=
  if m.path.isEmpty || m.path.isClosed then m else m.build (·.close)

/-! ## Arcs -/

/-- Whether two coordinates are the same point for all purposes of
drawing. -/
def isClose (x y : Float) : Bool :=
  (x - y).abs < 1e-6

/-- The path without a move to a given point at its end. -/
def withoutMoveTo (path : Path) (p : Point) : Path :=
  match path.last? with
  | some (.moveTo x y) => if isClose x p.1 && isClose y p.2 then path.dropLast else path
  | _ => path

/-- The point of a circle at an angle. -/
def circlePoint (x y r : Float) (angle : Float) : Point :=
  (x + r * (radians angle).cos, y + r * (radians angle).sin)

/-- The radii that an arc has on the page. Inside a group the transform takes
care of them. -/
def arcRadii (g : GraphicsState) (r : Float) : Point :=
  if g.needsGroup then (r.abs, r.abs)
  else
    let (sx, sy) := g.transform.axisLengths
    ((r * sx).abs, (r * sy).abs)

/-- Whether an angle between two directions comes to a whole number of
turns. -/
def isWholeTurns (angle : Float) : Bool :=
  let turns := remainder angle.abs 360
  turns < 1e-6 || 360 - turns < 1e-6

/-- **The path with an arc** of radii `rx` and `ry`, whose points are given
by their angle. It begins with a move to its start. A whole number of turns
is drawn as two half turns and closed. -/
def withArc (path : Path) (rx ry : Float) (pointAt : Float → Point) (angle₁ angle₂ : Float) :
    Path :=
  let start := pointAt angle₁
  let path := path.moveTo start.1 start.2
  if isWholeTurns (angle₂ - angle₁) then
    let middle := pointAt (wholeTurnRemainder (angle₁ + 180))
    let path := path.arcTo rx ry 0 true true middle.1 middle.2
    (path.arcTo rx ry 0 true true start.1 start.2).close
  else
    let stop := pointAt angle₂
    let sweep := wholeTurnRemainder (angle₂ - angle₁)
    path.arcTo rx ry 0 (sweep > 180) (sweep > 0) stop.1 stop.2

/-- An arc around a point from one angle to another, counter-clockwise. A
move to the centre just before it is dropped. -/
def arc (m : Machine) : Machine :=
  let (angle₂, m) := m.popNumber 0
  let (angle₁, m) := m.popNumber 0
  let (r, m) := m.popNumber 0
  let ((x, y), m) := m.popPoint
  let (rx, ry) := arcRadii m.graphics r
  let pointAt := circlePoint x y r
  let built := m.build fun path =>
    withArc (withoutMoveTo path (path.placement.point x y)) rx ry pointAt angle₁ angle₂
  built.reach (pointAt angle₂)

end VectorPage.Machine
