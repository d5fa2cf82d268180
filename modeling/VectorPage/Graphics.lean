/-
The graphics state: everything that decides how a path or a text looks, but
not what it is. Programs save and restore it as a whole.
-/
import VectorPage.Color
import VectorPage.Path
import VectorPage.Value

set_option autoImplicit false

namespace VectorPage

/-- What an area or a line is painted with. -/
inductive Paint where
  /-- A keyword of the drawing language, such as `none`. -/
  | keyword (word : String)
  | color (c : Color)
  /-- The pattern or gradient that is defined under an id. -/
  | resource (id : String)
  deriving DecidableEq, Repr

/-- A reference to a definition. -/
def resourceText (id : String) : String :=
  "url(#" ++ id ++ ")"

/-- The text of a paint. -/
def Paint.text : Paint → String
  | keyword word => word
  | color c => c.text
  | resource id => resourceText id

/-- The name of a line cap code: 0 is butt, 1 is round, all others are
square. -/
def lineCapName (code : Float) : String :=
  if code == 0 then "butt" else if code == 1 then "round" else "square"

/-- The name of a line join code: 1 is round, 2 is bevel, 3 is arcs, all
others are miter. -/
def lineJoinName (code : Float) : String :=
  if code == 1 then "round" else if code == 2 then "bevel" else if code == 3 then "arcs"
  else "miter"

/-- A clip in force: the id of its definition, and the path it clips to. -/
structure ClipLayer where
  id : String
  data : PathData

/-- The graphics state. -/
structure GraphicsState where
  transform : Affine Float := .identity
  fill : Option Paint := some (.keyword "black")
  stroke : Option Paint := none
  lineWidth : Float := 1
  lineCap : String := "butt"
  lineJoin : String := "miter"
  font : String := "Arial, sans-serif"
  fontSize : Float := 12
  /-- The clips in force, innermost first. -/
  clips : List ClipLayer := []
  /-- The lengths of dashes and gaps. -/
  dash : Option String := none
  /-- Where the next text goes, before the transform. -/
  textPosition : Option Point := none
  pattern : Option Pattern := none

namespace GraphicsState

/-- Whether an element must stand in a group that carries the transform and
the clip. -/
def needsGroup (g : GraphicsState) : Bool :=
  !g.transform.isIdentity || !g.clips.isEmpty

/-- How a path under this state places its coordinates. -/
def placement (g : GraphicsState) : Placement :=
  if g.needsGroup then .grouped else .baked g.transform

/-- Paints areas and lines with a colour, and with no pattern. -/
def withColor (g : GraphicsState) (c : Color) : GraphicsState :=
  { g with fill := some (.color c), stroke := some (.color c), pattern := none }

/-- Paints areas with a pattern. -/
def withPattern (g : GraphicsState) (p : Pattern) : GraphicsState :=
  { g with fill := some (.resource p.id), pattern := some p }

/-- Leaves areas unpainted. -/
def withoutFill (g : GraphicsState) : GraphicsState :=
  { g with fill := some (.keyword "none"), pattern := none }

/-- The paint of areas; black if none is set. -/
def areaPaint (g : GraphicsState) : Paint :=
  g.fill.getD (.keyword "black")

/-- The paint of lines; black if none is set. -/
def linePaint (g : GraphicsState) : Paint :=
  g.stroke.getD (.keyword "black")

end GraphicsState

end VectorPage
