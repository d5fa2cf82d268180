/-
Operators on the graphics state: saving it, transforms, lines, colours and
fonts.

Whenever the transform or the clip changes, the path under construction is
told (`place`), so that its coordinates and the group around its element
always tell the same story.
-/
import VectorPage.Machine.Basic

set_option autoImplicit false

namespace VectorPage.Machine

/-- Changes the graphics state, transform and clips excepted. -/
def restyle (m : Machine) (f : GraphicsState → GraphicsState) : Machine :=
  { m with graphics := f m.graphics }

/-! ## Saving and restoring -/

/-- Saves the graphics state. -/
def saveGraphics (m : Machine) : Machine :=
  { m with saved := m.graphics :: m.saved }

/-- Defines clips anew, outermost first, each under a fresh id. The result
has the innermost first. -/
def renewClips (m : Machine) (layers : List ClipLayer) : List ClipLayer × Machine :=
  layers.foldl
    (fun (done, m) layer =>
      let (id, m) := m.freshId "clip"
      ({ layer with id := id } :: done, m.define (.clipPath id layer.data)))
    ([], m)

/-- **Restores the state saved last**, if there is one. Clips of the saved
state beyond the number now in force would be defined anew. -/
def restoreGraphics (m : Machine) : Machine :=
  match m.saved with
  | [] => m
  | g :: rest =>
    let beyond := g.clips.length - m.graphics.clips.length
    let (renewed, m) := m.renewClips (g.clips.take beyond).reverse
    place
      { m with
        graphics := { g with clips := renewed ++ g.clips.drop beyond }
        saved := rest }

/-! ## Transforms -/

/-- Changes the transform. -/
def retransform (m : Machine) (f : Affine Float → Affine Float) : Machine :=
  place { m with graphics := { m.graphics with transform := f m.graphics.transform } }

def translate (m : Machine) : Machine :=
  let (ty, m) := m.popNumber 0
  let (tx, m) := m.popNumber 0
  m.retransform (·.translate tx ty)

def scale (m : Machine) : Machine :=
  let (sy, m) := m.popNumber 1
  let (sx, m) := m.popNumber 1
  m.retransform (·.scale sx sy)

def rotate (m : Machine) : Machine :=
  let (angle, m) := m.popNumber 0
  m.retransform (·.rotate angle)

/-! ## Lines -/

def setLineWidth (m : Machine) : Machine :=
  let (width, m) := m.popNumber 1
  m.restyle fun g => { g with lineWidth := width }

/-- The style that an operand names: a number by its code, a text or a name
as it stands. -/
def styleName? (ofCode : Float → String) : Option Value → Option String
  | some (.number code) => some (ofCode code)
  | some (.text s) | some (.name s) => some s
  | _ => none

def setLineCap (m : Machine) : Machine :=
  let (v, m) := m.pop
  match styleName? lineCapName v with
  | some cap => m.restyle fun g => { g with lineCap := cap }
  | none => m

def setLineJoin (m : Machine) : Machine :=
  let (v, m) := m.pop
  match styleName? lineJoinName v with
  | some join => m.restyle fun g => { g with lineJoin := join }
  | none => m

/-- The lengths of an array or of a single number. -/
def dashText? : Option Value → Option String
  | some (.array items) =>
    some (" ".intercalate (items.map fun item => numberText (item.number?.getD 0)))
  | some (.number x) => some (numberText x)
  | _ => none

/-- Sets the dashes. The offset is taken and has no effect. -/
def setDash (m : Machine) : Machine :=
  let (_, m) := m.popNumber 0
  let (v, m) := m.pop
  m.restyle fun g => { g with dash := dashText? v }

/-! ## Colours and patterns -/

def setRgbColor (m : Machine) : Machine :=
  let (b, m) := m.popNumber 0
  let (g, m) := m.popNumber 0
  let (r, m) := m.popNumber 0
  m.restyle (·.withColor (.ofRgb r g b))

def setGray (m : Machine) : Machine :=
  let (level, m) := m.popNumber 0
  m.restyle (·.withColor (.ofGray level))

def setCmykColor (m : Machine) : Machine :=
  let (k, m) := m.popNumber 0
  let (y, m) := m.popNumber 0
  let (g, m) := m.popNumber 0
  let (c, m) := m.popNumber 0
  m.restyle (·.withColor (.ofCmyk c g y k))

/-- Fills areas with a pattern; an operand that is none leaves them
unpainted. -/
def setPattern (m : Machine) : Machine :=
  match m.pop with
  | (some (.pattern p), m) => m.restyle (·.withPattern p)
  | (_, m) => m.restyle (·.withoutFill)

/-! ## Fonts

A font is a dictionary with a name and a size. -/

def fontNameKey : String := "FontName"

def fontSizeKey : String := "FontSize"

/-- A font of the name on top of the stack. -/
def findFont (m : Machine) : Machine :=
  let (name, m) := m.popDisplay
  m.pushDict [(fontNameKey, .text name)]

/-- A copy of a font in another size. A name alone counts as a font. -/
def scaleFont (m : Machine) : Machine :=
  let (size, m) := m.popNumber 0
  let (font, m) := m.pop
  let entries :=
    match font with
    | some (.dict ref) => m.heap.entries ref
    | other => [(fontNameKey, .text ((other.map Value.display).getD ""))]
  m.pushDict (setEntry fontSizeKey (.number size) entries)

/-- Makes a font the current one; a name alone keeps the size. -/
def setFont (m : Machine) : Machine :=
  match m.pop with
  | (some (.dict ref), m) =>
    let name := m.heap.get? ref fontNameKey
    let size := (m.heap.get? ref fontSizeKey).bind Value.number?
    m.restyle fun g =>
      { g with
        font := (name.map Value.display).getD g.font
        fontSize := size.getD g.fontSize }
  | (some (.text s), m) | (some (.name s), m) => m.restyle fun g => { g with font := s }
  | (_, m) => m

end VectorPage.Machine
