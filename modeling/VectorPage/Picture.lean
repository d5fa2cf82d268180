/-
Pictures and their markup.

A run draws a picture: definitions that elements refer to, shapes in painting
order, and texts, which lie above all shapes. The picture keeps what was
drawn (segments, the graphics state in force, the paint) and becomes markup
only here. Every number is written by `numberText`. The contents and the font
of a text are escaped; a line cap or a line join stands as it was given.
-/
import VectorPage.Graphics
import VectorPage.Text.Markup

set_option autoImplicit false

namespace VectorPage

/-! ## What is drawn -/

/-- Which parts of a path are painted. -/
structure PaintMode where
  stroke : Bool
  fill : Bool
  deriving DecidableEq, Repr

/-- Lines only. -/
def PaintMode.lines : PaintMode := ⟨true, false⟩

/-- Areas only. -/
def PaintMode.areas : PaintMode := ⟨false, true⟩

/-- A shape of the picture. -/
inductive Shape where
  /-- A path, painted under a graphics state. If `fillRef` names a
  definition, areas are painted with that instead of the state's paint. -/
  | path (data : PathData) (look : GraphicsState) (mode : PaintMode) (fillRef : Option String)
  /-- A remark for the reader of the markup. -/
  | comment (message : String)
  /-- What stands in the place of an image. -/
  | placeholder

/-- A definition that shapes and texts refer to by its id. -/
inductive Definition where
  | clipPath (id : String) (data : PathData)
  | linearGradient (id : String) (x₁ y₁ x₂ y₂ : Float) (start stop : Color)
  | radialGradient (id : String) (start stop : Color)
  | pattern (id : String) (x y width height : Float) (tile : List Shape)

/-- The id of a definition. -/
def Definition.id : Definition → String
  | clipPath id _ => id
  | linearGradient id _ _ _ _ _ _ => id
  | radialGradient id _ _ => id
  | pattern id _ _ _ _ _ => id

/-- A text of the picture. -/
structure TextElement where
  x : Float
  y : Float
  font : String
  fontSize : Float
  fill : Paint
  content : String

/-- A picture. -/
structure Picture where
  definitions : Array Definition := #[]
  shapes : Array Shape := #[]
  texts : Array TextElement := #[]

namespace Picture

/-- Adds a definition. -/
def define (p : Picture) (d : Definition) : Picture :=
  { p with definitions := p.definitions.push d }

/-- Adds a shape. -/
def draw (p : Picture) (s : Shape) : Picture :=
  { p with shapes := p.shapes.push s }

/-- Adds a remark. -/
def remark (p : Picture) (message : String) : Picture :=
  p.draw (.comment message)

/-- Adds a text. -/
def write (p : Picture) (t : TextElement) : Picture :=
  { p with texts := p.texts.push t }

end Picture

/-! ## Markup -/

/-- An attribute with its value, which is taken as it stands. -/
def attr (name value : String) : String :=
  name ++ "=\"" ++ value ++ "\""

/-- Whether a number is far enough from zero to be worth writing. -/
def isNoticeable (x : Float) : Bool :=
  x.abs > 1e-6

/-- **The text of a transform**: translation, rotation and scaling in that
order, each only where it does something. Skew is not written. -/
def transformText (m : Affine Float) : String :=
  let parts := m.parts
  let (tx, ty) := parts.translation
  let (sx, sy) := parts.scaling
  let translation :=
    if isNoticeable tx || isNoticeable ty then
      ["translate(" ++ numberText tx ++ " " ++ numberText ty ++ ")"]
    else []
  let rotation :=
    if isNoticeable parts.rotation then ["rotate(" ++ numberText parts.rotation ++ ")"] else []
  let scaling :=
    if isNoticeable (sx - 1) || isNoticeable (sy - 1) then
      ["scale(" ++ numberText sx ++ " " ++ numberText sy ++ ")"]
    else []
  " ".intercalate (translation ++ rotation ++ scaling)

/-- The attributes of a line that differ from what holds without them. -/
def lineAttributes (g : GraphicsState) : List String :=
  (if g.lineWidth == 1 then [] else [attr "stroke-width" (numberText g.lineWidth)])
    ++ (if g.lineCap = "butt" then [] else [attr "stroke-linecap" g.lineCap])
    ++ (if g.lineJoin = "miter" then [] else [attr "stroke-linejoin" g.lineJoin])
    ++ (match g.dash with
        | some dash => if dash = "" then [] else [attr "stroke-dasharray" dash]
        | none => [])

/-- The attributes of a path element, except for its clip. -/
def pathAttributes (data : PathData) (g : GraphicsState) (mode : PaintMode)
    (fillRef : Option String) : List String :=
  let fillColor := if mode.fill then g.areaPaint.text else "none"
  let fill :=
    match fillRef with
    | some id => resourceText id
    | none => fillColor
  let stroke :=
    if mode.stroke && g.linePaint.text != "none" then
      attr "stroke" g.linePaint.text :: lineAttributes g
    else if fillColor != "none" then [attr "stroke" "none"]
    else []
  attr "d" data.text :: attr "fill" fill :: stroke

/-- The attribute that clips an element to the innermost clip. -/
def clipAttribute (g : GraphicsState) : String :=
  match g.clips with
  | layer :: _ => " " ++ attr "clip-path" (resourceText layer.id)
  | [] => ""

/-- **The markup of a path.** Under a transform or a clip it stands in a
group that carries them. -/
def pathMarkup (data : PathData) (g : GraphicsState) (mode : PaintMode)
    (fillRef : Option String) : String :=
  let attributes := " ".intercalate (pathAttributes data g mode fillRef)
  if g.needsGroup then
    let transform := transformText g.transform
    let carried := if transform = "" then "" else " " ++ attr "transform" transform
    "<g" ++ carried ++ clipAttribute g ++ "><path " ++ attributes ++ " /></g>"
  else "<path " ++ attributes ++ clipAttribute g ++ " />"

/-- The image shown in place of one that is not decoded. -/
def placeholderSource : String :=
  "data:image/svg+xml;base64,PHN2ZyB4bWxucz0iaHR0cDovL3d3dy53My5vcmcvMjAwMC9zdmciIHdpZHRoPS"
    ++ "I1MTIiIGhlaWdodD0iNTEyIj4KICA8dGV4dCB4PSIyNCIgeT0iMTk4IiBmaWxsPSJ3aGl0ZSIgZm9udC1zaXplPS"
    ++ "IxMjgiPkltYWdlbTwvdGV4dD4KICA8dGV4dCB4PSIyNCIgeT0iMjk4IiBmaWxsPSJ3aGl0ZSIgZm9udC1zaXplPS"
    ++ "IxMjgiPk5vdDwvdGV4dD4KICA8dGV4dCB4PSIyNCIgeT0iMzk4IiBmaWxsPSJ3aGl0ZSIgZm9udC1zaXplPSIxMj"
    ++ "giPkZvdW5kPC90ZXh0Pgo8L3N2Zz4K"

/-- The markup of a shape. -/
def Shape.markup : Shape → String
  | path data look mode fillRef => pathMarkup data look mode fillRef
  | comment message => commentMarkup message
  | placeholder =>
    "<image transform=\"scale(1 -1)\" x=\"10\" y=\"-320\" width=\"50\" height=\"50\" "
      ++ attr "href" placeholderSource ++ " />"

/-- Whether a shape is a path element of its own, outside any group. -/
def Shape.isBarePath : Shape → Bool
  | path _ look _ _ => !look.needsGroup
  | comment _ | placeholder => false

/-- The two ends of a gradient. -/
def stopsMarkup (start stop : Color) : String :=
  "<stop offset=\"0\" " ++ attr "stop-color" start.text ++ " />\n"
    ++ "<stop offset=\"1\" " ++ attr "stop-color" stop.text ++ " />"

/-- The markup of a definition. -/
def Definition.markup : Definition → String
  | clipPath id data =>
    "<clipPath " ++ attr "id" id ++ "><path " ++ attr "d" data.text ++ " /></clipPath>"
  | linearGradient id x₁ y₁ x₂ y₂ start stop =>
    "<linearGradient " ++ attr "id" id
      ++ " " ++ attr "x1" (numberText x₁ ++ "%") ++ " " ++ attr "y1" (numberText y₁ ++ "%")
      ++ " " ++ attr "x2" (numberText x₂ ++ "%") ++ " " ++ attr "y2" (numberText y₂ ++ "%")
      ++ ">\n" ++ stopsMarkup start stop ++ "\n</linearGradient>"
  | radialGradient id start stop =>
    "<radialGradient " ++ attr "id" id ++ ">\n" ++ stopsMarkup start stop
      ++ "\n</radialGradient>"
  | pattern id x y width height tile =>
    "<pattern " ++ attr "id" id
      ++ " " ++ attr "x" (numberText x) ++ " " ++ attr "y" (numberText y)
      ++ " " ++ attr "width" (numberText width) ++ " " ++ attr "height" (numberText height)
      ++ " " ++ attr "patternUnits" "userSpaceOnUse" ++ ">\n"
      ++ "\n".intercalate (tile.map Shape.markup) ++ "\n</pattern>"

/-- The markup of a text. The page is drawn with its vertical axis upward, so
a text is turned over once more to stand upright. -/
def TextElement.markup (t : TextElement) : String :=
  "<text transform=\"scale(1 -1)\" " ++ attr "x" (numberText t.x)
    ++ " " ++ attr "y" (numberText (-t.y)) ++ " " ++ attr "font-family" (escape t.font)
    ++ " " ++ attr "font-size" (numberText t.fontSize) ++ " " ++ attr "fill" t.fill.text
    ++ " " ++ attr "stroke" "none" ++ ">" ++ escape t.content ++ "</text>"

/-- The pieces of markup of a picture. -/
structure Fragments where
  definitions : List String := []
  shapes : List String := []
  texts : List String := []
  deriving DecidableEq, Repr

/-- Whether there is no piece at all. -/
def Fragments.isEmpty (f : Fragments) : Bool :=
  f.definitions.isEmpty && f.shapes.isEmpty && f.texts.isEmpty

/-- **The markup of a picture**, piece by piece. -/
def Picture.fragments (p : Picture) : Fragments where
  definitions := p.definitions.toList.map Definition.markup
  shapes := p.shapes.toList.map Shape.markup
  texts := p.texts.toList.map TextElement.markup

end VectorPage
