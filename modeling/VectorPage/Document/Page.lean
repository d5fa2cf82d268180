/-
From a page program to a document.

The document shows the page on a canvas: the bounding box the program
announces, or else a rectangle of a given size. On the page the vertical axis
points up, in the document it points down, so everything stands in one group
that turns it over.
-/
import VectorPage.Document.BoundingBox
import VectorPage.Machine.Run
import VectorPage.Token.Lexer

set_option autoImplicit false

namespace VectorPage

/-! ## The canvas -/

/-- The rectangle that a document shows. -/
structure Canvas where
  x : Float
  y : Float
  width : Float
  height : Float

/-- The canvas of a bounding box. -/
def BoundingBox.canvas (b : BoundingBox) : Canvas :=
  ⟨b.left, b.bottom, b.width, b.height⟩

/-- A canvas of a given size in the corner of the page. -/
def Canvas.ofSize (width height : Float) : Canvas :=
  ⟨0, 0, width, height⟩

namespace Canvas

/-- The attributes that give a document its canvas. -/
def markup (c : Canvas) : String :=
  let size := numberText c.width ++ " " ++ numberText c.height
  attr "viewBox" (numberText c.x ++ " " ++ numberText c.y ++ " " ++ size)
    ++ " " ++ attr "width" (numberText c.width) ++ " " ++ attr "height" (numberText c.height)

/-- The transform that turns the page over. -/
def flip (c : Canvas) : String :=
  "translate(0 " ++ numberText c.height ++ ") scale(1 -1)"

end Canvas

/-! ## The document -/

/-- The definitions of a document; nothing if there are none. -/
def definitionsMarkup (definitions : List String) : String :=
  if definitions.isEmpty then ""
  else "<defs>\n" ++ "\n".intercalate definitions ++ "\n</defs>"

/-- **The document** that shows pieces of markup on a canvas: definitions
first, then shapes, then texts above them. -/
def Fragments.document (f : Fragments) (canvas : Canvas) : String :=
  "<?xml version=\"1.0\" encoding=\"UTF-8\"?>\n"
    ++ "<svg xmlns=\"http://www.w3.org/2000/svg\" " ++ canvas.markup ++ ">\n"
    ++ definitionsMarkup f.definitions ++ "\n"
    ++ "<g " ++ attr "transform" canvas.flip ++ ">\n"
    ++ "\n".intercalate f.shapes ++ "\n" ++ "\n".intercalate f.texts ++ "</g>\n"
    ++ "</svg>"

/-! ## Conversion -/

/-- How a page program is converted. -/
structure Settings where
  limits : Limits := {}
  /-- The width of the canvas of a program without a bounding box. -/
  width : Float := 1920
  /-- The height of such a canvas. -/
  height : Float := 1080
  /-- Fuel for the run; a run that ends does not depend on it. -/
  fuel : Nat := Machine.ampleFuel

namespace Settings

/-- **The picture that a page program draws**; `none` if the run does not end
within the fuel. -/
def picture? (settings : Settings) (source : String) : Option Picture :=
  (Machine.initial.run settings.limits settings.fuel (tokenize source)).map (·.picture)

/-- The canvas of a page program. -/
def canvas (settings : Settings) (source : String) : Canvas :=
  match BoundingBox.find? source with
  | some box => box.canvas
  | none => .ofSize settings.width settings.height

/-- **The document of a page program.** -/
def document? (settings : Settings) (source : String) : Option String :=
  (settings.picture? source).map fun picture =>
    picture.fragments.document (settings.canvas source)

end Settings

end VectorPage
