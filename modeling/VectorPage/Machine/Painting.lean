/-
Painting: clips, shadings, patterns, texts and images.

Making a pattern runs its paint procedure on a machine of its own. That run
is handed in as the function `paint`, so that everything here is a plain
function of the machine; `none` from it means that the run was given up.
-/
import VectorPage.Machine.Basic

set_option autoImplicit false

namespace VectorPage.Machine

/-! ## Clips -/

/-- Clips to the path under construction, if it has a segment, and begins a
new one. -/
def clip (m : Machine) : Machine :=
  if m.path.isEmpty then m
  else
    let data := m.path.data
    let (id, m) := m.freshId "clip"
    let m := m.define (.clipPath id data)
    place
      { m with
        graphics := { m.graphics with clips := ⟨id, data⟩ :: m.graphics.clips }
        path := m.path.reset }

/-! ## Shadings -/

/-- An entry of a dictionary as a number. -/
def numberAt? (heap : Heap) (ref : DictRef) (key : String) : Option Float :=
  (heap.get? ref key).bind Value.number?

/-- An entry of a dictionary as a list of numbers. -/
def numbersAt? (heap : Heap) (ref : DictRef) (key : String) : Option (List Float) :=
  (heap.get? ref key).bind Value.numbers?

/-- The colours at the two ends of a shading; white and black where its
function does not say. -/
def endColors (heap : Heap) (shading : DictRef) : Color × Color :=
  let function :=
    match heap.get? shading "Function" with
    | some (.dict ref) => some ref
    | _ => none
  let color (key : String) (default : List Float) : Color :=
    .ofComponents ((function.bind fun ref => numbersAt? heap ref key).getD default)
  (color "C0" [1, 1, 1], color "C1" [0, 0, 0])

/-- The smaller of two numbers; one that is not a number does not count. -/
def smaller (x y : Float) : Float :=
  if x.isNaN then y else if y < x then y else x

/-- The rectangle between two opposite corners. -/
def rectangle (x₁ y₁ x₂ y₂ : Float) : List Segment :=
  let left := smaller x₁ x₂
  let bottom := smaller y₁ y₂
  let right := left + (x₂ - x₁).abs
  let top := bottom + (y₂ - y₁).abs
  [.moveTo left bottom, .lineTo right bottom, .lineTo right top, .lineTo left top, .close]

/-- A circle as two half turns. -/
def circle (x y r : Float) : List Segment :=
  [.moveTo (x + r) y, .arcTo r r 0 true true (x - r) y, .arcTo r r 0 true true (x + r) y, .close]

/-- The gradient and the outline of a shading that runs along an axis (type
2) or between circles (type 3). Other types are not drawn. -/
def shadingParts? (heap : Heap) (shading : DictRef) (id : String) :
    Option (Definition × List Segment) :=
  let (start, stop) := endColors heap shading
  let coords := (numbersAt? heap shading "Coords").getD []
  let coord (i : Nat) : Float := coords.getD i 0
  match numberAt? heap shading "ShadingType" with
  | none => none
  | some type =>
    if type == 2 then
      some (.linearGradient id (coord 0) (coord 1) (coord 2) (coord 3) start stop,
        rectangle (coord 0) (coord 1) (coord 2) (coord 3))
    else if type == 3 then
      some (.radialGradient id start stop, circle (coord 3) (coord 4) (coord 5))
    else none

/-- Paints a shading over its own outline. The path under construction is
dropped, except when the shading is of a type that is not drawn. -/
def shadingFill (m : Machine) : Machine :=
  match m.pop with
  | (some (.dict ref), m) =>
    let (id, m) := m.freshId "grad"
    match shadingParts? m.heap ref id with
    | some (gradient, outline) =>
      ((m.define gradient).draw
        (.path (.drawn outline) m.graphics .areas (some id))).dropPath
    | none => m.remark "shfill not fully implemented"
  | (_, m) => m

/-! ## Patterns -/

/-- The definition of a pattern with a given tile. -/
def patternDefinition (heap : Heap) (ref : DictRef) (id : String) (tile : List Shape) :
    Definition :=
  let box := (numbersAt? heap ref "BBox").getD [0, 0, 20, 20]
  .pattern id (box.getD 0 0) (box.getD 1 0)
    ((numberAt? heap ref "XStep").getD 20) ((numberAt? heap ref "YStep").getD 20) tile

/-- The tile that a finished paint procedure leaves: the paths it painted
outside any group. -/
def tileOf (painted : Machine) : List Shape :=
  painted.picture.shapes.toList.filter Shape.isBarePath

/-- **Makes a pattern** of the dictionary on top of the stack and puts it
there instead. If the dictionary has a paint procedure, it is run by `paint`
and its tile defined; beyond the limit the tile stays empty. -/
def makePattern (m : Machine) (limits : Limits) (level : Nat)
    (paint : List Token → Option Machine) : Option Machine :=
  match m.pop with
  | (some (.dict ref), m) =>
    let (id, m) := m.freshId "pattern"
    let pattern := Value.pattern ⟨id, ref⟩
    match m.heap.get? ref "PaintProc" with
    | some (.procedure body) =>
      if limits.patterns ≤ level then
        some (((m.note (.pattern id)).define (patternDefinition m.heap ref id [])).push pattern)
      else
        (paint body).map fun painted =>
          ({ m with hits := painted.hits ++ m.hits }.define
            (patternDefinition m.heap ref id (tileOf painted))).push pattern
    | _ => some (m.push pattern)
  | (_, m) => some m

/-! ## Texts and images -/

/-- Writes a text where the last move went; without such a place nothing is
written. The path under construction and the place are dropped. -/
def showText (m : Machine) : Machine :=
  let (content, m) := m.popDisplay
  let g := m.graphics
  let m :=
    match g.textPosition with
    | some (x, y) =>
      let (x, y) := g.transform.apply x y
      { m with picture := m.picture.write ⟨x, y, g.font, g.fontSize, g.areaPaint, content⟩ }
    | none => m
  { m with path := m.path.reset, graphics := { g with textPosition := none } }

/-- Puts a placeholder where an image would be. Its operands stay. -/
def showImage (m : Machine) : Machine :=
  (m.remark "image/imagemask not implemented").draw .placeholder

end VectorPage.Machine
