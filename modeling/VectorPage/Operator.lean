/-
The built-in operators and their names.

Two classes of operators matter to a line that has just been drawn: those
that would change how it is painted, and those that would go on from its end.
-/
set_option autoImplicit false

namespace VectorPage

/-- A built-in operator. -/
inductive Operator where
  -- arithmetic and the operand stack
  | negate
  | add
  | subtract
  | multiply
  | divide
  | exchange
  | duplicate
  -- dictionaries
  | newDict
  | beginDict
  | endDict
  | define
  -- the graphics state
  | saveGraphics
  | restoreGraphics
  | translate
  | scale
  | rotate
  | setLineWidth
  | setLineCap
  | setLineJoin
  | setDash
  | setRgbColor
  | setGray
  | setCmykColor
  | setColorSpace
  | setPattern
  -- building a path
  | newPath
  | moveTo
  | moveBy
  | lineTo
  | lineBy
  | curveTo
  | curveBy
  | closePath
  | arc
  -- painting
  | stroke
  | fill
  | clip
  | shadingFill
  | makePattern
  | image
  -- fonts and text
  | findFont
  | scaleFont
  | setFont
  | showText
  -- accepted, without effect
  | showPage
  | newMatrix
  deriving DecidableEq, Repr

namespace Operator

/-- The operator of a name. Some operators have more than one name. -/
def ofName? : String → Option Operator
  | "neg" => some negate
  | "add" => some add
  | "sub" => some subtract
  | "mul" => some multiply
  | "div" => some divide
  | "exch" => some exchange
  | "dup" => some duplicate
  | "dict" => some newDict
  | "begin" => some beginDict
  | "end" => some endDict
  | "def" => some define
  | "gsave" => some saveGraphics
  | "grestore" | "restore" => some restoreGraphics
  | "translate" => some translate
  | "scale" => some scale
  | "rotate" => some rotate
  | "setlinewidth" => some setLineWidth
  | "setlinecap" => some setLineCap
  | "setlinejoin" => some setLineJoin
  | "setdash" => some setDash
  | "setrgbcolor" => some setRgbColor
  | "setgray" => some setGray
  | "setcmykcolor" => some setCmykColor
  | "setcolorspace" => some setColorSpace
  | "setpattern" => some setPattern
  | "newpath" => some newPath
  | "moveto" => some moveTo
  | "rmoveto" => some moveBy
  | "lineto" => some lineTo
  | "rlineto" => some lineBy
  | "curveto" => some curveTo
  | "rcurveto" => some curveBy
  | "closepath" => some closePath
  | "arc" => some arc
  | "stroke" => some stroke
  | "fill" | "eofill" | "evenodd" => some fill
  | "clip" => some clip
  | "shfill" => some shadingFill
  | "makepattern" => some makePattern
  | "image" | "imagemask" => some image
  | "findfont" => some findFont
  | "scalefont" => some scaleFont
  | "setfont" => some setFont
  | "show" => some showText
  | "showpage" => some showPage
  | "matrix" => some newMatrix
  | _ => none

/-- Whether the operator changes how a line not yet painted would look. -/
def restyles : Operator → Bool
  | setRgbColor | setGray | setCmykColor | setLineWidth | setLineCap | setLineJoin | setDash
  | translate | scale | rotate => true
  | _ => false

/-- Whether the operator goes on from the end of the current subpath. -/
def extendsPath : Operator → Bool
  | lineTo | curveTo | lineBy | curveBy => true
  | _ => false

end Operator

end VectorPage
