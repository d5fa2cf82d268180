/-
Executing a program.

A step takes one token off the stream. Operands go on the stack, literals and
procedure bodies are collected from the stream, and a name is looked up: a
procedure is called, another value is an operand, and a name bound to nothing
is a built-in operator or is remarked on.

Programs can call themselves forever, so `execute` counts down fuel, one unit
a token, and answers `none` only when that runs out. Fuel is no limit of the
program's own: a run that ends under some fuel ends with the same machine
under more. The limits on operations, calls, literals and patterns are kept
apart from it and leave their mark on the picture.
-/
import VectorPage.Machine.Appearance
import VectorPage.Machine.Construction
import VectorPage.Machine.Operands
import VectorPage.Machine.Painting

set_option autoImplicit false

namespace VectorPage.Machine

/-! ## Operators -/

/-- What a built-in operator does, given the tokens that follow it; making a
pattern is not among these. -/
def operate (m : Machine) (stream : TokenStream) : Operator → Machine
  | .negate => m.negate
  | .add => m.combine 0 0 (· + ·)
  | .subtract => m.combine 0 0 (· - ·)
  | .multiply => m.combine 1 1 (· * ·)
  | .divide => m.combine 0 1 quotient
  | .exchange => m.exchange
  | .duplicate => m.duplicate
  | .newDict => m.newDict
  | .beginDict => m.beginDict
  | .endDict => m.endDict
  | .define => m.bindName
  | .saveGraphics => m.saveGraphics
  | .restoreGraphics => m.restoreGraphics
  | .translate => m.translate
  | .scale => m.scale
  | .rotate => m.rotate
  | .setLineWidth => m.setLineWidth
  | .setLineCap => m.setLineCap
  | .setLineJoin => m.setLineJoin
  | .setDash => m.setDash
  | .setRgbColor => m.setRgbColor
  | .setGray => m.setGray
  | .setCmykColor => m.setCmykColor
  | .setPattern => m.setPattern
  | .newPath => m.dropPath
  | .moveTo => m.moveTo
  | .moveBy => m.moveBy
  | .lineTo => m.lineTo stream
  | .lineBy => m.lineBy
  | .curveTo => m.curveTo
  | .curveBy => m.curveBy
  | .closePath => m.closePath
  | .arc => m.arc
  | .stroke => m.paintPath .lines
  | .fill => m.paintPath .areas
  | .clip => m.clip
  | .shadingFill => m.shadingFill
  | .image => m.showImage
  | .findFont => m.findFont
  | .scaleFont => m.scaleFont
  | .setFont => m.setFont
  | .showText => m.showText
  | .makePattern | .showPage | .setColorSpace | .newMatrix => m

/-- Calls a procedure, or remarks that there is no room for the call. -/
def callProcedure (m : Machine) (limits : Limits) (name : String) (body : List Token)
    (stream : TokenStream) : TokenStream × Machine :=
  match stream.call body limits.calls with
  | (true, stream) => (stream, m)
  | (false, stream) =>
    (stream, (m.remark ("procedure expansion limit reached: " ++ name)).note (.call name))

/-- Executes a name. -/
def executeName (m : Machine) (limits : Limits) (level : Nat)
    (paint : List Token → Option Machine) (name : String) (stream : TokenStream) :
    Option (TokenStream × Machine) :=
  match m.lookup name with
  | some (.procedure body) => some (m.callProcedure limits name body stream)
  | some value => some (stream, m.push value)
  | none =>
    match Operator.ofName? name with
    | some .makePattern => (m.makePattern limits level paint).map fun m => (stream, m)
    | some op => some (stream, m.operate stream op)
    | none => some (stream, m.remark ("Unhandled operator: " ++ name))

/-! ## Steps -/

/-- Puts a literal on the operand stack, its opening bracket read already. -/
def pushLiteral (m : Machine) (limits : Limits) (kind : OpenLiteral) (stream : TokenStream) :
    TokenStream × Machine :=
  let (literal, stream) := literalScanner.run (.start limits.literals kind) stream
  let m :=
    if literal.truncated then (m.remark "literal nesting limit reached").note .literal else m
  let (value, heap) := m.heap.store literal.datum
  (stream, { m with heap := heap }.push value)

/-- **Executes one token** that has been taken off the stream. -/
def step (m : Machine) (limits : Limits) (level : Nat) (paint : List Token → Option Machine)
    (token : Token) (stream : TokenStream) : Option (TokenStream × Machine) :=
  match token with
  | .number text => some (stream, m.push (.number (numeralValue text)))
  | .string s | .hexString s => some (stream, m.push (.text s))
  | .name s => some (stream, m.push (.name s))
  | .openBrace =>
    let (body, stream) := bodyScanner.run .start stream
    some (stream, m.push (.procedure body))
  | .openBracket => some (m.pushLiteral limits (.array []) stream)
  | .openDict => some (m.pushLiteral limits (.dict [] none) stream)
  | .operator name => m.executeName limits level paint name stream
  | .closeBrace | .closeBracket | .closeDict => some (stream, m)

/-! ## Runs -/

/-- The end of a run: a path left over is painted. -/
def finish (m : Machine) : Machine :=
  m.paintPath .lines

/-- The machine when no more tokens may be executed. -/
def stopAtLimit (m : Machine) : Machine :=
  (m.remark "execution limit reached").note .operations

/-- **Executes the tokens of a stream** until they are used up or the limit
on operations is reached. Paint procedures run one level further in, on a
machine of their own. -/
def execute (limits : Limits) : Nat → Nat → TokenStream → Machine → Option Machine
  | 0, _, _, _ => none
  | fuel + 1, level, stream, m =>
    match stream.next with
    | (none, _) => some m
    | (some token, stream) =>
      if limits.operations.any (· ≤ m.executed) then some m.stopAtLimit
      else
        let paint (body : List Token) : Option Machine :=
          (execute limits fuel (level + 1) (.ofTokens body) initial).map finish
        match { m with executed := m.executed + 1 }.step limits level paint token stream with
        | none => none
        | some (stream, m) => execute limits fuel level stream m

/-- **Runs a program** on a machine and paints what is left of the path. A
machine can run several programs one after the other. -/
def run (m : Machine) (limits : Limits) (fuel : Nat) (program : List Token) : Option Machine :=
  (execute limits fuel 0 (.ofTokens program) m).map finish

/-- Fuel for any run that a reader would wait for. -/
def ampleFuel : Nat := 1 <<< 60

end VectorPage.Machine
