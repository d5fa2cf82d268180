/-
The machine that executes a page program, and its elementary moves.

A machine is a plain value: operands, dictionaries, graphics states, the path
under construction and the picture drawn so far. An operand that is missing
or of the wrong kind never stops a program. It is replaced by a default, so
every move below is a total function from machines to machines.
-/
import VectorPage.Operator
import VectorPage.Picture
import VectorPage.Stream

set_option autoImplicit false

namespace VectorPage

/-- Bounds on a run. `none` is no bound. -/
structure Limits where
  /-- How many tokens are executed, in the program and in each paint
  procedure of its own. -/
  operations : Option Nat := none
  /-- How many procedure calls may be open at once. -/
  calls : Option Nat := none
  /-- How deeply paint procedures may make patterns inside patterns. -/
  patterns : Nat := 16
  /-- How many literals may be open at once. -/
  literals : Nat := 256
  deriving DecidableEq, Repr

/-- A limit that cut something short. -/
inductive LimitHit where
  | operations
  | call (name : String)
  | literal
  | pattern (id : String)
  deriving DecidableEq, Repr

/-- The state of a run. -/
structure Machine where
  /-- The operand stack, top first. -/
  operands : List Value := []
  /-- The contents of all dictionaries. The first is the global one. -/
  heap : Heap := ⟨#[[]]⟩
  /-- The global dictionary, which is searched last and never left. -/
  globals : DictRef := ⟨0⟩
  /-- The dictionaries begun and not ended, innermost first. -/
  scopes : List DictRef := []
  graphics : GraphicsState := {}
  /-- The saved graphics states, last one first. -/
  saved : List GraphicsState := []
  path : Path := {}
  /-- The point reached in the coordinates of the program. -/
  point : Point := (0, 0)
  /-- The number of the next id. -/
  nextId : Nat := 0
  picture : Picture := {}
  /-- How many tokens were executed. -/
  executed : Nat := 0
  /-- The limits that were hit, paint procedures included, last one first. -/
  hits : List LimitHit := []

namespace Machine

/-- A machine before any program. -/
def initial : Machine := {}

/-! ## Operands -/

/-- Puts a value on the operand stack. -/
def push (m : Machine) (v : Value) : Machine :=
  { m with operands := v :: m.operands }

/-- Takes the top operand. -/
def pop (m : Machine) : Option Value × Machine :=
  match m.operands with
  | [] => (none, m)
  | v :: rest => (some v, { m with operands := rest })

/-- Takes the top operand as a number; the default stands in for an operand
that is missing or no number. -/
def popNumber (m : Machine) (default : Float) : Float × Machine :=
  let (v, m) := m.pop
  ((v.bind Value.number?).getD default, m)

/-- Takes a point: its vertical coordinate lies on top. -/
def popPoint (m : Machine) : Point × Machine :=
  let (y, m) := m.popNumber 0
  let (x, m) := m.popNumber 0
  ((x, y), m)

/-- Takes the top operand as a text; the empty text stands in for a missing
one. -/
def popDisplay (m : Machine) : String × Machine :=
  let (v, m) := m.pop
  ((v.map Value.display).getD "", m)

/-! ## Dictionaries -/

/-- The dictionary in which names are bound now. -/
def innermost (m : Machine) : DictRef :=
  m.scopes.headD m.globals

/-- The value of a name, from the innermost dictionary outwards. -/
def lookup (m : Machine) (name : String) : Option Value :=
  (m.scopes.findSome? fun ref => m.heap.get? ref name).or (m.heap.get? m.globals name)

/-- Puts a new dictionary on the operand stack. -/
def pushDict (m : Machine) (entries : Entries) : Machine :=
  let (ref, heap) := m.heap.alloc entries
  { m with heap := heap }.push (.dict ref)

/-! ## The picture -/

/-- A fresh id: a word and a number not used before. -/
def freshId (m : Machine) (word : String) : String × Machine :=
  (word ++ Nat.repr m.nextId, { m with nextId := m.nextId + 1 })

/-- Adds a definition to the picture. -/
def define (m : Machine) (d : Definition) : Machine :=
  { m with picture := m.picture.define d }

/-- Adds a shape to the picture. -/
def draw (m : Machine) (s : Shape) : Machine :=
  { m with picture := m.picture.draw s }

/-- Adds a remark to the picture. -/
def remark (m : Machine) (message : String) : Machine :=
  { m with picture := m.picture.remark message }

/-- Notes that a limit was hit. -/
def note (m : Machine) (hit : LimitHit) : Machine :=
  { m with hits := hit :: m.hits }

/-- Lets the path follow a change of the transform or the clip. -/
def place (m : Machine) : Machine :=
  { m with path := { m.path with placement := m.graphics.placement } }

/-- Drops the path under construction. -/
def dropPath (m : Machine) : Machine :=
  { m with path := m.path.reset }

/-- **Paints the path under construction**, if it has a segment, and begins a
new one. -/
def paintPath (m : Machine) (mode : PaintMode) : Machine :=
  if m.path.isEmpty then m
  else (m.draw (.path m.path.data m.graphics mode none)).dropPath

end Machine

end VectorPage
