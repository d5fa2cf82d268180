/-
Arithmetic, the operand stack and dictionaries.
-/
import VectorPage.Machine.Basic

set_option autoImplicit false

namespace VectorPage.Machine

/-! ## Arithmetic -/

/-- Takes two numbers, the second operand from the top of the stack, and puts
their combination back. -/
def combine (m : Machine) (default₁ default₂ : Float) (f : Float → Float → Float) : Machine :=
  let (y, m) := m.popNumber default₂
  let (x, m) := m.popNumber default₁
  m.push (.number (f x y))

/-- A quotient; division by zero gives zero. -/
def quotient (x y : Float) : Float :=
  if y == 0 then 0 else x / y

/-- The top operand negated; zero if it is no number. -/
def negate (m : Machine) : Machine :=
  let (v, m) := m.pop
  m.push (.number (((v.bind Value.number?).map fun x => -x).getD 0))

/-! ## The stack -/

/-- Swaps the two top operands, if there are two. -/
def exchange (m : Machine) : Machine :=
  match m.operands with
  | u :: v :: rest => { m with operands := v :: u :: rest }
  | _ => m

/-- Repeats the top operand, if there is one. -/
def duplicate (m : Machine) : Machine :=
  match m.operands with
  | v :: rest => { m with operands := v :: v :: rest }
  | [] => m

/-! ## Dictionaries -/

/-- A new dictionary in place of the top operand, which would be its
capacity. -/
def newDict (m : Machine) : Machine :=
  m.pop.2.pushDict []

/-- Makes the dictionary on top of the stack the innermost one; a new one if
the operand is none. -/
def beginDict (m : Machine) : Machine :=
  match m.pop with
  | (some (.dict ref), m) => { m with scopes := ref :: m.scopes }
  | (_, m) =>
    let (ref, heap) := m.heap.alloc []
    { m with heap := heap, scopes := ref :: m.scopes }

/-- Leaves the innermost dictionary, unless it is the global one. -/
def endDict (m : Machine) : Machine :=
  { m with scopes := m.scopes.tail }

/-- Binds a key to a value in the innermost dictionary. Both operands are
taken even if one is missing. -/
def bindName (m : Machine) : Machine :=
  let (value, m) := m.pop
  let (key, m) := m.pop
  match key, value with
  | some key, some value => { m with heap := m.heap.set m.innermost key.display value }
  | _, _ => m

end VectorPage.Machine
