/-
Values, and the dictionaries they share.

Values are what the operand stack holds and what names are bound to. Numbers,
strings, names, arrays and procedures are values in the plain sense. A
dictionary is a place: two operands can be the same dictionary, an entry made
through one is seen through the other, and a dictionary may contain itself.
So a value holds a reference, and the contents live in a heap that only
grows.
-/
import VectorPage.Literal
import VectorPage.Number.Fixed

set_option autoImplicit false

namespace VectorPage

/-- A reference to a dictionary of the heap. -/
structure DictRef where
  index : Nat
  deriving DecidableEq, Repr

/-- A pattern made by a program: the id of its tile, and the dictionary it
was made from. -/
structure Pattern where
  id : String
  dict : DictRef
  deriving DecidableEq, Repr

/-- A value on the operand stack or in a dictionary. -/
inductive Value where
  | number (x : Float)
  | text (s : String)
  | name (s : String)
  | array (items : List Value)
  | dict (ref : DictRef)
  | procedure (body : List Token)
  | pattern (p : Pattern)

/-- Whether a text is a plain decimal: an optional minus sign, digits, and
optionally a point with or without digits after it. -/
def isPlainDecimal (cs : List Char) : Bool :=
  let unsigned :=
    match cs with
    | '-' :: rest => rest
    | _ => cs
  let (whole, rest) := takeRun isDigit unsigned
  !whole.isEmpty &&
    match rest with
    | [] => true
    | '.' :: fraction => fraction.all isDigit
    | _ => false

/-- The number that a text stands for when it is used as an operand. -/
def textNumber? (s : String) : Option Float :=
  if isPlainDecimal s.toList then Numeral.read? s.toList else none

namespace Value

/-- **The value as a number**: a number, or a text or name that is a plain
decimal. -/
def number? : Value → Option Float
  | number x => some x
  | text s | name s => textNumber? s
  | _ => none

/-- The characters of a text or a name. -/
def string? : Value → Option String
  | text s | name s => some s
  | _ => none

/-- The value as `show` prints it and as a dictionary key. -/
def display : Value → String
  | number x => numberText x
  | text s | name s => s
  | pattern p => p.id
  | array _ | dict _ | procedure _ => "--nostringval--"

/-- The elements of an array as numbers, zero where an element is none. -/
def numbers? : Value → Option (List Float)
  | array items => some (items.map fun item => item.number?.getD 0)
  | _ => none

end Value

/-! ## The heap of dictionaries -/

/-- The entries of a dictionary; each key stands once. -/
abbrev Entries := List (String × Value)

/-- The contents of every dictionary made so far. -/
structure Heap where
  cells : Array Entries

namespace Heap

/-- The entries of a dictionary. -/
def entries (heap : Heap) (ref : DictRef) : Entries :=
  heap.cells.getD ref.index []

/-- The value of a key. -/
def get? (heap : Heap) (ref : DictRef) (key : String) : Option Value :=
  (heap.entries ref).lookup key

/-- A new dictionary. -/
def alloc (heap : Heap) (entries : Entries) : DictRef × Heap :=
  (⟨heap.cells.size⟩, ⟨heap.cells.push entries⟩)

/-- Binds a key in a dictionary. -/
def set (heap : Heap) (ref : DictRef) (key : String) (value : Value) : Heap :=
  ⟨heap.cells.modify ref.index (setEntry key value)⟩

/-! ### Storing a literal

Each dictionary written out in a literal becomes a new dictionary of the
heap, the inner ones first. -/

mutual

/-- The value of a literal, with its dictionaries put on the heap. -/
def store (heap : Heap) : Datum → Value × Heap
  | .number x => (.number x, heap)
  | .text s => (.text s, heap)
  | .name s => (.name s, heap)
  | .procedure body => (.procedure body, heap)
  | .array items =>
    let (values, heap) := storeItems heap [] items
    (.array values, heap)
  | .dict entries =>
    let (entries, heap) := storeEntries heap [] entries
    let (ref, heap) := heap.alloc entries
    (.dict ref, heap)

/-- The values of a list of literals, behind those already stored. -/
def storeItems (heap : Heap) (done : List Value) : List Datum → List Value × Heap
  | [] => (done.reverse, heap)
  | item :: rest =>
    let (value, heap) := store heap item
    storeItems heap (value :: done) rest

/-- The entries of a dictionary, behind those already stored. -/
def storeEntries (heap : Heap) (done : Entries) : List (String × Datum) → Entries × Heap
  | [] => (done.reverse, heap)
  | (key, item) :: rest =>
    let (value, heap) := store heap item
    storeEntries heap ((key, value) :: done) rest

end

end Heap

end VectorPage
