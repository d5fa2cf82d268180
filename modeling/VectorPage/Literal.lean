/-
Procedure bodies and literals.

A procedure is the run of tokens up to the brace that matches one already
read. A literal is an array or a dictionary written out in the program. Its
parts are collected on a stack of literals that are still open, innermost
first, so nesting costs no recursion.

Inside an array every number, string and name is an element; braces,
operators and dictionary brackets are passed over. Inside a dictionary a name
is a key when none is waiting, and the next value completes the entry; an
operator counts as a value only then. A literal nested deeper than the limit
is passed over up to the bracket that balances it. What is still open when
the tokens run out is closed there.
-/
import VectorPage.Association
import VectorPage.Number.Numeral
import VectorPage.Stream

set_option autoImplicit false

namespace VectorPage

/-- The value of a numeric token. -/
def numeralValue (text : String) : Float :=
  (Numeral.read? text.toList).getD 0

/-! ## Procedure bodies -/

/-- A body under collection: the braces open inside it, and its tokens, last
one first. -/
structure BodyScan where
  depth : Nat
  tokens : List Token

namespace BodyScan

/-- Nothing collected yet. -/
def start : BodyScan := ⟨0, []⟩

/-- One more token. The closing brace that matches ends the body and is not
part of it. -/
def step (scan : BodyScan) (token : Token) : Scan BodyScan (List Token) :=
  match token with
  | .openBrace => .more ⟨scan.depth + 1, token :: scan.tokens⟩
  | .closeBrace =>
    match scan.depth with
    | 0 => .done scan.tokens.reverse
    | depth + 1 => .more ⟨depth, token :: scan.tokens⟩
  | _ => .more ⟨scan.depth, token :: scan.tokens⟩

end BodyScan

/-- Collects a procedure body; without its closing brace it runs to the end
of the tokens. -/
def bodyScanner : Scanner BodyScan (List Token) where
  step := BodyScan.step
  finish := fun scan => scan.tokens.reverse

/-! ## Literals -/

/-- What a literal writes out. A dictionary lists each key once. -/
inductive Datum where
  | number (value : Float)
  | text (s : String)
  | name (s : String)
  | procedure (body : List Token)
  | array (items : List Datum)
  | dict (entries : List (String × Datum))

/-- A literal that is not closed yet. -/
inductive OpenLiteral where
  /-- The elements so far, last one first. -/
  | array (items : List Datum)
  /-- The entries so far, and the key that waits for its value. -/
  | dict (entries : List (String × Datum)) (key : Option String)

namespace OpenLiteral

/-- The literal as far as it goes; a key without a value is dropped. -/
def close : OpenLiteral → Datum
  | array items => .array items.reverse
  | dict entries _ => .dict entries

/-- Adds a value; a dictionary without a waiting key drops it. -/
def add (value : Datum) : OpenLiteral → OpenLiteral
  | array items => array (value :: items)
  | dict entries (some key) => dict (setEntry key value entries) none
  | dict entries none => dict entries none

end OpenLiteral

/-- What the scanner of a literal is doing. -/
inductive LiteralMode where
  /-- Reading the elements of the innermost open literal. -/
  | reading
  /-- Collecting a procedure that will be an entry. -/
  | procedure (scan : BodyScan)
  /-- Passing over a literal that is nested too deeply, with this many
  brackets still open besides its own. -/
  | skipping (brackets : Nat)
  /-- Passing over a procedure inside such a literal. -/
  | skippingProcedure (brackets : Nat) (scan : BodyScan)

/-- A literal under collection: the innermost open literal, those around it
from the inside out, how many more may be opened, and whether anything was
passed over for its depth. -/
structure LiteralScan where
  inner : OpenLiteral
  outer : List OpenLiteral
  room : Nat
  mode : LiteralMode
  truncated : Bool

/-- A collected literal, and whether parts of it were nested too deeply. -/
structure Literal where
  datum : Datum
  truncated : Bool

namespace LiteralScan

/-- A literal whose opening bracket has just been read. At most `limit` may
be open at once; this one always is. -/
def start (limit : Nat) (kind : OpenLiteral) : LiteralScan :=
  ⟨kind, [], limit - 1, .reading, false⟩

/-- Adds a value to the innermost literal. -/
def add (scan : LiteralScan) (value : Datum) : LiteralScan :=
  { scan with inner := scan.inner.add value, mode := .reading }

/-- Opens a literal inside the innermost one, or begins to pass over it when
there is no room. -/
def nest (scan : LiteralScan) (kind : OpenLiteral) : LiteralScan :=
  match scan.room with
  | 0 => { scan with mode := .skipping 0, truncated := true }
  | room + 1 => { scan with inner := kind, outer := scan.inner :: scan.outer, room := room }

/-- Closes the innermost literal: it becomes a value of the one around it, or
the result when there is none. -/
def closeInner (scan : LiteralScan) : Scan LiteralScan Literal :=
  match scan.outer with
  | [] => .done ⟨scan.inner.close, scan.truncated⟩
  | parent :: outer =>
    .more
      { scan with
        inner := parent.add scan.inner.close
        outer := outer
        room := scan.room + 1 }

/-- One token read inside an array. -/
def stepArray (scan : LiteralScan) : Token → Scan LiteralScan Literal
  | .number text => .more (scan.add (.number (numeralValue text)))
  | .string s | .hexString s => .more (scan.add (.text s))
  | .name s => .more (scan.add (.name s))
  | .openBracket => .more (scan.nest (.array []))
  | .closeBracket => scan.closeInner
  | .operator _ | .openBrace | .closeBrace | .openDict | .closeDict => .more scan

/-- One token read inside a dictionary. -/
def stepDict (scan : LiteralScan) (entries : List (String × Datum)) (key : Option String) :
    Token → Scan LiteralScan Literal
  | .number text => .more (scan.add (.number (numeralValue text)))
  | .string s | .hexString s => .more (scan.add (.text s))
  | .name s =>
    match key with
    | none => .more { scan with inner := .dict entries (some s) }
    | some _ => .more (scan.add (.name s))
  | .operator s =>
    match key with
    | none => .more scan
    | some _ => .more (scan.add (.name s))
  | .openBrace => .more { scan with mode := .procedure .start }
  | .openBracket => .more (scan.nest (.array []))
  | .openDict => .more (scan.nest (.dict [] none))
  | .closeDict => scan.closeInner
  | .closeBrace | .closeBracket => .more scan

/-- One token of a literal that is passed over. Any closing bracket balances
any opening one. -/
def stepSkipping (scan : LiteralScan) (brackets : Nat) : Token → LiteralScan
  | .openBracket | .openDict => { scan with mode := .skipping (brackets + 1) }
  | .closeBracket | .closeDict =>
    match brackets with
    | 0 => { scan with mode := .reading }
    | brackets + 1 => { scan with mode := .skipping brackets }
  | .openBrace => { scan with mode := .skippingProcedure brackets .start }
  | _ => scan

/-- **One token of a literal.** -/
def step (scan : LiteralScan) (token : Token) : Scan LiteralScan Literal :=
  match scan.mode with
  | .reading =>
    match scan.inner with
    | .array _ => scan.stepArray token
    | .dict entries key => scan.stepDict entries key token
  | .procedure body =>
    match body.step token with
    | .more body => .more { scan with mode := .procedure body }
    | .done tokens => .more (scan.add (.procedure tokens))
  | .skipping brackets => .more (scan.stepSkipping brackets token)
  | .skippingProcedure brackets body =>
    match body.step token with
    | .more body => .more { scan with mode := .skippingProcedure brackets body }
    | .done _ => .more { scan with mode := .skipping brackets }

/-- Closes what is open from the inside out. -/
def closeAll : OpenLiteral → List OpenLiteral → Datum
  | inner, [] => inner.close
  | inner, parent :: outer => closeAll (parent.add inner.close) outer

/-- The literal when the tokens run out: a procedure under collection ends
there, and so does every open literal. -/
def finish (scan : LiteralScan) : Literal :=
  let ended :=
    match scan.mode with
    | .procedure body => scan.add (.procedure (bodyScanner.finish body))
    | _ => scan
  ⟨closeAll ended.inner ended.outer, ended.truncated⟩

end LiteralScan

/-- **The scanner of literals.** -/
def literalScanner : Scanner LiteralScan Literal where
  step := LiteralScan.step
  finish := LiteralScan.finish

end VectorPage
