/-
Text inside markup: character data, attribute values and comments.

Five characters have entities, and `escape` replaces exactly those. A comment
must not hold two hyphens in a row; `partHyphens` puts a space into each pair
it meets, reading from the left and never looking at a hyphen twice.
-/
set_option autoImplicit false

namespace VectorPage

/-- The spelling of a character in markup: an entity for the ampersand, the
angle brackets and the quotes, the character itself for all others. -/
def entity (c : Char) : List Char :=
  match c with
  | '&' => "&amp;".toList
  | '<' => "&lt;".toList
  | '>' => "&gt;".toList
  | '"' => "&quot;".toList
  | '\'' => "&#x27;".toList
  | _ => [c]

/-- **Text as markup**, every character by its spelling. -/
def escape (s : String) : String :=
  String.ofList (s.toList.flatMap entity)

/-- The characters read so far, last one first, after one more pass over the
rest: two hyphens in a row come apart. -/
def partHyphensOnto (done : List Char) : List Char → List Char
  | '-' :: '-' :: rest => partHyphensOnto ('-' :: ' ' :: '-' :: done) rest
  | c :: rest => partHyphensOnto (c :: done) rest
  | [] => done.reverse

/-- Two hyphens in a row, taken in pairs from the left, written with a space
between. -/
def partHyphens (s : String) : String :=
  String.ofList (partHyphensOnto [] s.toList)

/-- A comment that holds a message. -/
def commentMarkup (message : String) : String :=
  "<!-- " ++ partHyphens message ++ " -->"

end VectorPage
