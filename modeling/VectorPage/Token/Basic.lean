/-
Tokens of a page program.

A token is a word of the program with its spelling decoded: escapes in a
string are already resolved, a name has lost its slash. Numbers keep the text
they were written with; their value is read where they are used.
-/
set_option autoImplicit false

namespace VectorPage

/-- A word of a page program. -/
inductive Token where
  /-- A numeral, as written. -/
  | number (text : String)
  /-- A string in parentheses, decoded. -/
  | string (text : String)
  /-- A string written in hexadecimal digits, decoded. -/
  | hexString (text : String)
  /-- A literal name, without its slash. -/
  | name (text : String)
  /-- An executable name. -/
  | operator (text : String)
  | openBrace
  | closeBrace
  | openBracket
  | closeBracket
  | openDict
  | closeDict
  deriving DecidableEq, Repr, Inhabited

namespace Token

/-- The text of a token: the decoded contents, or the spelling of a
bracket. -/
def text : Token → String
  | number s | string s | hexString s | name s | operator s => s
  | openBrace => "\x7b"
  | closeBrace => "\x7d"
  | openBracket => "["
  | closeBracket => "]"
  | openDict => "<<"
  | closeDict => ">>"

/-- The name of an executable token. -/
def operator? : Token → Option String
  | operator s => some s
  | _ => none

end Token

end VectorPage
