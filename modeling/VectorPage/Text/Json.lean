/-
JSON text of lists of strings, laid out over lines.

Control characters are escaped, by a letter where JSON has one and by four
hexadecimal digits otherwise; quotes and backslashes are escaped, and all
other characters stand for themselves.
-/
set_option autoImplicit false

namespace VectorPage

/-- A lower-case hexadecimal digit. -/
def hexDigitChar (d : Nat) : Char :=
  if d < 10 then Char.ofNat (48 + d) else Char.ofNat (87 + d)

/-- The spelling of a character in a JSON string. -/
def jsonChar (c : Char) : List Char :=
  match c with
  | '"' => ['\\', '"']
  | '\\' => ['\\', '\\']
  | '\x08' => ['\\', 'b']
  | '\x0c' => ['\\', 'f']
  | '\n' => ['\\', 'n']
  | '\r' => ['\\', 'r']
  | '\t' => ['\\', 't']
  | c =>
    if c.toNat < 32 then
      ['\\', 'u', '0', '0', hexDigitChar (c.toNat / 16), hexDigitChar (c.toNat % 16)]
    else [c]

/-- A JSON string. -/
def jsonString (s : String) : String :=
  String.ofList ('"' :: (s.toList.flatMap jsonChar ++ ['"']))

/-- A list of strings as the value of a key, one string a line. -/
def jsonField (key : String) (items : List String) : String :=
  let value :=
    if items.isEmpty then "[]"
    else "[\n" ++ ",\n".intercalate (items.map fun s => "    " ++ jsonString s) ++ "\n  ]"
  "  " ++ jsonString key ++ ": " ++ value

/-- An object of lists of strings. -/
def jsonObject (fields : List (String × List String)) : String :=
  "\x7b\n" ++ ",\n".intercalate (fields.map fun (key, items) => jsonField key items) ++ "\n\x7d"

end VectorPage
