/-
Paths and file names as text.
-/
set_option autoImplicit false

namespace VectorPage

/-- The parts of a text between slashes. -/
def splitSlashes (cs : List Char) : List (List Char) :=
  cs.foldr
    (fun c parts =>
      if c = '/' then [] :: parts
      else
        match parts with
        | part :: rest => (c :: part) :: rest
        | [] => [[c]])
    [[]]

/-- **The components of a path**: the names between its slashes. -/
def pathComponents (path : String) : List String :=
  ((splitSlashes path.toList).filter fun part => !part.isEmpty).map String.ofList

/-- Whether a path ends with a slash and so must be a directory. -/
def endsWithSlash (path : String) : Bool :=
  path.toList.getLast? == some '/'

/-- The path of a name in a directory. -/
def joinPath (dir name : String) : String :=
  if dir.isEmpty || endsWithSlash dir then dir ++ name else dir ++ "/" ++ name

/-- The text before the last dot and the text after it. There is no such dot
if nothing stands before it. -/
def splitExtension? (name : String) : Option (String × String) :=
  let reversed := name.toList.reverse
  let after := reversed.takeWhile (· != '.')
  match reversed.drop after.length with
  | '.' :: before =>
    if before.isEmpty then none
    else some (String.ofList before.reverse, String.ofList after.reverse)
  | _ => none

/-- A letter in lower case; other characters as they are. -/
def lowerLetter (c : Char) : Char :=
  if 'A' ≤ c && c ≤ 'Z' then Char.ofNat (c.toNat + 32) else c

/-- Whether a name is that of a page program: its extension is `ps` or `eps`
in letters of either case. -/
def isProgramName (name : String) : Bool :=
  match splitExtension? name with
  | some (_, extension) =>
    let lower := extension.toList.map lowerLetter
    lower == "ps".toList || lower == "eps".toList
  | none => false

/-- The name of the document made from a page program: the extension becomes
`svg`. -/
def documentName (name : String) : String :=
  match splitExtension? name with
  | some (stem, _) => stem ++ ".svg"
  | none => name ++ ".svg"

end VectorPage
