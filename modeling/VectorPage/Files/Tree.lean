/-
A tree of files and directories, as a value.

The tree is a map from places to nodes. A place is reached from the root of
all files or from the working directory, where relative paths begin, or from
a directory some levels above that one. What the working directory is called
there is not known to the tree. Paths are followed the way a file system does
it: every component must be reached through a directory, `.` stays, `..` goes
up, a trailing slash asks for a directory, and names and paths have a
greatest length. There are no links. The faults are those of a file system,
with its texts and numbers.
-/
import VectorPage.Association
import VectorPage.Files.Name

set_option autoImplicit false

namespace VectorPage

/-- Why a file operation was not done. -/
inductive Fault where
  | missing
  | alreadyThere
  | notDirectory
  | isDirectory
  | nameTooLong
  /-- No path holds the character with code zero. -/
  | zeroInPath
  /-- Any other reason, in words. -/
  | other (message : String)
  deriving DecidableEq, Repr

/-- The text of a fault. -/
def Fault.message : Fault → String
  | missing => "No such file or directory (os error 2)"
  | alreadyThere => "File exists (os error 17)"
  | notDirectory => "Not a directory (os error 20)"
  | isDirectory => "Is a directory (os error 21)"
  | nameTooLong => "File name too long (os error 36)"
  | zeroInPath => "file name contained an unexpected NUL byte"
  | other message => message

/-- What stands at a place. -/
inductive Node where
  | directory
  | file (octets : List UInt8)
  deriving DecidableEq, Repr

/-- A directory from which places are counted. -/
inductive Base where
  /-- The root of all files. -/
  | root
  /-- The directory so many levels above the working directory. -/
  | above (levels : Nat)
  deriving DecidableEq, Repr

/-- A place in a tree: the names that lead to it from a base. -/
structure Place where
  base : Base
  names : List String
  deriving DecidableEq, Repr

namespace Place

/-- The working directory. -/
def here : Place := ⟨.above 0, []⟩

/-- The root of all files. -/
def root : Place := ⟨.root, []⟩

/-- The place of a name in the directory at a place. -/
def child (place : Place) (name : String) : Place :=
  { place with names := place.names ++ [name] }

/-- The directory around a place; the root is its own. -/
def parent (place : Place) : Place :=
  match place.base, place.names with
  | .root, [] => root
  | .above levels, [] => ⟨.above (levels + 1), []⟩
  | base, names => ⟨base, names.dropLast⟩

/-- Where a path begins. -/
def startOf (path : String) : Place :=
  if path.toList.head? == some '/' then root else here

end Place

/-- A tree of files. Bases are always directories. -/
structure FileTree where
  nodes : List (Place × Node) := []
  deriving DecidableEq, Repr

namespace FileTree

/-- What stands at a place. -/
def node? (tree : FileTree) (place : Place) : Option Node :=
  if place.names = [] then some .directory else tree.nodes.lookup place

/-- The tree with a node put at a place. -/
def put (tree : FileTree) (place : Place) (node : Node) : FileTree :=
  ⟨setEntry place node tree.nodes⟩

/-- The names in the directory at a place. -/
def namesIn (tree : FileTree) (place : Place) : List String :=
  tree.nodes.filterMap fun (p, _) =>
    if p.base = place.base ∧ p.names.dropLast = place.names then p.names.getLast? else none

/-! ## Following paths -/

/-- The greatest number of octets in a name. -/
def nameLimit : Nat := 255

/-- The greatest number of octets in a path. -/
def pathLimit : Nat := 4095

/-- Refuses a text that no operation takes for a path. -/
def checkPath (path : String) : Except Fault Unit := do
  if path.toList.contains '\x00' then throw .zeroInPath
  if path.isEmpty then throw .missing
  if pathLimit < path.utf8ByteSize then throw .nameTooLong

/-- The place of a name in the directory at a place, if the name is not too
long. -/
def childOf (place : Place) (name : String) : Except Fault Place :=
  if nameLimit < name.utf8ByteSize then .error .nameTooLong else .ok (place.child name)

/-- One component from a directory. -/
def follow (place : Place) (component : String) : Except Fault Place :=
  if component = "." then .ok place
  else if component = ".." then .ok place.parent
  else childOf place component

/-- Follows components from a place. All but the last place must be
directories. -/
def walk (tree : FileTree) : Place → List String → Except Fault Place
  | place, [] => .ok place
  | place, component :: rest =>
    match tree.node? place with
    | some .directory =>
      match follow place component with
      | .ok next => walk tree next rest
      | .error fault => .error fault
    | some (.file _) => .error .notDirectory
    | none => .error .missing

/-- What a path leads to. -/
def find (tree : FileTree) (path : String) : Except Fault Node := do
  checkPath path
  let asDirectory := if endsWithSlash path then ["."] else []
  let place ← tree.walk (.startOf path) (pathComponents path ++ asDirectory)
  match tree.node? place with
  | some node => return node
  | none => throw .missing

/-- Whether a path leads to anything. -/
def pathExists (tree : FileTree) (path : String) : Bool :=
  (tree.find path).toOption.isSome

/-- Whether a path leads to a directory. -/
def isDirectory (tree : FileTree) (path : String) : Bool :=
  (tree.find path).toOption == some .directory

/-- Whether a path leads to a file. -/
def isFile (tree : FileTree) (path : String) : Bool :=
  match tree.find path with
  | .ok (.file _) => true
  | _ => false

/-! ## Reading -/

/-- The contents of a file. -/
def read (tree : FileTree) (path : String) : Except Fault (List UInt8) := do
  match ← tree.find path with
  | .file octets => return octets
  | .directory => throw .isDirectory

/-- The names in a directory. -/
def list (tree : FileTree) (path : String) : Except Fault (List String) := do
  checkPath path
  let place ← tree.walk (.startOf path) (pathComponents path ++ ["."])
  return tree.namesIn place

/-! ## Writing -/

/-- Writes a file, replacing one that is there. The directory it goes into
must exist. -/
def write (tree : FileTree) (path : String) (octets : List UInt8) : Except Fault FileTree := do
  checkPath path
  match (pathComponents path).reverse with
  | [] => throw .isDirectory
  | name :: parents =>
    let dir ← tree.walk (.startOf path) (parents.reverse ++ ["."])
    if name = "." || name = ".." || endsWithSlash path then throw .isDirectory
    let place ← childOf dir name
    match tree.node? place with
    | some .directory => throw .isDirectory
    | _ => return tree.put place (.file octets)

/-- Makes a directory inside one that exists. The way to it begins at
`start`. -/
def makeDirectory (tree : FileTree) (start : Place) (parents : List String) (name : String) :
    Except Fault FileTree := do
  let dir ← tree.walk start (parents ++ ["."])
  if name = "." || name = ".." then throw .alreadyThere
  let place ← childOf dir name
  match tree.node? place with
  | some _ => throw .alreadyThere
  | none => return tree.put place .directory

/-- Makes a directory, or is content with one that is there. -/
def ensureDirectory (tree : FileTree) (start : Place) (parents : List String) (name : String) :
    Except Fault FileTree :=
  match tree.makeDirectory start parents name with
  | .ok tree => .ok tree
  | .error fault =>
    match tree.walk start (parents ++ [name, "."]) with
    | .ok _ => .ok tree
    | .error _ => .error fault

/-- Makes a directory and those above it that are missing; the components
come last one first. What was made stays, also when a later one fails. -/
def ensureAll (tree : FileTree) (start : Place) : List String → Except Fault Unit × FileTree
  | [] => (.ok (), tree)
  | name :: parents =>
    match tree.ensureDirectory start parents.reverse name with
    | .ok tree => (.ok (), tree)
    | .error .missing =>
      match ensureAll tree start parents with
      | (.ok (), tree) =>
        match tree.ensureDirectory start parents.reverse name with
        | .ok tree => (.ok (), tree)
        | .error fault => (.error fault, tree)
      | failed => failed
    | .error fault => (.error fault, tree)

/-- **Makes a directory with all directories above it.** The empty path asks
for nothing. A path that ends in `.` stands for a directory through what it
holds: those above it are made, but the directory itself must be there. -/
def makeDirectories (tree : FileTree) (path : String) : Except Fault Unit × FileTree :=
  if path.isEmpty then (.ok (), tree)
  else
    match checkPath path with
    | .error fault => (.error fault, tree)
    | .ok () =>
      let start := Place.startOf path
      let components := pathComponents path
      if components.getLast? = some "." then
        match tree.walk start components with
        | .ok _ => (.ok (), tree)
        | .error .missing =>
          match tree.ensureAll start (components.filter (· != ".")).reverse.tail with
          | (.ok (), made) => ((made.walk start components).map fun _ => (), made)
          | failed => failed
        | .error fault => (.error fault, tree)
      else tree.ensureAll start components.reverse

/-! ## The whole tree -/

/-- The path of a place below the working directory, with a slash behind a
directory. -/
def placeText (place : Place) (node : Node) : String :=
  let path := "/".intercalate place.names
  match node with
  | .directory => path ++ "/"
  | .file _ => path

/-- The paths of all nodes below the working directory, in order. -/
def listing (tree : FileTree) : List String :=
  let below := tree.nodes.filter fun (place, _) => place.base = Place.here.base
  (below.map fun (place, node) => placeText place node).mergeSort fun a b => a ≤ b

end FileTree

end VectorPage
