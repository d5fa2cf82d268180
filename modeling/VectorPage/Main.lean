/-
The program: the command line over the files of the computer.
-/
import VectorPage.CommandLine

set_option autoImplicit false

namespace VectorPage

/-- The fault behind an error of the system. -/
def faultOf (e : IO.Error) : Fault :=
  match e with
  | .noFileOrDirectory .. => .missing
  | .alreadyExists .. => .alreadyThere
  | .inappropriateType _ code _ =>
    if code = 20 then .notDirectory
    else if code = 21 then .isDirectory
    else .other (toString e)
  | .invalidArgument _ code _ => if code = 36 then .nameTooLong else .other (toString e)
  | e => .other (toString e)

/-- An action with its error as a value. -/
def attempt {α : Type} (action : IO α) : IO (Except Fault α) := do
  try
    return .ok (← action)
  catch e => return .error (faultOf e)

/-- The directory entry of a path, as a handle for questions about it. -/
def entryOf (path : String) : IO.FS.DirEntry :=
  ⟨path, ""⟩

instance : MonadFiles IO where
  pathExists path := (entryOf path).root.pathExists
  isDirectory path := (entryOf path).root.isDir
  isFile path := do
    return (← (entryOf path).root.pathExists) && !(← (entryOf path).root.isDir)
  readOctets path := attempt do return (← IO.FS.readBinFile path).toList
  writeText path text := attempt (IO.FS.writeFile path text)
  namesIn path := attempt do
    return (← (entryOf path).root.readDir).toList.map (·.fileName)
  makeDirectories path := attempt (IO.FS.createDirAll path)

end VectorPage

/-- Runs the command line, prints what it leaves and ends with its exit
code. -/
def main (args : List String) : IO UInt32 := do
  let outcome : VectorPage.CommandLine.Outcome ← VectorPage.CommandLine.run args
  IO.print outcome.out
  IO.eprint outcome.err
  return UInt32.ofNat outcome.exit
