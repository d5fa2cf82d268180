/-
Converting files.

Converting a text cannot fail; what can fail is finding, reading and writing
files. A batch converts every page program directly inside a directory. The
programs may be taken in any order, each one wholly before the next; the
report is in the order of the inputs, and a program that fails does not keep
the others from being converted.
-/
import VectorPage.Document.Page
import VectorPage.Files.Store
import VectorPage.Text.Octets

set_option autoImplicit false

namespace VectorPage

/-- Why a conversion failed. -/
inductive Failure where
  /-- A file operation on a path was not done. -/
  | io (path : String) (fault : Fault)
  | notFound (path : String)
  | notDirectory (path : String)
  | parse (message : String)
  | conversion (message : String)
  | unsupportedOperator (name : String)
  deriving DecidableEq, Repr

namespace Failure

/-- **The text of a failure.** -/
def message : Failure → String
  | io path fault => "io error on " ++ path ++ ": " ++ fault.message
  | notFound path => "input not found: " ++ path
  | notDirectory path => "not a directory: " ++ path
  | parse message => "parse error: " ++ message
  | conversion message => "conversion error: " ++ message
  | unsupportedOperator name => "unsupported operator: " ++ name

/-- The text of a failure and of what caused it, from the outside in. -/
def causes (failure : Failure) : List String :=
  match failure with
  | io _ fault => [failure.message, fault.message]
  | _ => [failure.message]

end Failure

/-- One input of a batch and where its document goes. -/
structure Job where
  input : String
  output : String
  deriving DecidableEq, Repr

/-- What became of a job. -/
structure JobReport where
  job : Job
  failure : Option Failure
  deriving DecidableEq, Repr

namespace Settings

variable {m : Type → Type} [Monad m] [MonadFiles m]

open MonadFiles

/-! ## One file -/

/-- The text of a page program in a file. -/
def readSource (path : String) : ExceptT Failure m String := do
  unless ← pathExists path do throw (.notFound path)
  match ← readOctets path with
  | .ok octets => return textOfOctets octets
  | .error fault => throw (.io path fault)

/-- The document of a text, or the failure of a run that was given up. -/
def documentOf (settings : Settings) (source : String) : Except Failure String :=
  match settings.document? source with
  | some document => .ok document
  | none => .error (.conversion "the program does not end")

/-- **Converts a file** and gives its document, which is also written to
`output` if that is given. -/
def convertFile (settings : Settings) (input : String) (output : Option String) :
    ExceptT Failure m String := do
  let source ← readSource input
  let document ← settings.documentOf source
  if let some path := output then
    match ← writeText path document with
    | .ok () => pure ()
    | .error fault => throw (.io path fault)
  return document

/-! ## A directory -/

/-- The page programs directly inside a directory, in order. -/
def findInputs (dir : String) : ExceptT Failure m (List String) := do
  unless ← pathExists dir do throw (.notFound dir)
  unless ← isDirectory dir do throw (.notDirectory dir)
  match ← namesIn dir with
  | .error fault => throw (.io dir fault)
  | .ok names =>
    let programs := (names.filter isProgramName).mergeSort fun a b => a ≤ b
    (programs.map (joinPath dir)).filterM fun path => isFile path

/-- The last name of a path. -/
def lastName (path : String) : String :=
  (pathComponents path).getLastD ""

/-- The job of an input: its document goes into the target directory. -/
def jobFor (target input : String) : Job :=
  ⟨input, joinPath target (documentName (lastName input))⟩

/-- Does a job and reports on it. -/
def doJob (settings : Settings) (job : Job) : m JobReport := do
  match ← (settings.convertFile job.input (some job.output)).run with
  | .ok _ => return ⟨job, none⟩
  | .error failure => return ⟨job, some failure⟩

/-- **Converts the page programs of a directory**, in the order that
`arrange` puts them in. The target directory, the same one if no other is
given, is made when there is something to convert. -/
def convertDirectoryInOrder (settings : Settings) (arrange : List Job → List Job) (dir : String)
    (output : Option String) : ExceptT Failure m (List JobReport) := do
  let inputs ← findInputs dir
  let target := output.getD dir
  unless inputs.isEmpty do
    match ← makeDirectories target with
    | .ok () => pure ()
    | .error fault => throw (.io target fault)
  let reports ← (arrange (inputs.map (jobFor target))).mapM fun job => settings.doJob job
  return reports.mergeSort fun a b => a.job.input ≤ b.job.input

/-- Converts the page programs of a directory one after the other. -/
def convertDirectory (settings : Settings) (dir : String) (output : Option String) :
    ExceptT Failure m (List JobReport) :=
  settings.convertDirectoryInOrder id dir output

end Settings

end VectorPage
