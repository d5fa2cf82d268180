/-
The command line.

A command is `convert`, `batch` or `scene`. Options stand before the command
or behind it, as `--name value` or `--name=value`; where one is given on both
sides, the one behind the command counts, and on one side it may stand only
once. A value that is an argument of its own must not begin with a dash.
Reading the arguments either gives a command with its settings, or asks for
the version, or is a usage error, which is all that is said about it.
-/
import VectorPage.Conversion
import VectorPage.Text.Json

set_option autoImplicit false

namespace VectorPage.CommandLine

/-! ## Arguments -/

/-- What is to be done. -/
inductive Command where
  | convert (input : String) (output : Option String)
  | batch (dir : String) (output : Option String)
  | scene (input : String)
  deriving DecidableEq, Repr

/-- The options given on one side of the command. -/
structure Options where
  operations : Option Nat := none
  calls : Option Nat := none
  patterns : Option Nat := none
  literals : Option Nat := none
  width : Option Float := none
  height : Option Float := none
  threads : Option Nat := none
  debug : Option Unit := none

/-- The options of both sides together; the second side counts. -/
def Options.orElse (outer inner : Options) : Options where
  operations := inner.operations.or outer.operations
  calls := inner.calls.or outer.calls
  patterns := inner.patterns.or outer.patterns
  literals := inner.literals.or outer.literals
  width := inner.width.or outer.width
  height := inner.height.or outer.height
  threads := inner.threads.or outer.threads
  debug := inner.debug.or outer.debug

/-- The settings that options ask for. -/
def Options.settings (o : Options) : Settings :=
  let limits : Limits := {}
  let defaults : Settings := {}
  { limits :=
      { operations := o.operations
        calls := o.calls
        patterns := o.patterns.getD limits.patterns
        literals := o.literals.getD limits.literals }
    width := o.width.getD defaults.width
    height := o.height.getD defaults.height }

/-! ### Values -/

/-- A whole number: digits with an optional plus sign, of at most sixty-four
bits. -/
def readNat? (s : String) : Option Nat :=
  let digits :=
    match s.toList with
    | '+' :: rest => rest
    | cs => cs
  if digits.isEmpty || !digits.all isDigit then none
  else
    let n := digitsValue digits
    if n < 1 <<< 64 then some n else none

/-- The words for values that are not finite, without their sign. -/
def readWord? (cs : List Char) : Option Float :=
  let word := String.ofList (cs.map lowerLetter)
  if word = "inf" ∨ word = "infinity" then some (1 / 0)
  else if word = "nan" then some (0 / 0)
  else none

/-- A number: a numeral, or a word for a value that is not finite. -/
def readFloat? (s : String) : Option Float :=
  match Numeral.read? s.toList with
  | some x => some x
  | none =>
    match takeSign s.toList with
    | (some '-', word) => (readWord? word).map fun x => -x
    | (_, word) => readWord? word

/-- Sets an option that has not been given yet. -/
def once {α : Type} (old : Option α) (new : Option α) (set : Option α → Options) :
    Option Options :=
  match old, new with
  | none, some x => some (set (some x))
  | _, _ => none

/-- The options with one more, by its long name and its value; nothing if
there is no such option, the value is wrong or it has been given before. -/
def Options.set? (o : Options) (name value : String) : Option Options :=
  match name with
  | "max-operations" => once o.operations (readNat? value) fun x => { o with operations := x }
  | "max-expansion-depth" => once o.calls (readNat? value) fun x => { o with calls := x }
  | "max-pattern-depth" => once o.patterns (readNat? value) fun x => { o with patterns := x }
  | "max-literal-depth" => once o.literals (readNat? value) fun x => { o with literals := x }
  | "width" => once o.width (readFloat? value) fun x => { o with width := x }
  | "height" => once o.height (readFloat? value) fun x => { o with height := x }
  | "threads" => once o.threads (readNat? value) fun x => { o with threads := x }
  | _ => none

/-- The options with the flag for debugging. -/
def Options.setDebug? (o : Options) : Option Options :=
  once o.debug (some ()) fun x => { o with debug := x }

/-! ### Reading one argument -/

/-- What an argument is. -/
inductive Word where
  /-- Two dashes: only plain words follow. -/
  | endOfOptions
  /-- A long option, with its value if that is attached. -/
  | long (name : String) (value : Option String)
  /-- One or more letters behind one dash. -/
  | short (letters : List Char)
  | plain (text : String)

/-- The kind of an argument. -/
def Word.of (arg : String) : Word :=
  match arg.toList with
  | ['-', '-'] => endOfOptions
  | '-' :: '-' :: rest =>
    let name := rest.takeWhile (· != '=')
    match rest.drop name.length with
    | _ :: value => long (String.ofList name) (some (String.ofList value))
    | [] => long (String.ofList name) none
  | '-' :: c :: letters => short (c :: letters)
  | _ => plain arg

/-- An argument that can be the value of the option before it. -/
def valueArgument? : List String → Option (String × List String)
  | arg :: rest =>
    match Word.of arg with
    | .plain text => some (text, rest)
    | _ => none
  | [] => none

/-- What reading options came to. -/
inductive Reading where
  | options (o : Options) (rest : List String)
  | version
  | usageError

/-- Sets an option to its attached value or to the next argument. -/
def readOption (o : Options) (name : String) (attached : Option String) (rest : List String) :
    Reading :=
  match attached.map (·, rest) |>.or (valueArgument? rest) with
  | some (value, rest) =>
    match o.set? name value with
    | some o => .options o rest
    | none => .usageError
  | none => .usageError

/-- Reads a long option. Asking for the version is possible only before the
command. -/
def readLong (beforeCommand : Bool) (o : Options) (name : String) (attached : Option String)
    (rest : List String) : Reading :=
  match name, attached with
  | "debug", none =>
    match o.setDebug? with
    | some o => .options o rest
    | none => .usageError
  | "version", none => if beforeCommand then .version else .usageError
  | _, _ => readOption o name attached rest

/-- Reads letters behind one dash. The letter of an option with a value takes
the rest of the argument, an equals sign aside, as its value. -/
def readShort (beforeCommand : Bool) (rest : List String) : Options → List Char → Reading
  | o, [] => .options o rest
  | o, 'd' :: letters =>
    match o.setDebug? with
    | some o => readShort beforeCommand rest o letters
    | none => .usageError
  | _, 'V' :: _ => if beforeCommand then .version else .usageError
  | o, 'j' :: '=' :: value => readOption o "threads" (some (String.ofList value)) rest
  | o, ['j'] => readOption o "threads" none rest
  | o, 'j' :: value => readOption o "threads" (some (String.ofList value)) rest
  | _, _ => .usageError

/-! ### Reading all arguments -/

/-- What the arguments ask for. -/
inductive Request where
  | command (settings : Settings) (command : Command)
  | version
  | usageError

/-- The command of a name with its plain words. -/
def commandOf? (name : String) (words : List String) : Option Command :=
  match name, words with
  | "convert", [input] => some (.convert input none)
  | "convert", [input, output] => some (.convert input (some output))
  | "batch", [dir] => some (.batch dir none)
  | "batch", [dir, output] => some (.batch dir (some output))
  | "scene", [input] => some (.scene input)
  | _, _ => none

/-- The most plain words that a command takes. -/
def wordLimit (name : String) : Nat :=
  if name = "scene" then 1 else 2

/-- One plain word behind the command: an empty one or one too many is an
error. -/
def addWord? (name : String) (words : List String) (word : String) : Option (List String) :=
  if word.isEmpty || wordLimit name ≤ words.length then none else some (words ++ [word])

/-- Ends the reading behind the command. -/
def closeCommand (name : String) (outer inner : Options) (words : List String) : Request :=
  match commandOf? name words with
  | some command => .command (outer.orElse inner).settings command
  | none => .usageError

/-- The arguments behind `--`: plain words, whatever they look like. -/
def readWords (name : String) (outer inner : Options) : List String → List String → Request
  | words, [] => closeCommand name outer inner words
  | words, arg :: rest =>
    match addWord? name words arg with
    | some words => readWords name outer inner words rest
    | none => .usageError

/-- The arguments behind the command. The fuel is the number of arguments. -/
def readInner (name : String) (outer : Options) :
    Nat → Options → List String → List String → Request
  | 0, inner, words, _ => closeCommand name outer inner words
  | _ + 1, inner, words, [] => closeCommand name outer inner words
  | fuel + 1, inner, words, arg :: rest =>
    let go (reading : Reading) : Request :=
      match reading with
      | .options inner rest => readInner name outer fuel inner words rest
      | .version => .version
      | .usageError => .usageError
    match Word.of arg with
    | .endOfOptions => readWords name outer inner words rest
    | .long option value => go (readLong false inner option value rest)
    | .short letters => go (readShort false rest inner letters)
    | .plain word =>
      match addWord? name words word with
      | some words => readInner name outer fuel inner words rest
      | none => .usageError

/-- The names of the commands. -/
def commandNames : List String := ["convert", "batch", "scene"]

/-- The arguments up to the command. The fuel is the number of arguments. -/
def readOuter : Nat → Options → List String → Request
  | 0, _, _ => .usageError
  | _ + 1, _, [] => .usageError
  | fuel + 1, outer, arg :: rest =>
    let go (reading : Reading) : Request :=
      match reading with
      | .options outer rest => readOuter fuel outer rest
      | .version => .version
      | .usageError => .usageError
    match Word.of arg with
    | .endOfOptions => .usageError
    | .long option value => go (readLong true outer option value rest)
    | .short letters => go (readShort true rest outer letters)
    | .plain word =>
      if commandNames.contains word then readInner word outer (rest.length + 1) {} [] rest
      else .usageError

/-- **Reads the arguments.** -/
def read (args : List String) : Request :=
  readOuter (args.length + 1) {} args

/-! ## Running a command -/

/-- What a command leaves: its exit code and what it printed. -/
structure Outcome where
  exit : Nat
  out : String := ""
  err : String := ""
  deriving DecidableEq, Repr

/-- The outcome of a failure, with what led to it. -/
def failed (causes : List String) : Outcome :=
  { exit := 1, err := "Error: " ++ ": ".intercalate causes ++ "\n" }

/-- The line of a report on one job. -/
def reportLine (r : JobReport) : String :=
  match r.failure with
  | none => "  ok      " ++ r.job.input ++ " -> " ++ r.job.output ++ "\n"
  | some failure => "  FAILED  " ++ r.job.input ++ ": " ++ failure.message ++ "\n"

/-- The report on a batch. It fails if one of its jobs failed. -/
def report (dir : String) (reports : List JobReport) : Outcome :=
  if reports.isEmpty then
    { exit := 0, out := "No .ps or .eps files found in " ++ dir ++ "\n" }
  else
    let failures := (reports.filter (·.failure.isSome)).length
    { exit := if failures = 0 then 0 else 1
      out :=
        "Found " ++ Nat.repr reports.length ++ " file(s) to convert\n"
          ++ String.join (reports.map reportLine)
          ++ Nat.repr (reports.length - failures) ++ " converted, "
          ++ Nat.repr failures ++ " failed\n" }

/-- The pieces of a picture as JSON. -/
def sceneText (f : Fragments) : String :=
  jsonObject [("definitions", f.definitions), ("shapes", f.shapes), ("texts", f.texts)]

variable {m : Type → Type} [Monad m] [MonadFiles m]

/-- Converts one file, to another file or to the output. -/
def runConvert (settings : Settings) (input : String) (output : Option String) : m Outcome := do
  match ← (settings.convertFile input output).run with
  | .error failure => return failed (("failed to convert " ++ input) :: failure.causes)
  | .ok document =>
    match output with
    | some path => return { exit := 0, err := "Converted " ++ input ++ " -> " ++ path ++ "\n" }
    | none => return { exit := 0, out := document ++ "\n" }

/-- Converts a directory and reports on it. -/
def runBatch (settings : Settings) (dir : String) (output : Option String) : m Outcome := do
  match ← (settings.convertDirectory dir output).run with
  | .error failure => return failed failure.causes
  | .ok reports => return report dir reports

/-- Prints the picture of a page program. -/
def runScene (settings : Settings) (input : String) : m Outcome := do
  match ← (Settings.readSource input).run with
  | .error failure => return failed failure.causes
  | .ok source =>
    match settings.picture? source with
    | some picture => return { exit := 0, out := sceneText picture.fragments ++ "\n" }
    | none => return failed (Failure.conversion "the program does not end").causes

/-- The name and the version of the program. -/
def versionText : String := "pssvg 0.3.0\n"

/-- **Does what the arguments ask for.** -/
def run (args : List String) : m Outcome :=
  match read args with
  | .usageError => return { exit := 2, err := "usage: pssvg [options] convert|batch|scene ...\n" }
  | .version => return { exit := 0, out := versionText }
  | .command settings (.convert input output) => runConvert settings input output
  | .command settings (.batch dir output) => runBatch settings dir output
  | .command settings (.scene input) => runScene settings input

end VectorPage.CommandLine
