/-
What a batch leaves behind.

A batch does its jobs one after the other, in any order, each on the tree that
the ones before it left. No job disturbs what another one reads, since what is
read ends in `ps` and what is written ends in `svg`. But two jobs may write to
the same path, as their inputs may differ in nothing but the extension. Both
are then reported as done, and the document of the one that was done later is
all that is left.

`convertDirectoryInOrder` is written for any file system. On a tree it comes to
`batchIn`, and the jobs to `doneAll`, a plain recursion about which the rest is
proved.
-/
import VectorPage.Proofs.Trees

set_option autoImplicit false

namespace VectorPage

/-! ## Octets -/

/-- The loop collects octets in reverse. The library gives no equation for it, so the
invariant is stated here: what was read, and the rest of the array. -/
theorem toList_loop (bytes : ByteArray) (i : Nat) (read : List UInt8) :
    ByteArray.toList.loop bytes i read = read.reverse ++ bytes.data.toList.drop i := by
  fun_induction ByteArray.toList.loop bytes i read with
  | case1 i read inside ih =>
    have here : bytes.get! i = bytes.data.toList[i] := getElem!_pos bytes.data i inside
    rw [ih, List.drop_eq_getElem_cons inside, here, List.reverse_cons, List.append_assoc]
    rfl
  | case2 i read outside =>
    rw [List.drop_eq_nil_of_le (Nat.not_lt.mp outside), List.append_nil]

/-- **A text is known by its octets.** -/
theorem textOctets_injective {s t : String} (h : textOctets s = textOctets t) : s = t := by
  simp only [textOctets, ByteArray.toList, toList_loop, List.reverse_nil, List.nil_append,
    List.drop_zero] at h
  exact String.toByteArray_inj.mp (ByteArray.ext (Array.toList_inj.mp h))

/-! ## Conversions on a tree -/

/-- Runs a conversion on a tree of files. -/
def runOn {α : Type} (x : ExceptT Failure (StateM FileTree) α) (tree : FileTree) :
    Except Failure α × FileTree :=
  x.run tree

section Running

variable {α β : Type} (tree : FileTree)

/-- **Two commands in a row.** The second sees the tree that the first one left, and is
not run if the first one failed; what the first one wrote stays. -/
theorem runOn_bind (x : ExceptT Failure (StateM FileTree) α)
    (f : α → ExceptT Failure (StateM FileTree) β) :
    runOn (x >>= f) tree =
      match runOn x tree with
      | (.ok a, tree) => runOn (f a) tree
      | (.error failure, tree) => (.error failure, tree) := by
  unfold runOn
  rw [ExceptT.run_bind]
  change StateT.bind x.run _ tree = _
  unfold StateT.bind
  rcases x.run tree with ⟨_ | _, _⟩ <;> rfl

@[simp] theorem runOn_pure (a : α) : runOn (pure a) tree = (.ok a, tree) := rfl

@[simp] theorem runOn_throw (failure : Failure) :
    runOn (throw failure : ExceptT Failure (StateM FileTree) α) tree = (.error failure, tree) := rfl

/-- Asking about a path leaves the tree alone, here and in the next few. -/
@[simp] theorem runOn_pathExists (path : String) :
    runOn (MonadFiles.pathExists path) tree = (.ok (tree.pathExists path), tree) := rfl

@[simp] theorem runOn_isDirectory (path : String) :
    runOn (MonadFiles.isDirectory path) tree = (.ok (tree.isDirectory path), tree) := rfl

@[simp] theorem runOn_isFile (path : String) :
    runOn (MonadFiles.isFile path) tree = (.ok (tree.isFile path), tree) := rfl

@[simp] theorem runOn_readOctets (path : String) :
    runOn (MonadFiles.readOctets path) tree = (.ok (tree.read path), tree) := rfl

@[simp] theorem runOn_namesIn (path : String) :
    runOn (MonadFiles.namesIn path) tree = (.ok (tree.list path), tree) := rfl

/-- Directories may be made even if the command fails in the end, so the tree is changed
in both cases. -/
@[simp] theorem runOn_makeDirectories (path : String) :
    runOn (MonadFiles.makeDirectories path) tree
      = (.ok (tree.makeDirectories path).1, (tree.makeDirectories path).2) := rfl

/-! A job runs a conversion whose failure it reports, so it has two ways to fail:
the conversion's, which it takes up, and its own, which it never takes. -/

/-- Inside one job a failure is caught: it is the result of the job, and the commands
around the job go on. So there are two layers of failure, and only the outer one ends a
run. -/
theorem runOn_run_bind (x : ExceptT Failure (ExceptT Failure (StateM FileTree)) α)
    (f : α → ExceptT Failure (ExceptT Failure (StateM FileTree)) β) :
    runOn (x >>= f).run tree =
      match runOn x.run tree with
      | (.ok (.ok a), tree) => runOn (f a).run tree
      | (.ok (.error failure), tree) => (.ok (.error failure), tree)
      | (.error failure, tree) => (.error failure, tree) := by
  rw [ExceptT.run_bind, runOn_bind]
  rcases runOn x.run tree with ⟨_ | _ | _, _⟩ <;> rfl

/-- A result that needs no files is the result of the job. -/
@[simp] theorem runOn_run_lift (x : Except Failure α) :
    runOn (liftM x : ExceptT Failure (ExceptT Failure (StateM FileTree)) α).run tree
      = (.ok x, tree) := rfl

@[simp] theorem runOn_run_pathExists (path : String) :
    runOn (MonadFiles.pathExists path
        : ExceptT Failure (ExceptT Failure (StateM FileTree)) Bool).run tree
      = (.ok (.ok (tree.pathExists path)), tree) := rfl

@[simp] theorem runOn_run_readOctets (path : String) :
    runOn (MonadFiles.readOctets path
        : ExceptT Failure (ExceptT Failure (StateM FileTree)) (Except Fault (List UInt8))).run tree
      = (.ok (.ok (tree.read path)), tree) := rfl

/-- A text is written as a whole or not at all. -/
theorem runOn_run_writeText (path text : String) :
    runOn (MonadFiles.writeText path text
        : ExceptT Failure (ExceptT Failure (StateM FileTree)) (Except Fault Unit)).run tree
      = match tree.write path (textOctets text) with
        | .ok written => (.ok (.ok (.ok ())), written)
        | .error fault => (.ok (.ok (.error fault)), tree) := by
  change Prod.map (fun r => Except.ok (Except.ok r)) id
    (match tree.write path (textOctets text) with
      | .ok written => (Except.ok (), written)
      | .error fault => (.error fault, tree)) = _
  cases tree.write path (textOctets text) <;> rfl

end Running

namespace Settings

variable (settings : Settings)

/-- The text of a page program in a file. -/
def sourceIn (tree : FileTree) (path : String) : Except Failure String :=
  if tree.pathExists path then
    match tree.read path with
    | .ok octets => .ok (textOfOctets octets)
    | .error fault => .error (.io path fault)
  else .error (.notFound path)

/-- A job, done on a tree. -/
def doneIn (tree : FileTree) (job : Job) : JobReport × FileTree :=
  match sourceIn tree job.input >>= settings.documentOf with
  | .error failure => (⟨job, some failure⟩, tree)
  | .ok document =>
    match tree.write job.output (textOctets document) with
    | .ok written => (⟨job, none⟩, written)
    | .error fault => (⟨job, some (.io job.output fault)⟩, tree)

/-- The page programs of a directory. -/
def inputsIn (tree : FileTree) (dir : String) : Except Failure (List String) :=
  if tree.pathExists dir then
    if tree.isDirectory dir then
      match tree.list dir with
      | .ok names =>
        let programs := (names.filter isProgramName).mergeSort fun a b => a ≤ b
        .ok ((programs.map (joinPath dir)).filter fun path => tree.isFile path)
      | .error fault => .error (.io dir fault)
    else .error (.notDirectory dir)
  else .error (.notFound dir)

/-- Jobs, done one after the other. -/
def doneAll (tree : FileTree) : List Job → List JobReport × FileTree
  | [] => ([], tree)
  | job :: jobs =>
    let (report, tree) := settings.doneIn tree job
    let (reports, tree) := doneAll tree jobs
    (report :: reports, tree)

/-- Reading a source changes no tree, and what it gives is `sourceIn`. -/
theorem runOn_readSource (path : String) (tree : FileTree) :
    runOn (readSource path) tree = (sourceIn tree path, tree) := by
  simp only [readSource, sourceIn, runOn_bind, runOn_pathExists]
  cases tree.pathExists path with
  | false => rfl
  | true =>
    simp only [if_true, runOn_bind, runOn_readOctets]
    cases tree.read path <;> rfl

theorem runOn_run_readSource (path : String) (tree : FileTree) :
    runOn (readSource path : ExceptT Failure (ExceptT Failure (StateM FileTree)) String).run tree
      = (.ok (sourceIn tree path), tree) := by
  simp only [readSource, sourceIn, runOn_run_bind, runOn_run_pathExists]
  cases tree.pathExists path with
  | false => rfl
  | true =>
    simp only [if_true, runOn_run_bind, runOn_run_readOctets]
    cases tree.read path <;> rfl

/-- **A job as a function of the tree.** It never fails as a command: its failure is in
its report. -/
theorem runOn_doJob (job : Job) (tree : FileTree) :
    runOn (settings.doJob job) tree
      = (.ok (settings.doneIn tree job).1, (settings.doneIn tree job).2) := by
  simp only [doJob, convertFile, doneIn, runOn_bind, runOn_run_bind, runOn_run_readSource]
  cases sourceIn tree job.input with
  | error failure => rfl
  | ok source =>
    simp only [runOn_run_lift, bind, Except.bind]
    cases settings.documentOf source with
    | error failure => rfl
    | ok document =>
      simp only [runOn_run_writeText]
      cases tree.write job.output (textOctets document) with
      | error fault => rfl
      | ok written => rfl

/-- Jobs run one after the other, each in the tree that the one before has left. -/
theorem runOn_doJobs (jobs : List Job) (tree : FileTree) :
    runOn (jobs.mapM fun job => settings.doJob job) tree
      = (.ok (settings.doneAll tree jobs).1, (settings.doneAll tree jobs).2) := by
  induction jobs generalizing tree with
  | nil => rfl
  | cons job jobs ih =>
    simp only [List.mapM_cons, runOn_bind, runOn_doJob, ih, runOn_pure]
    rfl

/-- The library filters with an accumulator, in reverse. -/
theorem runOn_filterAuxM (paths found : List String) (tree : FileTree) :
    runOn (List.filterAuxM (fun path => MonadFiles.isFile path) paths found) tree
      = (.ok ((paths.filter fun path => tree.isFile path).reverse ++ found), tree) := by
  induction paths generalizing found with
  | nil => rfl
  | cons path paths ih =>
    simp only [List.filterAuxM, runOn_bind, runOn_isFile, ih]
    cases file : tree.isFile path <;> simp [file]

/-- Which paths are files is asked of one and the same tree. -/
theorem runOn_filterM (paths : List String) (tree : FileTree) :
    runOn (paths.filterM fun path => MonadFiles.isFile path) tree
      = (.ok (paths.filter fun path => tree.isFile path), tree) := by
  rw [List.filterM, runOn_bind, runOn_filterAuxM]
  simp

/-- The inputs of a directory are found by looking only; they come sorted by name. -/
theorem runOn_findInputs (dir : String) (tree : FileTree) :
    runOn (findInputs dir) tree = (inputsIn tree dir, tree) := by
  simp only [findInputs, inputsIn, runOn_bind, runOn_pathExists]
  cases tree.pathExists dir with
  | false => simp
  | true =>
    cases isDir : tree.isDirectory dir with
    | false => simp [isDir, runOn_bind]
    | true =>
      cases listed : tree.list dir with
      | error fault => simp [isDir, listed, runOn_bind]
      | ok names =>
        simp only [isDir, listed, if_true, runOn_bind, runOn_isDirectory, runOn_namesIn,
          runOn_filterM]

/-- A batch on a tree. -/
def batchIn (arrange : List Job → List Job) (dir : String) (output : Option String)
    (tree : FileTree) : Except Failure (List JobReport) × FileTree :=
  let target := output.getD dir
  match inputsIn tree dir with
  | .error failure => (.error failure, tree)
  | .ok inputs =>
    match if inputs.isEmpty then (.ok (), tree) else tree.makeDirectories target with
    | (.error fault, tree) => (.error (.io target fault), tree)
    | (.ok (), tree) =>
      let (done, tree) := settings.doneAll tree (arrange (inputs.map (jobFor target)))
      (.ok (done.mergeSort fun a b => a.job.input ≤ b.job.input), tree)

/-- **A batch comes to that.** -/
theorem runOn_convertDirectoryInOrder (arrange : List Job → List Job) (dir : String)
    (output : Option String) (tree : FileTree) :
    runOn (settings.convertDirectoryInOrder arrange dir output) tree
      = settings.batchIn arrange dir output tree := by
  simp only [convertDirectoryInOrder, batchIn, runOn_bind, runOn_findInputs]
  cases inputsIn tree dir with
  | error failure => rfl
  | ok inputs =>
    dsimp only
    by_cases empty : inputs.isEmpty = true
    · simp only [empty, if_true, runOn_bind, runOn_doJobs, runOn_pure]
    · rw [if_neg empty, if_neg empty, runOn_bind, runOn_makeDirectories]
      rcases tree.makeDirectories (output.getD dir) with ⟨fault | ⟨⟩, ready⟩
      · rfl
      · simp only [runOn_bind, runOn_doJobs, runOn_pure]

/-- **A batch that gets to its jobs**: there are inputs, and the directory for the
outputs is there or can be made. The reports are then sorted by input, whatever order
the jobs ran in. -/
theorem batchIn_of_inputsIn {arrange : List Job → List Job} {dir : String}
    {output : Option String} {tree ready : FileTree} {inputs : List String}
    (found : inputsIn tree dir = .ok inputs) (filled : inputs ≠ [])
    (made : tree.makeDirectories (output.getD dir) = (.ok (), ready)) :
    settings.batchIn arrange dir output tree =
      (.ok ((settings.doneAll ready (arrange (inputs.map (jobFor (output.getD dir))))).1.mergeSort
          fun a b => a.job.input ≤ b.job.input),
        (settings.doneAll ready (arrange (inputs.map (jobFor (output.getD dir))))).2) := by
  simp only [batchIn, found, List.isEmpty_iff, filled, if_false, made]

/-- What is found are page programs in the directory. -/
theorem of_inputsIn {dir : String} {tree : FileTree} {inputs : List String}
    (h : inputsIn tree dir = .ok inputs) : ∀ input ∈ inputs, tree.isFile input = true
      ∧ ∃ name, isProgramName name = true ∧ input = joinPath dir name := by
  unfold inputsIn at h
  split at h
  · split at h
    · split at h
      · cases h
        intro input mem
        obtain ⟨mem, file⟩ := List.mem_filter.mp mem
        obtain ⟨name, listed, rfl⟩ := List.mem_map.mp mem
        have program := (List.mem_filter.mp (List.mem_mergeSort.mp listed)).2
        exact ⟨file, name, program, rfl⟩
      · cases h
    · cases h
  · cases h

/-- **What a batch that returns has done**: it found its inputs, made directories
if there were any, and did the jobs. -/
theorem of_batchIn {arrange : List Job → List Job} {dir : String} {output : Option String}
    {tree after : FileTree} {reports : List JobReport}
    (h : settings.batchIn arrange dir output tree = (.ok reports, after)) :
    ∃ inputs ready done, inputsIn tree dir = .ok inputs ∧ tree.Extends ready
      ∧ settings.doneAll ready (arrange (inputs.map (jobFor (output.getD dir)))) = (done, after)
      ∧ reports = done.mergeSort fun a b => a.job.input ≤ b.job.input := by
  simp only [batchIn] at h
  split at h
  · cases h
  · rename_i inputs found
    split at h
    · cases h
    · rename_i ready made
      cases h
      refine ⟨inputs, ready, _, found, ?_, rfl, rfl⟩
      split at made
      · cases made
        exact .refl tree
      · have grown := tree.makeDirectories_extends (output.getD dir)
        rwa [made] at grown

/-! ## The names of a batch -/

/-- A name that has an extension is its stem, a point and the extension. -/
theorem splitExtension?_eq_some {name stem extension : String}
    (h : splitExtension? name = some (stem, extension)) :
    name.toList = stem.toList ++ '.' :: extension.toList := by
  unfold splitExtension? at h
  dsimp only at h
  obtain ⟨rest, whole⟩ := List.takeWhile_prefix (l := name.toList.reverse) (· != '.')
  generalize name.toList.reverse.takeWhile (· != '.') = after at h whole
  rw [← whole, List.drop_left] at h
  split at h
  · split at h
    · cases h
    · cases h
      rw [← List.reverse_reverse name.toList, ← whole]
      simp
  · cases h

/-- The name of a page program ends with an `s`, in either case. -/
theorem getLast?_of_isProgramName {name : String} (h : isProgramName name = true) :
    ∃ c, name.toList.getLast? = some c ∧ lowerLetter c = 's' := by
  unfold isProgramName at h
  split at h
  · rename_i stem extension split
    have ended : (extension.toList.map lowerLetter).getLast? = some 's' := by
      rcases Bool.or_eq_true_iff.mp h with lower | lower <;> rw [beq_iff_eq.mp lower] <;> rfl
    rw [List.getLast?_map, Option.map_eq_some_iff] at ended
    obtain ⟨c, last, is⟩ := ended
    refine ⟨c, ?_, is⟩
    rw [splitExtension?_eq_some split, List.getLast?_append, List.getLast?_cons, last]
    rfl
  · cases h

/-- The name of a document ends with the letter of its extension, so it is no name with
a special meaning. -/
theorem getLast?_documentName (name : String) :
    (documentName name).toList.getLast? = some 'g' := by
  unfold documentName
  split <;> simp [List.getLast?_append]

theorem not_mem_documentName {name : String} (plain : '/' ∉ name.toList) :
    '/' ∉ (documentName name).toList := by
  unfold documentName
  split
  · rename_i stem extension split
    rw [splitExtension?_eq_some split, List.mem_append, not_or] at plain
    simp [plain.1]
  · simp [plain]

/-- The last part of a path has no separator in it. -/
theorem not_mem_lastName (path : String) : '/' ∉ (lastName path).toList := by
  rw [lastName, List.getLastD_eq_getLast?]
  cases last : (pathComponents path).getLast? with
  | none => simp
  | some component =>
    obtain ⟨part, mem, rfl⟩ := List.mem_map.mp (List.mem_of_getLast? last)
    simpa using not_mem_of_mem_splitSlashes (List.mem_filter.mp mem).1

theorem getLast?_joinPath (dir : String) {name : String} {c : Char}
    (ends : name.toList.getLast? = some c) : (joinPath dir name).toList.getLast? = some c := by
  unfold joinPath
  split <;> simp [List.getLast?_append, List.getLast?_cons, ends]

/-- **Jobs that do not disturb each other**: no input has the name of an output,
and outputs of the same name are the same. -/
structure Apart (jobs : List Job) : Prop where
  input : ∀ job ∈ jobs, FileTree.isProper (lastName job.input) = true
  output : ∀ job ∈ jobs, FileTree.isProper (lastName job.output) = true
  inputs : ∀ a ∈ jobs, ∀ b ∈ jobs, lastName a.input ≠ lastName b.output
  outputs : ∀ a ∈ jobs, ∀ b ∈ jobs, lastName a.output = lastName b.output → a.output = b.output

/-- The two names with a special meaning are made of points. -/
theorem isProper_of_getLast? {name : String} {c : Char} (ends : name.toList.getLast? = some c)
    (other : c ≠ '.') : FileTree.isProper name = true := by
  simp only [FileTree.isProper, Bool.and_eq_true, bne_iff_ne]
  constructor <;> rintro rfl <;> exact other (Option.some.inj ends).symm

/-- What is read ends with an `s`, in either case. -/
theorem getLast?_input (dir : String) {name : String} (program : isProgramName name = true) :
    ∃ c, (lastName (joinPath dir name)).toList.getLast? = some c ∧ lowerLetter c = 's' := by
  obtain ⟨c, ends, is⟩ := getLast?_of_isProgramName program
  refine ⟨c, getLast?_lastName (getLast?_joinPath dir ends) ?_, is⟩
  rintro rfl
  cases is

/-- What is written has the name of the document, whatever the directories. -/
theorem lastName_output (target input : String) :
    lastName (jobFor target input).output = documentName (lastName input) := by
  refine lastName_joinPath target (not_mem_documentName (not_mem_lastName input)) fun empty => ?_
  have ends := getLast?_documentName (lastName input)
  rw [empty] at ends
  cases ends

/-- **The jobs of a batch do not disturb each other.** -/
theorem apart_of_programs (target dir : String) {jobs : List Job}
    (programs : ∀ job ∈ jobs, ∃ name, isProgramName name = true
      ∧ job = jobFor target (joinPath dir name)) : Apart jobs where
  input job mem := by
    obtain ⟨name, program, rfl⟩ := programs job mem
    obtain ⟨c, ends, is⟩ := getLast?_input dir program
    refine isProper_of_getLast? ends ?_
    rintro rfl
    cases is
  output job mem := by
    obtain ⟨name, -, rfl⟩ := programs job mem
    rw [lastName_output]
    exact isProper_of_getLast? (getLast?_documentName _) (by decide)
  inputs a ha b hb same := by
    obtain ⟨name, program, rfl⟩ := programs a ha
    obtain ⟨name', -, rfl⟩ := programs b hb
    -- one name would have to end both with an `s` and with a `g`
    obtain ⟨c, ends, is⟩ := getLast?_input dir program
    rw [show lastName (joinPath dir name) = _ from same, lastName_output,
      getLast?_documentName] at ends
    obtain rfl := Option.some.inj ends
    cases is
  outputs a ha b hb same := by
    obtain ⟨name, -, rfl⟩ := programs a ha
    obtain ⟨name', -, rfl⟩ := programs b hb
    rw [lastName_output, lastName_output] at same
    exact congrArg (joinPath target) same

/-! ## Jobs, one after the other -/

/-- The last report of a job that was done and wrote to a path. -/
def lastTo? (output : String) (done : List JobReport) : Option JobReport :=
  (done.filter fun report => report.failure = none ∧ report.job.output = output).getLast?

/-- The last report for an output is looked for behind the first one before it is taken
to be the first. -/
theorem lastTo?_cons (output : String) (report : JobReport) (done : List JobReport) :
    lastTo? output (report :: done) = (lastTo? output done).or
      (if report.failure = none ∧ report.job.output = output then some report else none) := by
  simp only [lastTo?, List.filter_cons, decide_eq_true_eq]
  split
  · rw [List.getLast?_cons]
    cases (done.filter fun report => report.failure = none ∧ report.job.output = output).getLast?
      <;> rfl
  · rw [Option.or_none]

theorem lastTo?_eq_none_iff {output : String} {done : List JobReport} :
    lastTo? output done = none
      ↔ ∀ report ∈ done, report.failure = none → report.job.output ≠ output := by
  simp [lastTo?]

/-- What is found is a report of a job that has written there. -/
theorem of_lastTo? {output : String} {done : List JobReport} {last : JobReport}
    (h : lastTo? output done = some last) :
    last ∈ done ∧ last.failure = none ∧ last.job.output = output := by
  simpa using List.mem_filter.mp (List.mem_of_getLast? h)

/-- A job that has written somewhere is the last one to do so, or another is. -/
theorem exists_lastTo? {done : List JobReport} {report : JobReport} (mem : report ∈ done)
    (ok : report.failure = none) : ∃ last, lastTo? report.job.output done = some last := by
  cases is : lastTo? report.job.output done with
  | some last => exact ⟨last, rfl⟩
  | none => exact absurd rfl (lastTo?_eq_none_iff.mp is report mem ok)

/-- **A job that is reported as done** wrote the document of its input; one that
is not left the tree as it was. -/
theorem doneIn_cases (tree : FileTree) (job : Job) :
    (∃ failure, settings.doneIn tree job = (⟨job, some failure⟩, tree))
    ∨ ∃ document written, (sourceIn tree job.input >>= settings.documentOf) = .ok document
        ∧ tree.write job.output (textOctets document) = .ok written
        ∧ settings.doneIn tree job = (⟨job, none⟩, written) := by
  unfold doneIn
  cases converted : sourceIn tree job.input >>= settings.documentOf with
  | error failure => exact .inl ⟨failure, rfl⟩
  | ok document =>
    dsimp only
    cases wrote : tree.write job.output (textOctets document) with
    | error fault => exact .inl ⟨_, rfl⟩
    | ok written => exact .inr ⟨document, written, rfl, wrote, rfl⟩

@[simp] theorem job_doneIn (tree : FileTree) (job : Job) :
    (settings.doneIn tree job).1.job = job := by
  obtain ⟨failure, did⟩ | ⟨_, _, -, -, did⟩ := settings.doneIn_cases tree job <;> rw [did]

/-- **There is one report for each job**, in the order of the jobs. -/
theorem jobs_doneAll (tree : FileTree) (jobs : List Job) :
    (settings.doneAll tree jobs).1.map JobReport.job = jobs := by
  induction jobs generalizing tree with
  | nil => rfl
  | cons job jobs ih => simp only [doneAll, List.map_cons, job_doneIn, ih]

theorem job_mem_of_doneAll {tree : FileTree} {jobs : List Job} {report : JobReport}
    (mem : report ∈ (settings.doneAll tree jobs).1) : report.job ∈ jobs := by
  rw [← settings.jobs_doneAll tree jobs]
  exact List.mem_map_of_mem mem

/-- What can be read has a source: octets that are no text are replaced and do not
fail. -/
theorem sourceIn_of_read {tree : FileTree} {path : String} {octets : List UInt8}
    (read : tree.read path = .ok octets) : sourceIn tree path = .ok (textOfOctets octets) := by
  have there : tree.pathExists path = true := by
    simp only [FileTree.read, bind_eq_ok] at read
    obtain ⟨node, found, -⟩ := read
    simp [FileTree.pathExists, found, Except.toOption]
  rw [sourceIn, if_pos there, read]

section Jobs

variable {settings : Settings} {tree : FileTree} {path : String} {octets : List UInt8}

/-- **What a job leaves alone**: all that has another name than its output. -/
theorem read_doneIn {job : Job} (read : tree.read path = .ok octets)
    (proper : FileTree.isProper (lastName path) = true)
    (apart : (settings.doneIn tree job).1.failure = none → lastName path ≠ lastName job.output) :
    (settings.doneIn tree job).2.read path = .ok octets := by
  obtain ⟨failure, did⟩ | ⟨document, written, -, wrote, did⟩ := settings.doneIn_cases tree job
  · rw [did]
    exact read
  · rw [did] at apart ⊢
    exact FileTree.read_of_write_other wrote read proper (apart rfl)

/-- **Jobs leave alone what they do not write**: a file whose name is none of the
outputs has the same content after all of them. By induction on the jobs; one job writes
at most one file. -/
theorem read_doneAll {jobs : List Job} (read : tree.read path = .ok octets)
    (proper : FileTree.isProper (lastName path) = true)
    (apart : ∀ report ∈ (settings.doneAll tree jobs).1, report.failure = none →
      lastName path ≠ lastName report.job.output) :
    (settings.doneAll tree jobs).2.read path = .ok octets := by
  induction jobs generalizing tree with
  | nil => exact read
  | cons job jobs ih =>
    simp only [doneAll, List.forall_mem_cons, job_doneIn] at apart ⊢
    exact ih (read_doneIn read proper apart.1) apart.2

/-- **The last job that wrote to a path decides what is there.** -/
theorem read_lastTo {all jobs : List Job} (apart : Apart all) (within : jobs ⊆ all)
    (readable : ∀ job ∈ jobs, ∃ octets, tree.read job.input = .ok octets) {output : String}
    {last : JobReport} (h : lastTo? output (settings.doneAll tree jobs).1 = some last) :
    ∃ document, (sourceIn tree last.job.input >>= settings.documentOf) = .ok document
      ∧ (settings.doneAll tree jobs).2.read output = .ok (textOctets document) := by
  induction jobs generalizing tree with
  | nil => cases h
  | cons job jobs ih =>
    rw [List.cons_subset] at within
    rw [List.forall_mem_cons] at readable
    have kept {other : Job} (mem : other ∈ jobs) {octets : List UInt8}
        (read : tree.read other.input = .ok octets) :
        (settings.doneIn tree job).2.read other.input = .ok octets :=
      read_doneIn read (apart.input other (within.2 mem))
        fun _ => apart.inputs other (within.2 mem) job within.1
    simp only [doneAll, lastTo?_cons] at h ⊢
    cases later : lastTo? output (settings.doneAll (settings.doneIn tree job).2 jobs).1 with
    | some last' =>
      rw [later, Option.some_or] at h
      cases h
      -- a later job wrote there, and read what there was from the start
      have mem : last.job ∈ jobs := settings.job_mem_of_doneAll (of_lastTo? later).1
      obtain ⟨octets, read⟩ := readable.2 last.job mem
      obtain ⟨document, converted, wrote⟩ := ih within.2
        (fun other mem => (readable.2 other mem).imp fun _ read => kept mem read) later
      refine ⟨document, ?_, wrote⟩
      rw [sourceIn_of_read read]
      rwa [sourceIn_of_read (kept mem read)] at converted
    | none =>
      rw [later, Option.none_or] at h
      split at h
      · rename_i did
        cases h
        obtain ⟨ok, rfl⟩ := did
        rw [job_doneIn]
        obtain ⟨failure, did⟩ | ⟨document, written, converted, wrote, did⟩ :=
          settings.doneIn_cases tree job
        · rw [did] at ok
          cases ok
        · -- no later job wrote there, so what this one wrote is left
          rw [did] at later ⊢
          refine ⟨document, converted,
            read_doneAll (FileTree.read_of_write wrote) (apart.output job within.1) ?_⟩
          intro report mem ok same
          have there : report.job ∈ all := within.2 (settings.job_mem_of_doneAll mem)
          exact lastTo?_eq_none_iff.mp later report mem ok
            (apart.outputs job within.1 report.job there same).symm
      · cases h

end Jobs

/-! ## What is left -/

/-- **The document of a file**: what the conversion makes of its text. -/
def IsDocumentOf (tree : FileTree) (input document : String) : Prop :=
  ∃ source, runOn (readSource input) tree = (.ok source, tree)
    ∧ settings.document? source = some document

/-- A document of an input is what the settings make of its source. -/
theorem isDocumentOf_iff {settings : Settings} {tree : FileTree} {input document : String} :
    settings.IsDocumentOf tree input document
      ↔ (sourceIn tree input >>= settings.documentOf) = .ok document := by
  have ended (source : String) :
      settings.documentOf source = .ok document ↔ settings.document? source = some document := by
    rw [documentOf]
    cases settings.document? source <;> simp
  simp only [IsDocumentOf, bind_eq_ok, runOn_readSource, Prod.mk.injEq, and_true, ended]

/-- Jobs for what was found keep apart, and their inputs can be read. -/
theorem apart_of_inputsIn {dir target : String} {tree : FileTree} {inputs : List String}
    (found : inputsIn tree dir = .ok inputs) {jobs : List Job}
    (arranged : jobs.Perm (inputs.map (jobFor target))) :
    Apart jobs ∧ ∀ job ∈ jobs, ∃ octets, tree.read job.input = .ok octets := by
  have programs := of_inputsIn found
  constructor
  · refine apart_of_programs target dir fun job mem => ?_
    obtain ⟨input, here, rfl⟩ := List.mem_map.mp (arranged.mem_iff.mp mem)
    obtain ⟨-, name, program, rfl⟩ := programs input here
    exact ⟨name, program, rfl⟩
  · intro job mem
    obtain ⟨input, here, rfl⟩ := List.mem_map.mp (arranged.mem_iff.mp mem)
    exact FileTree.read_of_isFile (programs input here).1

/-- **What the last job to a path leaves there** is the document of its input as
that was before the batch. -/
theorem isDocumentOf_lastTo {settings : Settings} {tree ready after : FileTree} {jobs : List Job}
    {done : List JobReport} (apart : Apart jobs)
    (readable : ∀ job ∈ jobs, ∃ octets, tree.read job.input = .ok octets)
    (grown : tree.Extends ready) (did : settings.doneAll ready jobs = (done, after))
    {path : String} {last : JobReport} (is : lastTo? path done = some last) :
    ∃ document, settings.IsDocumentOf tree last.job.input document
      ∧ after.read path = .ok (textOctets document) := by
  obtain ⟨rfl, rfl⟩ := Prod.mk.inj did
  obtain ⟨document, converted, wrote⟩ := read_lastTo apart (List.Subset.refl _)
    (fun job mem => (readable job mem).imp fun _ read => FileTree.read_of_extends grown read) is
  have mem : last.job ∈ jobs := settings.job_mem_of_doneAll (of_lastTo? is).1
  obtain ⟨octets, read⟩ := readable last.job mem
  rw [sourceIn_of_read (FileTree.read_of_extends grown read)] at converted
  exact ⟨document, isDocumentOf_iff.mpr (by rwa [sourceIn_of_read read]), wrote⟩

/-- **A batch leaves the document of the last job that wrote to each path.** A
batch on a tree of files does its jobs in some order, one for each page program
it finds, and reports on each. Where a job is reported as done, there is at its
output the document of the job that was done last of all with that output. So
it is the document of the job's own input, as that was at the start, if no
other job that was done had the same output. -/
theorem last_document_is_left {settings : Settings} {arrange : List Job → List Job}
    (arranged : ∀ jobs, (arrange jobs).Perm jobs) {dir : String} {output : Option String}
    {tree after : FileTree} {reports : List JobReport}
    (ran : runOn (settings.convertDirectoryInOrder arrange dir output) tree
      = (.ok reports, after)) :
    ∃ inputs done, runOn (findInputs dir) tree = (.ok inputs, tree)
      ∧ done.map JobReport.job = arrange (inputs.map (jobFor (output.getD dir)))
      ∧ done.Perm reports
      ∧ ∀ report ∈ reports, report.failure = none →
          (∃ last document, lastTo? report.job.output done = some last
            ∧ settings.IsDocumentOf tree last.job.input document
            ∧ after.read report.job.output = .ok (textOctets document))
          ∧ ((∀ other ∈ reports, other.failure = none →
                other.job.output = report.job.output → other = report) →
              ∃ document, settings.IsDocumentOf tree report.job.input document
                ∧ after.read report.job.output = .ok (textOctets document)) := by
  rw [runOn_convertDirectoryInOrder] at ran
  obtain ⟨inputs, ready, done, found, grown, did, rfl⟩ := settings.of_batchIn ran
  obtain ⟨apart, readable⟩ := apart_of_inputsIn found (arranged _)
  have jobs := settings.jobs_doneAll ready (arrange (inputs.map (jobFor (output.getD dir))))
  rw [did] at jobs
  have returned : runOn (findInputs dir) tree = (.ok inputs, tree) := by
    rw [runOn_findInputs, found]
  refine ⟨inputs, done, returned, jobs, (List.mergeSort_perm done _).symm, ?_⟩
  -- the last job to write there need not be the one reported on
  intro report mem ok
  obtain ⟨last, is⟩ := exists_lastTo? (List.mem_mergeSort.mp mem) ok
  obtain ⟨document, own, wrote⟩ := isDocumentOf_lastTo apart readable grown did is
  refine ⟨⟨last, document, is, own, wrote⟩, fun only => ?_⟩
  -- unless no other job has written there
  obtain ⟨there, ok', same⟩ := of_lastTo? is
  obtain rfl := only last (List.mem_mergeSort.mpr there) ok' same
  exact ⟨document, own, wrote⟩

/-! Three programs, two of which have the same name but for the extension. -/

/-- A directory with three page programs. -/
def threePrograms : FileTree :=
  ⟨[(⟨.above 0, ["d"]⟩, .directory), (⟨.above 0, ["d", "a.eps"]⟩, .file (textOctets "foo")),
    (⟨.above 0, ["d", "a.ps"]⟩, .file (textOctets "bar")),
    (⟨.above 0, ["d", "b.PS"]⟩, .file [])]⟩

/-- All three files are inputs, in the order of their names. -/
theorem inputsIn_threePrograms :
    inputsIn threePrograms "d" = .ok ["d/a.eps", "d/a.ps", "d/b.PS"] := by
  have there : threePrograms.pathExists "d" = true := by decide +kernel
  have isDir : threePrograms.isDirectory "d" = true := by decide +kernel
  have listed : threePrograms.list "d" = .ok ["a.eps", "a.ps", "b.PS"] := by decide +kernel
  have programs : ["a.eps", "a.ps", "b.PS"].filter isProgramName = ["a.eps", "a.ps", "b.PS"] := by
    decide +kernel
  have sorted : (["a.eps", "a.ps", "b.PS"].mergeSort fun a b => decide (a ≤ b))
      = ["a.eps", "a.ps", "b.PS"] := List.mergeSort_of_pairwise (by decide +kernel)
  have files : (["a.eps", "a.ps", "b.PS"].map (joinPath "d")).filter
      (fun path => threePrograms.isFile path) = ["d/a.eps", "d/a.ps", "d/b.PS"] := by
    decide +kernel
  simp only [inputsIn, there, isDir, listed, programs, sorted, files, if_true]

/-- The three programs are done in reverse order, with a target directory that is
made for them. All are reported as done. -/
theorem last_document_is_left_reversed :
    ∃ (reports : List JobReport) (after : FileTree),
      (∀ jobs : List Job, jobs.reverse.Perm jobs)
      ∧ runOn (({ fuel := 10 } : Settings).convertDirectoryInOrder List.reverse "d" (some "o/p"))
          threePrograms = (.ok reports, after)
      ∧ ⟨⟨"d/b.PS", "o/p/b.svg"⟩, none⟩ ∈ reports
      ∧ ⟨⟨"d/a.ps", "o/p/a.svg"⟩, none⟩ ∈ reports
      ∧ ∃ inputs done, runOn (findInputs "d") threePrograms = (.ok inputs, threePrograms)
        ∧ done.map JobReport.job = (inputs.map (jobFor "o/p")).reverse
        ∧ done.Perm reports
        ∧ ∀ report ∈ reports, report.failure = none →
            (∃ last document, lastTo? report.job.output done = some last
              ∧ IsDocumentOf { fuel := 10 } threePrograms last.job.input document
              ∧ after.read report.job.output = .ok (textOctets document))
            ∧ ((∀ other ∈ reports, other.failure = none →
                  other.job.output = report.job.output → other = report) →
                ∃ document, IsDocumentOf { fuel := 10 } threePrograms report.job.input document
                  ∧ after.read report.job.output = .ok (textOctets document)) := by
  have made : threePrograms.makeDirectories "o/p"
      = (.ok (), (threePrograms.makeDirectories "o/p").2) := Prod.ext (by decide +kernel) rfl
  have ran := (runOn_convertDirectoryInOrder { fuel := 10 } List.reverse "d" (some "o/p")
    threePrograms).trans (batchIn_of_inputsIn _ inputsIn_threePrograms (by simp) made)
  have done : (doneAll { fuel := 10 } (threePrograms.makeDirectories "o/p").2
      (["d/a.eps", "d/a.ps", "d/b.PS"].map (jobFor "o/p")).reverse).1
      = [⟨⟨"d/b.PS", "o/p/b.svg"⟩, none⟩, ⟨⟨"d/a.ps", "o/p/a.svg"⟩, none⟩,
        ⟨⟨"d/a.eps", "o/p/a.svg"⟩, none⟩] := by decide +kernel
  simp only [Option.getD_some, done] at ran
  exact ⟨_, _, List.reverse_perm, ran, List.mem_mergeSort.mpr (by simp),
    List.mem_mergeSort.mpr (by simp), last_document_is_left List.reverse_perm ran⟩

/-- The document that shows one remark and nothing else. -/
def remarkDocument (message : String) : String :=
  Fragments.document { shapes := [commentMarkup message] } (.ofSize 1920 1080)

/-- **Not every job that is reported as done has its document at its output.**
Two programs are named `a`, and both documents go to the same path. Both are
reported as done, and the document of the first is not there. -/
theorem first_document_is_lost :
    ∃ after, runOn (({ fuel := 10 } : Settings).convertDirectory "d" none) threePrograms
        = (.ok [⟨⟨"d/a.eps", "d/a.svg"⟩, none⟩, ⟨⟨"d/a.ps", "d/a.svg"⟩, none⟩,
            ⟨⟨"d/b.PS", "d/b.svg"⟩, none⟩], after)
      ∧ IsDocumentOf { fuel := 10 } threePrograms "d/a.eps"
          (remarkDocument "Unhandled operator: foo")
      ∧ after.read "d/a.svg" = .ok (textOctets (remarkDocument "Unhandled operator: bar"))
      ∧ textOctets (remarkDocument "Unhandled operator: foo")
          ≠ textOctets (remarkDocument "Unhandled operator: bar") := by
  have made : threePrograms.makeDirectories "d" = (.ok (), threePrograms) := by decide +kernel
  have ran := (runOn_convertDirectoryInOrder { fuel := 10 } id "d" none threePrograms).trans
    (batchIn_of_inputsIn _ inputsIn_threePrograms (by simp) made)
  have done : (doneAll { fuel := 10 } threePrograms
      (["d/a.eps", "d/a.ps", "d/b.PS"].map (jobFor "d"))).1
      = [⟨⟨"d/a.eps", "d/a.svg"⟩, none⟩, ⟨⟨"d/a.ps", "d/a.svg"⟩, none⟩,
        ⟨⟨"d/b.PS", "d/b.svg"⟩, none⟩] := by decide +kernel
  have sorted : ([⟨⟨"d/a.eps", "d/a.svg"⟩, none⟩, ⟨⟨"d/a.ps", "d/a.svg"⟩, none⟩,
        ⟨⟨"d/b.PS", "d/b.svg"⟩, none⟩].mergeSort fun a b : JobReport => a.job.input ≤ b.job.input)
      = [⟨⟨"d/a.eps", "d/a.svg"⟩, none⟩, ⟨⟨"d/a.ps", "d/a.svg"⟩, none⟩,
        ⟨⟨"d/b.PS", "d/b.svg"⟩, none⟩] := List.mergeSort_of_pairwise (by decide +kernel)
  simp only [Option.getD_none, id_eq, done, sorted] at ran
  have foo : IsDocumentOf { fuel := 10 } threePrograms "d/a.eps"
      (remarkDocument "Unhandled operator: foo") := isDocumentOf_iff.mpr (by decide +kernel)
  have bar : IsDocumentOf { fuel := 10 } threePrograms "d/a.ps"
      (remarkDocument "Unhandled operator: bar") := isDocumentOf_iff.mpr (by decide +kernel)
  obtain ⟨apart, readable⟩ := apart_of_inputsIn inputsIn_threePrograms (.refl _)
  have last : lastTo? "d/a.svg" [⟨⟨"d/a.eps", "d/a.svg"⟩, none⟩, ⟨⟨"d/a.ps", "d/a.svg"⟩, none⟩,
      ⟨⟨"d/b.PS", "d/b.svg"⟩, none⟩] = some ⟨⟨"d/a.ps", "d/a.svg"⟩, none⟩ := by decide
  obtain ⟨document, own, wrote⟩ :=
    isDocumentOf_lastTo apart readable (.refl _) (Prod.ext done rfl) last
  obtain rfl : remarkDocument "Unhandled operator: bar" = document :=
    Except.ok.inj ((isDocumentOf_iff.mp bar).symm.trans (isDocumentOf_iff.mp own))
  refine ⟨_, ran, foo, wrote, fun same => ?_⟩
  have different : remarkDocument "Unhandled operator: foo"
      ≠ remarkDocument "Unhandled operator: bar" := by decide +kernel
  exact different (textOctets_injective same)

end Settings

end VectorPage
