/-
The order of a batch is not seen.

The jobs of a batch may be done in any order, each on the tree that the ones
before it left. What a job comes to is still settled before the first one is
begun: where its document goes, what it is, or why there is none (`outcomeIn`).
The reason is in the paths. What is read ends in `ps` and what is written ends
in `svg`, so no document changes a text that is still to be read. And all
documents go into one directory, so a document that was written found that
directory, and takes the place of no other document's way to it.

From that step everything else follows by going through the jobs once. The
reports are the outcomes, and to sort them is to forget the order. The tree that
is left depends on the order only where two documents go to the same place.
-/
import Mathlib.Data.List.Nodup
import VectorPage.Proofs.Batch

set_option autoImplicit false

namespace VectorPage

namespace FileTree

/-! ## Files in one directory -/

/-- **Two paths never meet**: in no tree whatever do they lead to the same
place. -/
def NeverMeet (path path' : String) : Prop :=
  ∀ (tree : FileTree) (place : Place), tree.LeadsTo path place → ¬ tree.LeadsTo path' place

/-- Paths with different last names never meet. -/
theorem neverMeet_of_lastName {path path' : String}
    (proper : isProper (Settings.lastName path) = true)
    (proper' : isProper (Settings.lastName path') = true) (inside : pathComponents path ≠ [])
    (inside' : pathComponents path' ≠ [])
    (apart : Settings.lastName path ≠ Settings.lastName path') : NeverMeet path path' := by
  intro tree place leads leads'
  have same := (leads.getLast?_names proper inside).symm.trans
    (leads'.getLast?_names proper' inside')
  exact apart (Option.some.inj same)

/-- A name that can stand last in a path: it is one component and leads to a
place of its own. -/
structure IsPlainName (name : String) : Prop where
  unslashed : '/' ∉ name.toList
  filled : name ≠ ""
  proper : isProper name = true

section Beside

variable {tree : FileTree} {target name name' : String} {place : Place}

/-- A path is absolute or not by its first character, which the directory decides. -/
theorem startOf_joinPath (target : String) (unslashed : '/' ∉ name.toList) :
    Place.startOf (joinPath target name) = Place.startOf target := by
  unfold Place.startOf joinPath
  cases chars : target.toList with
  | nil =>
    obtain rfl : target = "" := String.toList_eq_nil_iff.mp chars
    have other : name.toList.head? ≠ some '/' := fun head =>
      unslashed (List.mem_of_mem_head? head)
    simp [other]
  | cons c cs =>
    split <;> simp [chars]

/-- A plain name at the end is not taken for a directory. -/
theorem endsWithSlash_joinPath (target : String) (plain : IsPlainName name) :
    endsWithSlash (joinPath target name) = false := by
  have filled : name.toList ≠ [] := fun empty => plain.filled (String.toList_eq_nil_iff.mp empty)
  obtain ⟨c, last⟩ : ∃ c, name.toList.getLast? = some c := ⟨_, List.getLast?_eq_some_getLast filled⟩
  have other : c ≠ '/' := by
    rintro rfl
    exact plain.unslashed (List.mem_of_getLast? last)
  rw [endsWithSlash, Settings.getLast?_joinPath target last]
  simp [other]

/-- **The place of a file in a directory** is found in the directory. -/
theorem placeFor_joinPath (tree : FileTree) (target : String) (plain : IsPlainName name) :
    tree.placeFor (joinPath target name) = (do
      checkPath (joinPath target name)
      let dir ← tree.walk (.startOf target) (pathComponents target ++ ["."])
      let place ← childOf dir name
      if tree.node? place = some .directory then throw .isDirectory
      return place) := by
  have proper := plain.proper
  simp only [isProper, Bool.and_eq_true, bne_iff_ne] at proper
  have other : (name = "." || name = ".." || endsWithSlash (joinPath target name)) = false := by
    simp [proper.1, proper.2, endsWithSlash_joinPath target plain]
  unfold placeFor
  rw [pathComponents_joinPath target plain.unslashed plain.filled,
    startOf_joinPath target plain.unslashed, List.reverse_append, List.reverse_singleton,
    List.singleton_append]
  simp only [List.reverse_reverse, other, Bool.false_eq_true, if_false]

/-- **A file that is written stands in no other file's way.** The way to the
directory was open and stays so, and where there was no directory there is none
now. -/
theorem placeFor_put (plain : IsPlainName name) (plain' : IsPlainName name')
    (h : tree.placeFor (joinPath target name) = .ok place) (octets : List UInt8) :
    (tree.put place (.file octets)).placeFor (joinPath target name')
      = tree.placeFor (joinPath target name') := by
  obtain ⟨-, -, -, free⟩ := placeFor_eq_ok h
  -- the place held no directory, so none is lost, and none is won by writing a file
  have kept : tree.KeepsDirectories (tree.put place (.file octets)) := .put free _
  rw [placeFor_joinPath tree target plain] at h
  obtain ⟨-, -, h⟩ := bind_eq_ok.mp h
  obtain ⟨dir, way, -⟩ := bind_eq_ok.mp h
  rw [placeFor_joinPath _ target plain', placeFor_joinPath _ target plain', way,
    walk_of_keepsDirectories kept way]
  have same (p : Place) : (tree.put place (.file octets)).node? p = some .directory
      ↔ tree.node? p = some .directory := by
    rw [node?_put tree (names_ne_nil free)]
    by_cases here : p = place
    · subst here
      simp [free]
    · rw [if_neg here]
  simp only [same]

end Beside

end FileTree

namespace Settings

open FileTree

variable (settings : Settings)

/-! ## What a job comes to -/

/-- **What a job comes to** on a tree: where its document goes and what it is, or
the failure. -/
def outcomeIn (tree : FileTree) (job : Job) : Except Failure (Place × String) := do
  let document ← sourceIn tree job.input >>= settings.documentOf
  match tree.placeFor job.output with
  | .ok place => return (place, document)
  | .error fault => throw (.io job.output fault)

/-- The report on a job that comes to an outcome. -/
def reportOf (job : Job) : Except Failure (Place × String) → JobReport
  | .ok _ => ⟨job, none⟩
  | .error failure => ⟨job, some failure⟩

/-- The tree after a job that comes to an outcome. -/
def leaves (tree : FileTree) : Except Failure (Place × String) → FileTree
  | .ok (place, document) => tree.put place (.file (textOctets document))
  | .error _ => tree

/-- **A job is done as its outcome says.** -/
theorem doneIn_eq (tree : FileTree) (job : Job) :
    settings.doneIn tree job = (reportOf job (settings.outcomeIn tree job),
      leaves tree (settings.outcomeIn tree job)) := by
  unfold doneIn outcomeIn
  cases sourceIn tree job.input >>= settings.documentOf with
  | error failure => rfl
  | ok document =>
    dsimp only [bind, Except.bind]
    rw [write_eq]
    cases tree.placeFor job.output <;> rfl

/-- A job that comes to its end writes at the place of its output. -/
theorem outcomeIn_eq_ok {tree : FileTree} {job : Job} {place : Place} {document : String}
    (h : settings.outcomeIn tree job = .ok (place, document)) :
    tree.placeFor job.output = .ok place := by
  unfold outcomeIn at h
  obtain ⟨_, -, h⟩ := bind_eq_ok.mp h
  cases found : tree.placeFor job.output with
  | error fault =>
    rw [found] at h
    cases h
  | ok place' =>
    rw [found] at h
    cases h
    rfl

@[simp] theorem job_reportOf (job : Job) (outcome : Except Failure (Place × String)) :
    (reportOf job outcome).job = job := by
  cases outcome <;> rfl

/-- **The jobs of one batch** on a tree: their inputs can be read, their documents
go into one directory, and no document has the name of an input. -/
structure IsBatch (tree : FileTree) (target : String) (jobs : List Job) : Prop where
  apart : Apart jobs
  readable : ∀ job ∈ jobs, ∃ octets, tree.read job.input = .ok octets
  job : ∀ job ∈ jobs, job = jobFor target job.input

/-- The names of documents are plain: they have a stem or a point, an extension and no
separator. -/
theorem isPlainName_documentName (input : String) :
    IsPlainName (documentName (lastName input)) where
  unslashed := not_mem_documentName (not_mem_lastName input)
  filled := by
    intro empty
    have ends := getLast?_documentName (lastName input)
    rw [empty] at ends
    cases ends
  proper := isProper_of_getLast? (getLast?_documentName _) (by decide)

section Jobs

variable {settings : Settings} {tree : FileTree} {target : String} {all jobs : List Job}
  {job other : Job}

/-- All outputs of a batch are in one directory, under plain names. -/
theorem IsBatch.beside (batch : IsBatch tree target all) (mem : job ∈ all) :
    ∃ name, IsPlainName name ∧ job.output = joinPath target name :=
  ⟨_, isPlainName_documentName job.input, congrArg Job.output (batch.job job mem)⟩

/-- A batch is one on every larger tree. -/
theorem IsBatch.of_extends {ready : FileTree} (batch : IsBatch tree target all)
    (grown : tree.Extends ready) : IsBatch ready target all where
  apart := batch.apart
  readable job mem := (batch.readable job mem).imp fun _ read => FileTree.read_of_extends grown read
  job := batch.job

/-- Making the directory for the outputs changes no input. -/
theorem IsBatch.read_of_extends {ready : FileTree} (batch : IsBatch tree target all)
    (grown : tree.Extends ready) (mem : job ∈ all) :
    ready.read job.input = tree.read job.input := by
  obtain ⟨octets, read⟩ := batch.readable job mem
  rw [read, FileTree.read_of_extends grown read]

/-- What is read for a job is there after another one, too. -/
theorem IsBatch.read_eq (batch : IsBatch tree target all) (mem : job ∈ all) (mem' : other ∈ all) :
    (settings.doneIn tree other).2.read job.input = tree.read job.input := by
  obtain ⟨octets, read⟩ := batch.readable job mem
  rw [read]
  exact read_doneIn read (batch.apart.input job mem) fun _ => batch.apart.inputs job mem other mem'

/-- A batch stays one while its jobs are done. -/
theorem IsBatch.doneIn (batch : IsBatch tree target all) (mem : other ∈ all) :
    IsBatch (settings.doneIn tree other).2 target all where
  apart := batch.apart
  readable job mem' := by
    rw [batch.read_eq mem' mem]
    exact batch.readable job mem'
  job := batch.job

/-- **What a job comes to does not change when another one is done.** -/
theorem IsBatch.outcomeIn_eq (batch : IsBatch tree target all) (mem : job ∈ all)
    (mem' : other ∈ all) :
    settings.outcomeIn (settings.doneIn tree other).2 job = settings.outcomeIn tree job := by
  have source : sourceIn (settings.doneIn tree other).2 job.input = sourceIn tree job.input := by
    obtain ⟨octets, read⟩ := batch.readable job mem
    have read' : (settings.doneIn tree other).2.read job.input = .ok octets :=
      (batch.read_eq mem mem').trans read
    rw [sourceIn_of_read read, sourceIn_of_read read']
  have place : (settings.doneIn tree other).2.placeFor job.output = tree.placeFor job.output := by
    obtain ⟨name, plain, path⟩ := batch.beside mem
    obtain ⟨name', plain', path'⟩ := batch.beside mem'
    rw [doneIn_eq]
    cases outcome : settings.outcomeIn tree other with
    | error failure => rfl
    | ok written =>
      obtain ⟨place, document⟩ := written
      have found := settings.outcomeIn_eq_ok outcome
      rw [path'] at found
      rw [path]
      exact placeFor_put plain' plain found _
  unfold outcomeIn
  rw [source, place]

/-! ## Going through the jobs -/

/-- The first job, and then the others in the tree that it has left. -/
theorem doneAll_cons (tree : FileTree) (job : Job) (jobs : List Job) :
    settings.doneAll tree (job :: jobs)
      = ((settings.doneIn tree job).1 :: (settings.doneAll (settings.doneIn tree job).2 jobs).1,
        (settings.doneAll (settings.doneIn tree job).2 jobs).2) := rfl

/-- **The reports are the outcomes** that the jobs had from the start. -/
theorem IsBatch.reports_eq (batch : IsBatch tree target all) (within : jobs ⊆ all) :
    (settings.doneAll tree jobs).1
      = jobs.map fun job => reportOf job (settings.outcomeIn tree job) := by
  induction jobs generalizing tree with
  | nil => rfl
  | cons first jobs ih =>
    obtain ⟨here, within⟩ := List.cons_subset.mp within
    rw [doneAll_cons, ih (batch.doneIn here) within, doneIn_eq, List.map_cons]
    refine congrArg (_ :: ·) (List.map_congr_left fun job mem => ?_)
    rw [← doneIn_eq, batch.outcomeIn_eq (within mem) here]

/-- Where no document goes, nothing changes. -/
theorem IsBatch.node?_of_untouched (batch : IsBatch tree target all) (within : jobs ⊆ all)
    {place : Place}
    (untouched : ∀ job ∈ jobs, ∀ document, settings.outcomeIn tree job ≠ .ok (place, document)) :
    (settings.doneAll tree jobs).2.node? place = tree.node? place := by
  induction jobs generalizing tree with
  | nil => rfl
  | cons first jobs ih =>
    obtain ⟨here, within⟩ := List.cons_subset.mp within
    rw [List.forall_mem_cons] at untouched
    rw [doneAll_cons]
    dsimp only
    rw [ih (batch.doneIn here) within]
    · -- the first job left the place alone
      rw [doneIn_eq]
      cases outcome : settings.outcomeIn tree first with
      | error failure => rfl
      | ok written =>
        obtain ⟨place', document⟩ := written
        obtain ⟨-, -, -, free⟩ := placeFor_eq_ok (settings.outcomeIn_eq_ok outcome)
        have elsewhere : place ≠ place' := by
          rintro rfl
          exact untouched.1 document outcome
        exact (node?_put tree (names_ne_nil free) _ place).trans (if_neg elsewhere)
    · intro job mem document
      rw [batch.outcomeIn_eq (within mem) here]
      exact untouched.2 job mem document

/-- Where all documents that go there are the same one, that one is left. -/
theorem IsBatch.node?_of_written (batch : IsBatch tree target all) (within : jobs ⊆ all)
    {place : Place} {document : String} (mem : job ∈ jobs)
    (written : settings.outcomeIn tree job = .ok (place, document))
    (only : ∀ other ∈ jobs, ∀ document', settings.outcomeIn tree other = .ok (place, document') →
      document' = document) :
    (settings.doneAll tree jobs).2.node? place = some (.file (textOctets document)) := by
  induction jobs generalizing tree job with
  | nil => cases mem
  | cons first jobs ih =>
    obtain ⟨here, inside⟩ := List.cons_subset.mp within
    rw [List.forall_mem_cons] at only
    rw [doneAll_cons]
    dsimp only
    by_cases later : ∃ job ∈ jobs, ∃ document', settings.outcomeIn tree job = .ok (place, document')
    · -- a later job writes there, and the same document
      obtain ⟨job', mem', document', written'⟩ := later
      obtain rfl := only.2 job' mem' document' written'
      refine ih (batch.doneIn here) inside mem' ?_ ?_
      · rw [batch.outcomeIn_eq (inside mem') here, written']
      · intro other mem' document' written'
        rw [batch.outcomeIn_eq (inside mem') here] at written'
        exact only.2 other mem' document' written'
    · -- no later job does, so the first one wrote what is left
      obtain rfl : job = first := by
        rcases List.mem_cons.mp mem with is | mem
        · exact is
        · exact absurd ⟨job, mem, document, written⟩ later
      rw [(batch.doneIn here).node?_of_untouched inside]
      · obtain ⟨-, -, -, free⟩ := placeFor_eq_ok (settings.outcomeIn_eq_ok written)
        rw [doneIn_eq, written]
        exact (node?_put tree (names_ne_nil free) _ place).trans (if_pos rfl)
      · intro other mem' document' written'
        rw [batch.outcomeIn_eq (inside mem') here] at written'
        exact later ⟨other, mem', document', written'⟩

/-- **Jobs that fail can be left out**, and the tree is the same. -/
theorem IsBatch.tree_of_filter (batch : IsBatch tree target all) (within : jobs ⊆ all)
    {keep : Job → Bool}
    (failed : ∀ job ∈ jobs, keep job = false →
      ∀ written, settings.outcomeIn tree job ≠ .ok written) :
    (settings.doneAll tree (jobs.filter keep)).2 = (settings.doneAll tree jobs).2 := by
  induction jobs generalizing tree with
  | nil => rfl
  | cons first jobs ih =>
    obtain ⟨here, within⟩ := List.cons_subset.mp within
    rw [List.forall_mem_cons] at failed
    have rest : (settings.doneAll (settings.doneIn tree first).2 (jobs.filter keep)).2
        = (settings.doneAll (settings.doneIn tree first).2 jobs).2 := by
      refine ih (batch.doneIn here) within fun job mem dropped written => ?_
      rw [batch.outcomeIn_eq (within mem) here]
      exact failed.2 job mem dropped written
    cases kept : keep first with
    | true =>
      rw [List.filter_cons_of_pos kept, doneAll_cons, doneAll_cons]
      exact rest
    | false =>
      -- a job that fails leaves the tree as it was
      have same : (settings.doneIn tree first).2 = tree := by
        rw [doneIn_eq]
        cases outcome : settings.outcomeIn tree first with
        | error failure => rfl
        | ok written => exact absurd outcome (failed.1 kept written)
      rw [List.filter_cons_of_neg (by simp [kept]), doneAll_cons]
      rw [same] at rest ⊢
      exact rest

/-- **The inputs of a batch stay as they were.** -/
theorem IsBatch.read_doneAll (batch : IsBatch tree target all) (within : jobs ⊆ all)
    (mem : job ∈ all) : (settings.doneAll tree jobs).2.read job.input = tree.read job.input := by
  induction jobs generalizing tree with
  | nil => rfl
  | cons first jobs ih =>
    obtain ⟨here, within⟩ := List.cons_subset.mp within
    rw [doneAll_cons]
    exact (ih (batch.doneIn here) within).trans (batch.read_eq mem here)

/-! ## Orders -/

/-- Two documents of a batch that go to one place go to one path. -/
theorem IsBatch.output_eq (batch : IsBatch tree target all) (mem : job ∈ all) (mem' : other ∈ all)
    {place : Place} {document document' : String}
    (written : settings.outcomeIn tree job = .ok (place, document))
    (written' : settings.outcomeIn tree other = .ok (place, document')) :
    job.output = other.output := by
  obtain ⟨leads, proper, inside, -⟩ := placeFor_eq_ok (settings.outcomeIn_eq_ok written)
  obtain ⟨leads', proper', inside', -⟩ := placeFor_eq_ok (settings.outcomeIn_eq_ok written')
  refine batch.apart.outputs job mem other mem' (Option.some.inj ?_)
  rw [← leads.getLast?_names proper inside, leads'.getLast?_names proper' inside']

/-- **Two orders leave the same tree** where no two documents go to one path. -/
theorem IsBatch.node?_eq_of_perm {jobs' : List Job} (batch : IsBatch tree target all)
    (within : jobs ⊆ all) (order : jobs.Perm jobs') (distinct : (jobs.map Job.output).Nodup)
    (place : Place) :
    (settings.doneAll tree jobs).2.node? place = (settings.doneAll tree jobs').2.node? place := by
  have within' : jobs' ⊆ all := fun job mem => within (order.mem_iff.mpr mem)
  by_cases goes : ∃ job ∈ jobs, ∃ document, settings.outcomeIn tree job = .ok (place, document)
  · obtain ⟨job, mem, document, written⟩ := goes
    -- a place is one path, and a path is one job
    have only : ∀ other ∈ jobs, ∀ document',
        settings.outcomeIn tree other = .ok (place, document') → document' = document := by
      intro other mem' document' written'
      have path := batch.output_eq (within mem') (within mem) written' written
      obtain rfl : other = job := List.inj_on_of_nodup_map distinct mem' mem path
      rw [written] at written'
      cases written'
      rfl
    rw [batch.node?_of_written within mem written only,
      batch.node?_of_written within' (order.mem_iff.mp mem) written
        fun other mem' => only other (order.mem_iff.mpr mem')]
  · have untouched : ∀ job ∈ jobs, ∀ document,
        settings.outcomeIn tree job ≠ .ok (place, document) :=
      fun job mem document written => goes ⟨job, mem, document, written⟩
    rw [batch.node?_of_untouched within untouched,
      batch.node?_of_untouched within' fun job mem => untouched job (order.mem_iff.mpr mem)]

/-- Reports in the order of their inputs. -/
def inOrder (reports : List JobReport) : List JobReport :=
  reports.mergeSort fun a b => a.job.input ≤ b.job.input

theorem inOrder_perm (reports : List JobReport) : (inOrder reports).Perm reports :=
  List.mergeSort_perm _ _

theorem pairwise_inOrder (reports : List JobReport) :
    (inOrder reports).Pairwise fun a b => a.job.input ≤ b.job.input := by
  have sorted : (inOrder reports).Pairwise
      fun a b => decide (a.job.input ≤ b.job.input) = true := by
    apply List.pairwise_mergeSort
    · intro a b c ab bc
      exact decide_eq_true (String.le_trans (of_decide_eq_true ab) (of_decide_eq_true bc))
    · intro a b
      simpa using String.le_total a.job.input b.job.input
  exact sorted.imp fun h => of_decide_eq_true h

/-- **To sort the reports of a batch is to forget their order**: a report is known
by its input, so there is one sorted list of them. -/
theorem IsBatch.inOrder_eq (batch : IsBatch tree target all) (within : jobs ⊆ all)
    {reports : List JobReport} (sorted : reports.Pairwise fun a b => a.job.input ≤ b.job.input)
    (same : reports.Perm (settings.doneAll tree jobs).1) :
    inOrder (settings.doneAll tree jobs).1 = reports := by
  have known : ∀ report ∈ (settings.doneAll tree jobs).1, report.job ∈ all
      ∧ report = reportOf report.job (settings.outcomeIn tree report.job) := by
    rw [batch.reports_eq within]
    intro report mem
    obtain ⟨job, here, rfl⟩ := List.mem_map.mp mem
    rw [job_reportOf]
    exact ⟨within here, rfl⟩
  refine List.Perm.eq_of_pairwise ?_ (pairwise_inOrder _) sorted
    ((inOrder_perm _).trans same.symm)
  intro a b mem mem' le ge
  obtain ⟨here, is⟩ := known a ((inOrder_perm _).mem_iff.mp mem)
  obtain ⟨here', is'⟩ := known b (same.mem_iff.mp mem')
  have job : a.job = b.job := by
    rw [batch.job _ here, batch.job _ here', String.le_antisymm le ge]
  rw [is, is', job]

/-- Two orders give the same sorted reports. -/
theorem IsBatch.inOrder_of_perm {jobs' : List Job} (batch : IsBatch tree target all)
    (within : jobs ⊆ all) (order : jobs.Perm jobs') :
    inOrder (settings.doneAll tree jobs).1 = inOrder (settings.doneAll tree jobs').1 := by
  have within' : jobs' ⊆ all := fun job mem => within (order.mem_iff.mpr mem)
  apply batch.inOrder_eq within (pairwise_inOrder _)
  rw [batch.reports_eq within]
  refine (inOrder_perm _).trans ?_
  rw [batch.reports_eq within']
  exact order.symm.map _

/-- **To leave jobs out changes no other report.** -/
theorem IsBatch.inOrder_of_filter (batch : IsBatch tree target all) (within : jobs ⊆ all)
    (keep : Job → Bool) :
    inOrder (settings.doneAll tree (jobs.filter keep)).1
      = (inOrder (settings.doneAll tree jobs).1).filter fun report => keep report.job := by
  have within' : jobs.filter keep ⊆ all := fun job mem => within (List.mem_of_mem_filter mem)
  apply batch.inOrder_eq within' ((pairwise_inOrder _).filter _)
  refine ((inOrder_perm _).filter _).trans (List.Perm.of_eq ?_)
  rw [batch.reports_eq within, batch.reports_eq within', List.filter_map]
  simp only [Function.comp_def, job_reportOf]

/-- There is one report for each job. -/
theorem jobs_inOrder (settings : Settings) (tree : FileTree) (jobs : List Job) :
    ((inOrder (settings.doneAll tree jobs).1).map JobReport.job).Perm jobs := by
  have same := (inOrder_perm (settings.doneAll tree jobs).1).map JobReport.job
  rwa [jobs_doneAll] at same

/-- The outcome of each job is reported. -/
theorem IsBatch.reportOf_mem_inOrder (batch : IsBatch tree target all) (within : jobs ⊆ all)
    (mem : job ∈ jobs) :
    reportOf job (settings.outcomeIn tree job) ∈ inOrder (settings.doneAll tree jobs).1 := by
  refine (inOrder_perm _).mem_iff.mpr ?_
  rw [batch.reports_eq within]
  exact List.mem_map_of_mem mem

end Jobs

/-! ## Batches -/

/-- A batch, run on a tree of files. -/
def batchOn (arrange : List Job → List Job) (dir : String) (output : Option String)
    (tree : FileTree) : Except Failure (List JobReport) × FileTree :=
  runOn (settings.convertDirectoryInOrder arrange dir output) tree

/-- **What comes before the jobs does not depend on their order.** Either the
batch fails before the first one, or it has found inputs and made directories. -/
theorem batchOn_cases (dir : String) (output : Option String) (tree : FileTree) :
    (∃ failure after, ∀ arrange, settings.batchOn arrange dir output tree = (.error failure, after))
    ∨ ∃ inputs ready, inputsIn tree dir = .ok inputs ∧ tree.Extends ready
        ∧ ∀ arrange, settings.batchOn arrange dir output tree
          = (.ok (inOrder
              (settings.doneAll ready (arrange (inputs.map (jobFor (output.getD dir))))).1),
            (settings.doneAll ready (arrange (inputs.map (jobFor (output.getD dir))))).2) := by
  simp only [batchOn, runOn_convertDirectoryInOrder, batchIn]
  cases found : inputsIn tree dir with
  | error failure => exact .inl ⟨failure, tree, fun _ => rfl⟩
  | ok inputs =>
    dsimp only
    by_cases empty : inputs.isEmpty = true
    · -- nothing was found, and then no directory is made
      rw [if_pos empty]
      exact .inr ⟨inputs, tree, rfl, .refl tree, fun _ => rfl⟩
    · rw [if_neg empty]
      have grown := tree.makeDirectories_extends (output.getD dir)
      rcases made : tree.makeDirectories (output.getD dir) with ⟨fault | ⟨⟩, ready⟩
      · exact .inl ⟨_, ready, fun _ => rfl⟩
      · rw [made] at grown
        exact .inr ⟨inputs, ready, rfl, grown, fun _ => rfl⟩

/-- The jobs for what was found are a batch. -/
theorem isBatch_of_inputsIn {dir target : String} {tree : FileTree} {inputs : List String}
    (found : inputsIn tree dir = .ok inputs) :
    IsBatch tree target (inputs.map (jobFor target)) := by
  obtain ⟨apart, readable⟩ := apart_of_inputsIn found (.refl (inputs.map (jobFor target)))
  refine ⟨apart, readable, fun job mem => ?_⟩
  obtain ⟨input, -, rfl⟩ := List.mem_map.mp mem
  rfl

/-- Outputs of a batch never meet its inputs. -/
theorem IsBatch.neverMeet {tree : FileTree} {target : String} {all : List Job} {job other : Job}
    (batch : IsBatch tree target all) (mem : job ∈ all) (mem' : other ∈ all) :
    NeverMeet job.output other.input := by
  refine neverMeet_of_lastName (batch.apart.output job mem) (batch.apart.input other mem') ?_ ?_
    (batch.apart.inputs other mem' job mem).symm
  · obtain ⟨name, plain, path⟩ := batch.beside mem
    rw [path, pathComponents_joinPath target plain.unslashed plain.filled]
    simp
  · -- without components an input would be a directory, which cannot be read
    intro empty
    obtain ⟨octets, read⟩ := batch.readable other mem'
    obtain ⟨place, leads, file⟩ := read_eq_ok_iff.mp read
    have start := leads.way
    rw [empty, walk] at start
    obtain rfl := Except.ok.inj start
    have base : tree.node? (.startOf other.input) = some .directory :=
      if_pos (startOf_names other.input)
    cases base.symm.trans file

/-- **The order of a batch is not seen.** A batch that does its jobs in one order
or another returns the same sorted reports, one for each page program it finds.
No job writes where another one reads, and the inputs are left as they were. To
leave jobs out changes no other report, and if they failed it does not change
the tree either. And if no two documents go to one path, both orders leave the
same at every place. -/
theorem order_is_not_seen (settings : Settings) {arrange₁ arrange₂ : List Job → List Job}
    (first : ∀ jobs, (arrange₁ jobs).Perm jobs) (second : ∀ jobs, (arrange₂ jobs).Perm jobs)
    (dir : String) (output : Option String) (tree : FileTree) :
    (settings.batchOn arrange₁ dir output tree).1 = (settings.batchOn arrange₂ dir output tree).1
    ∧ (∀ reports after, settings.batchOn arrange₁ dir output tree = (.ok reports, after) →
        (∃ inputs, runOn (findInputs dir) tree = (.ok inputs, tree)
          ∧ (reports.map JobReport.job).Perm (inputs.map (jobFor (output.getD dir))))
        ∧ reports.Pairwise (fun a b => a.job.input ≤ b.job.input)
        ∧ (∀ writer ∈ reports, ∀ reader ∈ reports,
            NeverMeet writer.job.output reader.job.input
            ∧ after.read reader.job.input = tree.read reader.job.input)
        ∧ ∀ keep : Job → Bool, ∃ after',
            settings.batchOn (fun jobs => (arrange₁ jobs).filter keep) dir output tree
              = (.ok (reports.filter fun report => keep report.job), after')
            ∧ ((∀ report ∈ reports, keep report.job = false → report.failure ≠ none) →
                after' = after))
    ∧ ((∀ reports, (settings.batchOn arrange₁ dir output tree).1 = .ok reports →
          (reports.map fun report => report.job.output).Nodup) →
        ∀ place, (settings.batchOn arrange₁ dir output tree).2.node? place
          = (settings.batchOn arrange₂ dir output tree).2.node? place) := by
  obtain ⟨failure, after, fails⟩ | ⟨inputs, ready, found, grown, ran⟩ :=
    settings.batchOn_cases dir output tree
  · refine ⟨by rw [fails, fails], fun reports after' returned => ?_, fun _ place => by
      rw [fails, fails]⟩
    rw [fails] at returned
    cases returned
  · obtain ⟨all, is⟩ : ∃ all, inputs.map (jobFor (output.getD dir)) = all := ⟨_, rfl⟩
    -- to make directories takes nothing away, so what was a batch is one still
    have before : IsBatch tree (output.getD dir) all := is ▸ isBatch_of_inputsIn found
    have batch : IsBatch ready (output.getD dir) all := before.of_extends grown
    rw [is] at ran
    have within : arrange₁ all ⊆ all := (first all).subset
    have order : (arrange₁ all).Perm (arrange₂ all) := (first all).trans (second all).symm
    have jobs := settings.jobs_inOrder ready (arrange₁ all)
    refine ⟨?_, fun reports after ended => ?_, fun distinct place => ?_⟩
    · rw [ran, ran, batch.inOrder_of_perm within order]
    · obtain ⟨sorted, rfl⟩ := Prod.mk.inj ((ran arrange₁).symm.trans ended)
      obtain rfl := Except.ok.inj sorted
      have here : ∀ report ∈ inOrder (settings.doneAll ready (arrange₁ all)).1, report.job ∈ all :=
        fun report mem => within (jobs.mem_iff.mp (List.mem_map_of_mem mem))
      refine ⟨⟨inputs, ?_, ?_⟩, pairwise_inOrder _, ?_,
        fun keep => ⟨(settings.doneAll ready ((arrange₁ all).filter keep)).2, ?_, fun failed => ?_⟩⟩
      · rw [runOn_findInputs, found]
      · rw [is]
        exact jobs.trans (first all)
      · intro writer mem reader mem'
        refine ⟨batch.neverMeet (here writer mem) (here reader mem'), ?_⟩
        rw [batch.read_doneAll within (here reader mem')]
        exact before.read_of_extends grown (here reader mem')
      · rw [ran, batch.inOrder_of_filter within]
      · refine batch.tree_of_filter within fun job mem dropped written came => ?_
        have report : reportOf job (settings.outcomeIn ready job)
            ∈ inOrder (settings.doneAll ready (arrange₁ all)).1 :=
          batch.reportOf_mem_inOrder within mem
        rw [came] at report
        exact failed _ report dropped rfl
    · have outputs := distinct _ (congrArg Prod.fst (ran arrange₁))
      rw [ran, ran]
      refine batch.node?_eq_of_perm within order ?_ place
      exact ((jobs.map Job.output).nodup_iff).mp (by rwa [List.map_map])

/-! Two programs, and a directory where the document of the first would go. -/

/-- A directory with two page programs and a directory that is in the way. -/
def occupiedOutput : FileTree :=
  ⟨[(⟨.above 0, ["d"]⟩, .directory), (⟨.above 0, ["d", "a.ps"]⟩, .file (textOctets "foo")),
    (⟨.above 0, ["d", "a.svg"]⟩, .directory), (⟨.above 0, ["d", "b.eps"]⟩, .file [])]⟩

/-- The reports on the two programs. -/
def occupiedReports : List JobReport :=
  [⟨⟨"d/a.ps", "d/a.svg"⟩, some (.io "d/a.svg" .isDirectory)⟩, ⟨⟨"d/b.eps", "d/b.svg"⟩, none⟩]

theorem inputsIn_occupiedOutput : inputsIn occupiedOutput "d" = .ok ["d/a.ps", "d/b.eps"] := by
  have there : occupiedOutput.pathExists "d" = true := by decide +kernel
  have isDir : occupiedOutput.isDirectory "d" = true := by decide +kernel
  have listed : occupiedOutput.list "d" = .ok ["a.ps", "a.svg", "b.eps"] := by decide +kernel
  have programs : ["a.ps", "a.svg", "b.eps"].filter isProgramName = ["a.ps", "b.eps"] := by
    decide +kernel
  have sorted : (["a.ps", "b.eps"].mergeSort fun a b => decide (a ≤ b)) = ["a.ps", "b.eps"] :=
    List.mergeSort_of_pairwise (by decide +kernel)
  have files : (["a.ps", "b.eps"].map (joinPath "d")).filter
      (fun path => occupiedOutput.isFile path) = ["d/a.ps", "d/b.eps"] := by
    decide +kernel
  simp only [inputsIn, there, isDir, listed, programs, sorted, files, if_true]

/-- One of two programs fails, whichever is done first. The other one is reported
as if it were alone, and both orders leave the same tree. -/
theorem order_is_not_seen_beside_failure :
    (∀ jobs : List Job, (id jobs).Perm jobs) ∧ (∀ jobs : List Job, jobs.reverse.Perm jobs)
    ∧ ∃ after, batchOn { fuel := 10 } id "d" none occupiedOutput = (.ok occupiedReports, after)
      ∧ (batchOn { fuel := 10 } List.reverse "d" none occupiedOutput).1 = .ok occupiedReports
      ∧ batchOn { fuel := 10 } (fun jobs => jobs.filter (·.input != "d/a.ps")) "d" none
          occupiedOutput = (.ok [⟨⟨"d/b.eps", "d/b.svg"⟩, none⟩], after)
      ∧ ∀ place, after.node? place
          = (batchOn { fuel := 10 } List.reverse "d" none occupiedOutput).2.node? place := by
  have made : occupiedOutput.makeDirectories "d" = (.ok (), occupiedOutput) := by decide +kernel
  have ran := (runOn_convertDirectoryInOrder { fuel := 10 } id "d" none occupiedOutput).trans
    (batchIn_of_inputsIn _ inputsIn_occupiedOutput (by simp) made)
  have done : (doneAll { fuel := 10 } occupiedOutput
      (["d/a.ps", "d/b.eps"].map (jobFor "d"))).1 = occupiedReports := by decide +kernel
  have sorted : (occupiedReports.mergeSort fun a b : JobReport => a.job.input ≤ b.job.input)
      = occupiedReports := List.mergeSort_of_pairwise (by decide +kernel)
  simp only [Option.getD_none, id_eq, done, sorted] at ran
  have kept (jobs : List Job) : (id jobs).Perm jobs := .refl jobs
  obtain ⟨same, all, trees⟩ :=
    order_is_not_seen { fuel := 10 } kept List.reverse_perm "d" none occupiedOutput
  refine ⟨kept, List.reverse_perm, _, ran, same ▸ congrArg Prod.fst ran, ?_, ?_⟩
  · obtain ⟨-, -, -, left⟩ := all _ _ ran
    obtain ⟨after', without, unchanged⟩ := left (·.input != "d/a.ps")
    rw [unchanged (by decide +kernel)] at without
    exact without
  · have apart : ∀ reports, (batchOn { fuel := 10 } id "d" none occupiedOutput).1 = .ok reports →
        (reports.map fun report => report.job.output).Nodup := by
      intro reports returned
      obtain rfl := Except.ok.inj ((congrArg Prod.fst ran).symm.trans returned)
      decide +kernel
    have left : (batchOn { fuel := 10 } id "d" none occupiedOutput).2 = _ := congrArg Prod.snd ran
    intro place
    rw [← trees apart place, left]

end Settings

end VectorPage
