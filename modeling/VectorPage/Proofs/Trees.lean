/-
What writing a file leaves alone.

A path is followed through directories, so what a path leads to depends on the
directories on the way and on the node at the end. Making directories takes
nothing away, and writing a file turns no directory into a file: the ways stay
open, and all that changes is the node at one place. A place keeps the name
that leads to it, so two paths with different last names never lead to the same
one, whatever links of `.` and `..` are on the way.
-/
import VectorPage.Conversion
import Mathlib.Data.List.Basic

set_option autoImplicit false

namespace VectorPage

/-- Both parts of a computation that succeeds succeed. -/
theorem bind_eq_ok {ε α β : Type} {x : Except ε α} {f : α → Except ε β} {b : β} :
    (x >>= f) = .ok b ↔ ∃ a, x = .ok a ∧ f a = .ok b := by
  cases x with
  | error e => simp [bind, Except.bind]
  | ok a => simp [bind, Except.bind]

/-! ## The last name of a path -/

theorem splitSlashes_cons (c : Char) (cs : List Char) :
    splitSlashes (c :: cs) =
      if c = '/' then [] :: splitSlashes cs
      else
        match splitSlashes cs with
        | part :: rest => (c :: part) :: rest
        | [] => [[c]] := rfl

theorem splitSlashes_ne_nil (cs : List Char) : splitSlashes cs ≠ [] := by
  cases cs with
  | nil => simp [splitSlashes]
  | cons c cs =>
    rw [splitSlashes_cons]
    split
    · simp
    · split <;> simp

/-- The parts on both sides of a slash. -/
theorem splitSlashes_append (a b : List Char) :
    splitSlashes (a ++ '/' :: b) = splitSlashes a ++ splitSlashes b := by
  induction a with
  | nil => rfl
  | cons c a ih =>
    rw [List.cons_append, splitSlashes_cons, splitSlashes_cons, ih]
    obtain ⟨part, rest, parts⟩ := List.exists_cons_of_ne_nil (splitSlashes_ne_nil a)
    split
    · rfl
    · rw [parts]
      rfl

theorem splitSlashes_of_not_mem {cs : List Char} (h : '/' ∉ cs) : splitSlashes cs = [cs] := by
  induction cs with
  | nil => rfl
  | cons c cs ih =>
    rw [List.mem_cons, not_or] at h
    rw [splitSlashes_cons, if_neg (Ne.symm h.1), ih h.2]

/-- No part holds a slash. -/
theorem not_mem_of_mem_splitSlashes {cs part : List Char} (mem : part ∈ splitSlashes cs) :
    '/' ∉ part := by
  induction cs generalizing part with
  | nil =>
    obtain rfl := List.mem_singleton.mp mem
    exact List.not_mem_nil
  | cons c cs ih =>
    obtain ⟨first, rest, parts⟩ := List.exists_cons_of_ne_nil (splitSlashes_ne_nil cs)
    rw [parts] at ih
    rw [splitSlashes_cons, parts] at mem
    split at mem
    · rcases List.mem_cons.mp mem with rfl | mem
      · exact List.not_mem_nil
      · exact ih mem
    · rename_i other
      rcases List.mem_cons.mp mem with rfl | mem
      · have inside := ih List.mem_cons_self
        simp [inside, Ne.symm other]
      · exact ih (List.mem_cons_of_mem _ mem)

/-- Components on both sides of a separator are found separately; empty ones are dropped
on either side. -/
theorem pathComponents_append (a b : List Char) :
    pathComponents (String.ofList (a ++ '/' :: b))
      = pathComponents (String.ofList a) ++ pathComponents (String.ofList b) := by
  simp only [pathComponents, String.toList_ofList, splitSlashes_append, List.filter_append,
    List.map_append]

theorem pathComponents_of_not_mem {name : String} (plain : '/' ∉ name.toList) (named : name ≠ "") :
    pathComponents name = [name] := by
  have filled : name.toList ≠ [] := fun empty => named (String.toList_eq_nil_iff.mp empty)
  rw [pathComponents, splitSlashes_of_not_mem plain]
  simp [filled]

/-- **The components of a name in a directory.** -/
theorem pathComponents_joinPath (dir : String) {name : String} (plain : '/' ∉ name.toList)
    (named : name ≠ "") : pathComponents (joinPath dir name) = pathComponents dir ++ [name] := by
  have own := pathComponents_of_not_mem plain named
  have after (a : List Char) : pathComponents (String.ofList (a ++ '/' :: name.toList))
      = pathComponents (String.ofList a) ++ [name] := by
    rw [pathComponents_append, String.ofList_toList, own]
  unfold joinPath
  split
  · rename_i joined
    rcases Bool.or_eq_true_iff.mp joined with empty | slash
    · obtain rfl : dir = "" := by simpa using empty
      rw [String.empty_append, own]
      rfl
    · -- the directory brings its own slash, and that adds no component
      obtain ⟨a, ends⟩ : ∃ a, dir.toList = a ++ ['/'] :=
        List.getLast?_eq_some_iff.mp (by simpa [endsWithSlash] using slash)
      have text : dir ++ name = String.ofList (a ++ '/' :: name.toList) := by
        rw [← String.toList_inj, String.toList_append, ends]
        simp
      have before : pathComponents dir = pathComponents (String.ofList a) := by
        rw [← String.ofList_toList (s := dir), ends, pathComponents_append]
        exact List.append_nil _
      rw [text, after, before]
  · have text : dir ++ "/" ++ name = String.ofList (dir.toList ++ '/' :: name.toList) := by
      rw [← String.toList_inj]
      simp
    rw [text, after, String.ofList_toList]

namespace Settings

/-- The last component of a name in a directory is the name. -/
theorem lastName_joinPath (dir : String) {name : String} (plain : '/' ∉ name.toList)
    (named : name ≠ "") : lastName (joinPath dir name) = name := by
  rw [lastName, pathComponents_joinPath dir plain named]
  simp

/-- The last part of a text that does not end with a slash ends as the text
does. -/
theorem getLast?_splitSlashes {cs : List Char} {c : Char} (ends : cs.getLast? = some c)
    (other : c ≠ '/') :
    ∃ part, (splitSlashes cs).getLast? = some part ∧ part.getLast? = some c := by
  induction cs with
  | nil => cases ends
  | cons d cs ih =>
    rw [splitSlashes_cons]
    cases cs with
    | nil =>
      obtain rfl : d = c := by simpa using ends
      exact ⟨[d], by simp [other, splitSlashes], rfl⟩
    | cons e cs =>
      rw [List.getLast?_cons_cons] at ends
      obtain ⟨part, last, ended⟩ := ih ends
      obtain ⟨first, rest, parts⟩ := List.exists_cons_of_ne_nil (splitSlashes_ne_nil (e :: cs))
      rw [parts] at last ⊢
      split
      · exact ⟨part, by rw [List.getLast?_cons_cons, last], ended⟩
      · cases rest with
        | nil =>
          obtain rfl : first = part := by simpa using last
          refine ⟨d :: first, rfl, ?_⟩
          cases first with
          | nil => cases ended
          | cons x xs => rw [List.getLast?_cons_cons, ended]
        | cons x xs =>
          rw [List.getLast?_cons_cons] at last
          exact ⟨part, by rw [List.getLast?_cons_cons, last], ended⟩

/-- **The last name of a path ends as the path does.** -/
theorem getLast?_lastName {path : String} {c : Char} (ends : path.toList.getLast? = some c)
    (other : c ≠ '/') : (lastName path).toList.getLast? = some c := by
  obtain ⟨part, last, ended⟩ := getLast?_splitSlashes ends other
  obtain ⟨parts, split⟩ := List.getLast?_eq_some_iff.mp last
  have filled : part ≠ [] := by
    rintro rfl
    cases ended
  rw [lastName, pathComponents, split, List.filter_append, List.map_append]
  simpa [filled] using ended

end Settings

namespace FileTree

/-! ## Nodes and ways -/

/-- **One place is changed** and no other. The root has no name, and is not stored. -/
theorem node?_put (tree : FileTree) {place : Place} (inside : place.names ≠ []) (node : Node)
    (p : Place) :
    (tree.put place node).node? p = if p = place then some node else tree.node? p := by
  rw [node?, node?, put, lookup_setEntry]
  by_cases same : p = place
  · subst same
    simp [inside]
  · simp [same]

/-- No directory is gone. -/
def KeepsDirectories (tree tree' : FileTree) : Prop :=
  ∀ place, tree.node? place = some .directory → tree'.node? place = some .directory

/-- Nothing is gone or changed. -/
def Extends (tree tree' : FileTree) : Prop :=
  ∀ place node, tree.node? place = some node → tree'.node? place = some node

theorem Extends.refl (tree : FileTree) : tree.Extends tree :=
  fun _ _ h => h

theorem Extends.trans {tree₁ tree₂ tree₃ : FileTree} (h₁ : tree₁.Extends tree₂)
    (h₂ : tree₂.Extends tree₃) : tree₁.Extends tree₃ :=
  fun place node h => h₂ place node (h₁ place node h)

theorem Extends.keepsDirectories {tree tree' : FileTree} (h : tree.Extends tree') :
    tree.KeepsDirectories tree' :=
  fun place is => h place .directory is

/-- Bases are directories. -/
theorem names_ne_nil {tree : FileTree} {place : Place}
    (other : tree.node? place ≠ some .directory) : place.names ≠ [] :=
  fun empty => other (if_pos empty)

theorem Extends.put {tree : FileTree} {place : Place} (free : tree.node? place = none)
    (node : Node) : tree.Extends (tree.put place node) := by
  have other : tree.node? place ≠ some .directory := by simp [free]
  intro p is here
  rw [node?_put tree (names_ne_nil other), if_neg, here]
  rintro rfl
  simp [free] at here

section Ways

variable {tree tree' : FileTree} {place last : Place}

/-- **A way stays open** as long as its directories are there. -/
theorem walk_of_keepsDirectories (kept : tree.KeepsDirectories tree') {components : List String}
    (h : tree.walk place components = .ok last) : tree'.walk place components = .ok last := by
  induction components generalizing place with
  | nil => exact h
  | cons component rest ih =>
    rw [walk] at h ⊢
    cases here : tree.node? place with
    | none => simp [here] at h
    | some node =>
      cases node with
      | file octets => simp [here] at h
      | directory =>
        rw [here] at h
        rw [kept place here]
        dsimp only at h ⊢
        cases step : follow place component with
        | error fault => simp [step] at h
        | ok next =>
          rw [step] at h
          exact ih h

/-- A walk can be interrupted: the rest goes on from where the first part has led. -/
theorem walk_append (place : Place) (before after : List String) :
    tree.walk place (before ++ after)
      = (tree.walk place before).bind fun next => tree.walk next after := by
  induction before generalizing place with
  | nil => rfl
  | cons component rest ih =>
    rw [List.cons_append, walk, walk]
    cases tree.node? place with
    | none => rfl
    | some node =>
      cases node with
      | file octets => rfl
      | directory =>
        dsimp only
        cases follow place component with
        | error fault => rfl
        | ok next => exact ih next

/-- A name that is no step in place or upwards. -/
def isProper (name : String) : Bool :=
  name != "." && name != ".."

theorem follow_of_isProper {name : String} (proper : isProper name = true) :
    follow place name = childOf place name := by
  simp only [isProper, Bool.and_eq_true, bne_iff_ne] at proper
  rw [follow, if_neg proper.1, if_neg proper.2]

/-- **The last step of a way** starts from a directory. -/
theorem walk_concat {components : List String} {component : String} :
    tree.walk place (components ++ [component]) = .ok last
      ↔ ∃ dir, tree.walk place components = .ok dir ∧ tree.node? dir = some .directory
        ∧ follow dir component = .ok last := by
  rw [walk_append]
  cases way : tree.walk place components with
  | error fault => simp [Except.bind]
  | ok dir =>
    simp only [Except.bind, Except.ok.injEq, exists_eq_left']
    rw [walk]
    cases tree.node? dir with
    | none => simp
    | some node =>
      cases node with
      | file octets => simp
      | directory =>
        dsimp only
        cases follow dir component with
        | error fault => simp
        | ok next => simp [walk]

/-- A point at the end of a path asks for a directory, and that is how a separator at
the end is read. -/
theorem walk_dot {components : List String} :
    tree.walk place (components ++ ["."]) = .ok last
      ↔ tree.walk place components = .ok last ∧ tree.node? last = some .directory := by
  have stays (dir : Place) : follow dir "." = .ok dir := by simp [follow]
  rw [walk_concat]
  constructor
  · rintro ⟨dir, way, is, step⟩
    obtain rfl := Except.ok.inj ((stays dir).symm.trans step)
    exact ⟨way, is⟩
  · rintro ⟨way, is⟩
    exact ⟨last, way, is, stays last⟩

/-- **A path leads to a place**: it is one that operations take, does not ask for
a directory, and its way is open. -/
structure LeadsTo (tree : FileTree) (path : String) (place : Place) : Prop where
  checked : checkPath path = .ok ()
  unslashed : endsWithSlash path = false
  way : tree.walk (.startOf path) (pathComponents path) = .ok place

/-- A path leads to the same place as long as the directories on its way stay. -/
theorem LeadsTo.of_keepsDirectories {path : String} (h : tree.LeadsTo path place)
    (kept : tree.KeepsDirectories tree') : tree'.LeadsTo path place :=
  ⟨h.checked, h.unslashed, walk_of_keepsDirectories kept h.way⟩

/-- **A place keeps the name that leads to it.** -/
theorem LeadsTo.getLast?_names {path : String} (h : tree.LeadsTo path place)
    (proper : isProper (Settings.lastName path) = true) (inside : pathComponents path ≠ []) :
    place.names.getLast? = some (Settings.lastName path) := by
  obtain ⟨parents, name, components⟩ :=
    (List.eq_nil_or_concat (pathComponents path)).resolve_left inside
  rw [List.concat_eq_append] at components
  have named : Settings.lastName path = name := by simp [Settings.lastName, components]
  rw [named] at proper ⊢
  have way := h.way
  rw [components] at way
  obtain ⟨dir, -, -, step⟩ := walk_concat.mp way
  rw [follow_of_isProper proper, childOf] at step
  split at step
  · cases step
  · cases step
    simp [Place.child]

end Ways

/-! ## Reading and writing -/

section Files

variable {tree tree' : FileTree} {path other : String} {octets octets' : List UInt8}

/-- Every path starts at the root or at the working directory, neither of which is below
anything. -/
theorem startOf_names (path : String) : (Place.startOf path).names = [] := by
  unfold Place.startOf
  split <;> rfl

/-- **A node is found** if the path is well formed and its components lead to it, in a
directory if the path ends with a separator. -/
theorem find_eq_ok_iff {node : Node} :
    tree.find path = .ok node
      ↔ checkPath path = .ok () ∧ ∃ place, tree.walk (.startOf path)
          (pathComponents path ++ if endsWithSlash path then ["."] else []) = .ok place
        ∧ tree.node? place = some node := by
  simp only [find, bind_eq_ok]
  constructor
  · rintro ⟨⟨⟩, checked, place, way, answer⟩
    refine ⟨checked, place, way, ?_⟩
    cases here : tree.node? place with
    | none =>
      rw [here] at answer
      cases answer
    | some found =>
      rw [here] at answer
      rw [Except.ok.inj answer]
  · rintro ⟨checked, place, way, here⟩
    refine ⟨(), checked, place, way, ?_⟩
    rw [here]
    rfl

/-- **A file is read** where its path leads to it. -/
theorem read_eq_ok_iff :
    tree.read path = .ok octets
      ↔ ∃ place, tree.LeadsTo path place ∧ tree.node? place = some (.file octets) := by
  have found : tree.read path = .ok octets ↔ tree.find path = .ok (.file octets) := by
    simp only [read, bind_eq_ok]
    constructor
    · rintro ⟨node, found, answer⟩
      cases node with
      | file octets' => cases answer; exact found
      | directory => cases answer
    · exact fun found => ⟨_, found, rfl⟩
  rw [found, find_eq_ok_iff]
  constructor
  · rintro ⟨checked, place, way, file⟩
    cases slash : endsWithSlash path with
    | false =>
      rw [slash, if_neg Bool.false_ne_true, List.append_nil] at way
      exact ⟨place, ⟨checked, slash, way⟩, file⟩
    | true =>
      rw [slash, if_pos rfl, walk_dot] at way
      cases way.2.symm.trans file
  · rintro ⟨place, ⟨checked, unslashed, way⟩, file⟩
    refine ⟨checked, place, ?_, file⟩
    rw [unslashed, if_neg Bool.false_ne_true, List.append_nil, way]

theorem read_of_isFile (h : tree.isFile path = true) : ∃ octets, tree.read path = .ok octets := by
  unfold isFile at h
  split at h
  · rename_i octets found
    exact ⟨octets, by rw [read, found]; rfl⟩
  · cases h

/-- The place at which a file would be written, or why it cannot be. -/
def placeFor (tree : FileTree) (path : String) : Except Fault Place := do
  checkPath path
  match (pathComponents path).reverse with
  | [] => throw .isDirectory
  | name :: parents =>
    let dir ← tree.walk (.startOf path) (parents.reverse ++ ["."])
    if name = "." || name = ".." || endsWithSlash path then throw .isDirectory
    let place ← childOf dir name
    if tree.node? place = some .directory then throw .isDirectory
    return place

/-- **To write a file** is to find its place and to put it there. -/
theorem write_eq (tree : FileTree) (path : String) (octets : List UInt8) :
    tree.write path octets
      = (tree.placeFor path).map fun place => tree.put place (.file octets) := by
  unfold write placeFor
  cases checkPath path with
  | error fault => rfl
  | ok _ =>
    dsimp only [bind, Except.bind]
    cases (pathComponents path).reverse with
    | nil => rfl
    | cons name parents =>
      dsimp only
      cases tree.walk (.startOf path) (parents.reverse ++ ["."]) with
      | error fault => rfl
      | ok dir =>
        dsimp only
        split
        · rfl
        · dsimp only [pure, Except.pure]
          cases childOf dir name with
          | error fault => rfl
          | ok place =>
            dsimp only
            rcases tree.node? place with _ | _ | _ <;> rfl

/-- **The place of a file** is the one to which its path leads, and no
directory. -/
theorem placeFor_eq_ok {place : Place} (h : tree.placeFor path = .ok place) :
    tree.LeadsTo path place ∧ isProper (Settings.lastName path) = true
      ∧ pathComponents path ≠ [] ∧ tree.node? place ≠ some .directory := by
  simp only [placeFor, bind_eq_ok] at h
  obtain ⟨⟨⟩, checked, h⟩ := h
  split at h
  · cases h
  · rename_i name parents reversed
    have components : pathComponents path = parents.reverse ++ [name] := by
      rw [← List.reverse_reverse (pathComponents path), reversed, List.reverse_cons]
    have named : Settings.lastName path = name := by simp [Settings.lastName, components]
    simp only [bind_eq_ok] at h
    obtain ⟨dir, way, h⟩ := h
    split at h
    · cases h
    · rename_i other
      simp only [Bool.or_eq_true, decide_eq_true_eq, not_or, Bool.not_eq_true] at other
      obtain ⟨⟨dot, dots⟩, unslashed⟩ := other
      have proper : isProper name = true := by simp [isProper, dot, dots]
      obtain ⟨place, child, h⟩ := bind_eq_ok.mp h
      obtain ⟨way, is⟩ := walk_dot.mp way
      -- the walk goes to the directory and then takes one step more
      have whole : tree.walk (.startOf path) (pathComponents path) = .ok place := by
        rw [components]
        exact walk_concat.mpr ⟨dir, way, is, (follow_of_isProper proper).trans child⟩
      split at h
      · cases h
      · rename_i free
        cases h
        exact ⟨⟨checked, unslashed, whole⟩, named ▸ proper, by simp [components], free⟩

/-- **A file is written** at the place to which its path leads, which is no
directory. -/
theorem write_eq_ok (h : tree.write path octets = .ok tree') :
    ∃ place, tree.LeadsTo path place ∧ isProper (Settings.lastName path) = true
      ∧ pathComponents path ≠ [] ∧ tree.node? place ≠ some .directory
      ∧ tree' = tree.put place (.file octets) := by
  rw [write_eq] at h
  cases found : tree.placeFor path with
  | error fault =>
    rw [found] at h
    cases h
  | ok place =>
    rw [found] at h
    obtain ⟨leads, proper, inside, free⟩ := placeFor_eq_ok found
    exact ⟨place, leads, proper, inside, free, (Except.ok.inj h).symm⟩

/-- A file may take the place of a file, or stand where nothing was; only a directory
must not be replaced. -/
theorem KeepsDirectories.put {place : Place} (other : tree.node? place ≠ some .directory)
    (node : Node) : tree.KeepsDirectories (tree.put place node) := by
  intro p is
  rw [node?_put tree (names_ne_nil other), if_neg, is]
  rintro rfl
  exact other is

/-- **What was written is read**, under the path it was written to. -/
theorem read_of_write (h : tree.write path octets = .ok tree') : tree'.read path = .ok octets := by
  obtain ⟨place, leads, -, -, other, rfl⟩ := write_eq_ok h
  refine read_eq_ok_iff.mpr ⟨place, leads.of_keepsDirectories (.put other _), ?_⟩
  rw [node?_put tree (names_ne_nil other), if_pos rfl]

/-- **What has another name is read as before.** -/
theorem read_of_write_other (h : tree.write path octets = .ok tree')
    (read : tree.read other = .ok octets') (proper : isProper (Settings.lastName other) = true)
    (apart : Settings.lastName other ≠ Settings.lastName path) :
    tree'.read other = .ok octets' := by
  obtain ⟨place, leads, proper', inside, free, rfl⟩ := write_eq_ok h
  obtain ⟨place', leads', file⟩ := read_eq_ok_iff.mp read
  have inside' : pathComponents other ≠ [] := by
    intro empty
    have start := leads'.way
    rw [empty, walk] at start
    obtain rfl := Except.ok.inj start
    have base : tree.node? (.startOf other) = some .directory := if_pos (startOf_names other)
    cases base.symm.trans file
  have elsewhere : place' ≠ place := by
    rintro rfl
    have same := (leads'.getLast?_names proper inside').symm.trans
      (leads.getLast?_names proper' inside)
    exact apart (Option.some.inj same)
  refine read_eq_ok_iff.mpr ⟨place', leads'.of_keepsDirectories (.put free _), ?_⟩
  rw [node?_put tree (names_ne_nil free), if_neg elsewhere, file]

/-! ## Making directories -/

/-- A file has the same content in a tree that has grown. -/
theorem read_of_extends (h : tree.Extends tree') (read : tree.read path = .ok octets) :
    tree'.read path = .ok octets := by
  obtain ⟨place, leads, file⟩ := read_eq_ok_iff.mp read
  exact read_eq_ok_iff.mpr ⟨place, leads.of_keepsDirectories h.keepsDirectories, h place _ file⟩

theorem makeDirectory_extends {start : Place} {parents : List String} {name : String}
    (h : tree.makeDirectory start parents name = .ok tree') : tree.Extends tree' := by
  simp only [makeDirectory, bind_eq_ok] at h
  obtain ⟨dir, -, h⟩ := h
  split at h
  · cases h
  · obtain ⟨place, -, h⟩ := bind_eq_ok.mp h
    split at h
    · cases h
    · rename_i free
      cases h
      exact .put free _

theorem ensureDirectory_extends {start : Place} {parents : List String} {name : String}
    (h : tree.ensureDirectory start parents name = .ok tree') : tree.Extends tree' := by
  unfold ensureDirectory at h
  split at h
  · rename_i made
    cases h
    exact makeDirectory_extends made
  · split at h
    · cases h
      exact .refl tree
    · cases h

/-- **Making directories only adds to a tree**, even if it fails half-way. -/
theorem ensureAll_extends (tree : FileTree) (start : Place) (components : List String) :
    tree.Extends (tree.ensureAll start components).2 := by
  induction components with
  | nil => exact .refl tree
  | cons name parents ih =>
    rw [ensureAll]
    split
    · rename_i made
      exact ensureDirectory_extends made
    · split
      · rename_i above aboveMade
        rw [aboveMade] at ih
        split
        · rename_i made
          exact ih.trans (ensureDirectory_extends made)
        · exact ih
      · exact ih
    · exact .refl tree

/-- **Making directories takes nothing away.** -/
theorem makeDirectories_extends (tree : FileTree) (path : String) :
    tree.Extends (tree.makeDirectories path).2 := by
  unfold makeDirectories
  split
  · exact .refl tree
  · split
    · exact .refl tree
    · dsimp only
      split
      · split
        · exact .refl tree
        · have above := tree.ensureAll_extends (.startOf path)
            ((pathComponents path).filter (· != ".")).reverse.tail
          split
          · rename_i made aboveMade
            rwa [aboveMade] at above
          · exact above
        · exact .refl tree
      · exact tree.ensureAll_extends _ _

end Files

end FileTree

end VectorPage
