/-
The tile of a pattern, and the paths that its paint procedure paints.

A paint procedure runs on a machine of its own, and of the shapes that it
leaves behind the tile takes those whose markup begins with a path element.
Which shapes these are follows from the record of the run: the paths painted at
each token and at the end, one after the other, are all the paths of the
picture (`PaintedAll.shapes`). A path painted under a transform or a clip is
written inside a group and so does not begin with its element. It is missing
from the tile; all the others are there, in the order in which they were
painted, and nothing else is.
-/
import VectorPage.Proofs.Additions
import VectorPage.Proofs.Bounds
import VectorPage.Proofs.Segments
import VectorPage.Token.Lexer

set_option autoImplicit false

namespace VectorPage

/-! ## Markup that begins with a path element -/

/-- Whether markup begins with a path element. -/
def beginsWithPath (markup : String) : Bool :=
  "<path".toList.isPrefixOf markup.toList

/-- The first letter after the bracket decides, if it is not that of a path. -/
theorem beginsWithPath_of_second {letter : Char} (other : letter ≠ 'p') (tag rest : String)
    (second : tag.toList[1]? = some letter) : beginsWithPath (tag ++ rest) = false := by
  rw [Bool.eq_false_iff]
  intro begins
  obtain ⟨after, written⟩ := List.isPrefixOf_iff_prefix.mp begins
  rw [String.toList_append] at written
  have here : (tag.toList ++ rest.toList)[1]? = some 'p' := by
    rw [← written]
    rfl
  have inside : 1 < tag.toList.length := (List.getElem?_eq_some_iff.mp second).1
  rw [List.getElem?_append_left inside, second] at here
  exact other (Option.some.inj here)

theorem beginsWithPath_path (rest : String) : beginsWithPath ("<path " ++ rest) = true := by
  rw [beginsWithPath, List.isPrefixOf_iff_prefix, String.toList_append]
  exact (List.prefix_append "<path".toList [' ']).trans (List.prefix_append _ _)

/-- **A rendered path begins as a path just if it stands in no group**, which is how
bare paths are told from others later on. -/
theorem beginsWithPath_pathMarkup (data : PathData) (g : GraphicsState) (mode : PaintMode)
    (ref : Option String) : beginsWithPath (pathMarkup data g mode ref) = !g.needsGroup := by
  rw [pathMarkup]
  by_cases group : g.needsGroup = true
  · simp only [group, if_true, String.append_assoc]
    exact beginsWithPath_of_second (by decide) "<g" _ rfl
  · simp only [group, String.append_assoc]
    exact beginsWithPath_path _

/-- **The markup of a shape begins with a path element** if and only if the
shape is a path outside any group. -/
theorem Shape.beginsWithPath_markup (s : Shape) : beginsWithPath s.markup = s.isBarePath := by
  cases s with
  | path data look mode ref => exact beginsWithPath_pathMarkup data look mode ref
  | comment message =>
    change beginsWithPath ("<!-- " ++ partHyphens message ++ " -->") = false
    rw [String.append_assoc]
    exact beginsWithPath_of_second (by decide) "<!-- " _ rfl
  | placeholder =>
    change beginsWithPath (_ ++ attr "href" placeholderSource ++ " />") = false
    rw [String.append_assoc]
    exact beginsWithPath_of_second (by decide) _ _ rfl

/-- So filtering texts is filtering shapes. -/
theorem filter_beginsWithPath (shapes : List Shape) :
    (shapes.map Shape.markup).filter beginsWithPath
      = (shapes.filter Shape.isBarePath).map Shape.markup := by
  rw [List.filter_map]
  congr 1
  exact List.filter_congr fun s _ => s.beginsWithPath_markup

theorem Shape.isPath_of_isBarePath {s : Shape} (bare : s.isBarePath = true) : s.isPath = true := by
  cases s with
  | path => rfl
  | comment => cases bare
  | placeholder => cases bare

/-- A path outside any group is a path in the first place. -/
theorem filter_isBarePath_of_isPath (shapes : List Shape) :
    (shapes.filter Shape.isPath).filter Shape.isBarePath = shapes.filter Shape.isBarePath := by
  rw [List.filter_filter]
  refine List.filter_congr fun s _ => ?_
  cases bare : s.isBarePath
  · rfl
  · exact Shape.isPath_of_isBarePath bare

namespace Machine

/-! ## The paths of a run -/

/-- The paths that the next token paints. -/
def paintedAt (c : TokenStream × Machine) : List Shape :=
  (operatorAt? c).elim [] (c.2.painted c.1.next.2)

/-- **The paths that a run has painted so far**, in the order in which it
painted them. -/
inductive PaintedSo (limits : Limits) (level : Nat) (program : List Token) :
    TokenStream × Machine → List Shape → Prop where
  | start : PaintedSo limits level program (.ofTokens program, initial) []
  | step {c c' : TokenStream × Machine} {paths : List Shape} :
      PaintedSo limits level program c paths → Step limits level c c' →
      PaintedSo limits level program c' (paths ++ paintedAt c)

/-- **The paths that a whole run paints.** The last one may be a path that was
left under construction. -/
def PaintedAll (limits : Limits) (level : Nat) (program : List Token) (m : Machine)
    (paths : List Shape) : Prop :=
  ∃ c stopped before, PaintedSo limits level program c before ∧ Halts limits c stopped
    ∧ m = stopped.finish ∧ paths = before ++ stopped.pathAs .lines

section Runs

variable {limits : Limits} {level : Nat} {program : List Token} {c c' : TokenStream × Machine}
  {paths : List Shape} {m : Machine}

/-- The paths are listed along a run, so its machine is reachable. -/
theorem PaintedSo.reachable (h : PaintedSo limits level program c paths) :
    Reachable limits level c.2 := by
  have steps : Steps limits level (.ofTokens program, initial) c := by
    induction h with
    | start => exact .refl
    | step _ last ih => exact ih.tail last
  exact ⟨initial, program, c.1, .fresh, steps⟩

/-- **A step adds to the paths of the picture** what it paints. -/
theorem Step.shapes_isPath (step : Step limits level c c') (nested : c.2.ClipsNested) :
    c'.2.picture.shapes.toList.filter Shape.isPath
      = c.2.picture.shapes.toList.filter Shape.isPath ++ paintedAt c := by
  rw [paintedAt]
  cases stands : operatorAt? c with
  | some op =>
    rw [step.shapes_of_operator nested stands, List.filter_append, filter_isPath_added]
    rfl
  | none =>
    -- a token that is no operator leaves a remark at most, which is no path
    rw [Option.elim_none, List.append_nil]
    cases step.shapes_of_other stands with
    | silent same => rw [same]
    | remark _ shapes => simp [shapes, Shape.isPath]

/-- **The paths of the picture are those painted so far.** -/
theorem PaintedSo.shapes (h : PaintedSo limits level program c paths) :
    c.2.picture.shapes.toList.filter Shape.isPath = paths := by
  induction h with
  | start => rfl
  | step before step ih => rw [step.shapes_isPath before.reachable.clipsNested, ih]

theorem Halts.shapes_isPath {stopped : Machine} (h : Halts limits c stopped) :
    stopped.picture.shapes.toList.filter Shape.isPath
      = c.2.picture.shapes.toList.filter Shape.isPath := by
  rcases h with ⟨-, rfl⟩ | ⟨-, rfl⟩
  · rfl
  · -- only the remark on the limit is added
    simp [stopAtLimit, remark, note, Picture.remark, Picture.draw, Shape.isPath]

/-- **All the paths of the picture are those that the run painted.** -/
theorem PaintedAll.shapes (h : PaintedAll limits level program m paths) :
    m.picture.shapes.toList.filter Shape.isPath = paths := by
  obtain ⟨c, stopped, before, painted, halted, rfl, rfl⟩ := h
  rw [finish, paintPath_shapes, List.filter_append, halted.shapes_isPath, painted.shapes,
    List.filter_eq_self.mpr fun _ => isPath_of_pathAs]

/-- **Every run has such a list.** By induction on the steps: each adds what its
operator paints. -/
theorem exists_paintedSo (steps : Steps limits level (.ofTokens program, initial) c) :
    ∃ paths, PaintedSo limits level program c paths := by
  induction steps with
  | refl => exact ⟨[], .start⟩
  | tail _ step ih =>
    obtain ⟨paths, painted⟩ := ih
    exact ⟨_, .step painted step⟩

/-- Every run has its record. -/
theorem exists_paintedAll (ended : Ends limits level (.ofTokens program) initial m) :
    ∃ paths, PaintedAll limits level program m.finish paths := by
  obtain ⟨s, m₁, steps, halted⟩ := ended.steps
  obtain ⟨before, painted⟩ := exists_paintedSo steps
  exact ⟨_, (s, m₁), m, before, painted, halted, rfl, rfl⟩

theorem PaintedAll.isPath (h : PaintedAll limits level program m paths) {s : Shape}
    (here : s ∈ paths) : s.isPath = true := by
  rw [← h.shapes] at here
  exact List.of_mem_filter here

/-- **The tile takes the paths outside any group.** -/
theorem PaintedAll.tileOf_eq (h : PaintedAll limits level program m paths) :
    tileOf m = paths.filter Shape.isBarePath := by
  rw [tileOf, ← h.shapes, filter_isBarePath_of_isPath]

end Runs

/-! ## Patterns -/

section Patterns

variable {limits : Limits} {level : Nat} {m m' : Machine} {ref : DictRef} {body : List Token}

/-- What the operator that makes a pattern does. -/
theorem Executes.makes_pattern (executes : Executes limits level .makePattern m m') :
    ∃ fuel, m.counted.makePattern limits level (paintWith limits fuel level) = some m' := by
  obtain ⟨s, s', stands, step⟩ := executes
  obtain ⟨name, rest, fuel, -, unbound, named, executed⟩ := step.executes_name stands
  simp only [executeName, counted_lookup, unbound, named] at executed
  obtain ⟨made, answer, result⟩ := Option.map_eq_some_iff.mp executed
  obtain rfl : made = m' := (Prod.mk.inj result).2
  exact ⟨fuel, answer⟩

/-- **A pattern with a paint procedure** has the tile that the procedure
leaves. -/
theorem Executes.defines_tile (executes : Executes limits level .makePattern m m')
    (procedure : m.patternBody? = some (ref, body)) (shallow : level < limits.patterns) :
    ∃ painted, Ends limits (level + 1) (.ofTokens body) initial painted
      ∧ m'.picture = m.picture.define
          (patternDefinition m.heap ref (m.freshId "pattern").1 (tileOf painted.finish)) := by
  obtain ⟨fuel, made⟩ := executes.makes_pattern
  have counted : m.counted.patternBody? = some (ref, body) := procedure
  rw [makePattern_of_body counted, if_neg (Nat.not_le.mpr shallow)] at made
  obtain ⟨left, answer, rfl⟩ := Option.map_eq_some_iff.mp made
  obtain ⟨painted, ran, rfl⟩ := Option.map_eq_some_iff.mp answer
  exact ⟨painted, ⟨fuel, ran⟩, rfl⟩

/-- The operator by its name, on a machine that has made the pattern. -/
theorem Executes.of_makePattern {fuel : Nat} (unbound : m.lookup "makepattern" = none)
    (live : m.isSpent limits = false)
    (made : m.counted.makePattern limits level (paintWith limits fuel level) = some m') :
    Executes limits level .makePattern m m' := by
  refine ⟨.ofTokens [.operator "makepattern"], .ofTokens [], ?_, .operator "makepattern",
    .ofTokens [], fuel, rfl, live, ?_⟩
  · change (if (m.lookup "makepattern").isSome then none else _) = some Operator.makePattern
    rw [unbound]
    rfl
  · have named : Operator.ofName? "makepattern" = some .makePattern := rfl
    simp only [step, executeName, counted_lookup, unbound, named, made, Option.map_some]

/-- A tile is complete just if every path was painted without a group. -/
theorem PaintedAll.filter_eq_self_iff {limits : Limits} {level : Nat} {program : List Token}
    {paths : List Shape} (h : PaintedAll limits level program m paths) :
    paths.filter Shape.isBarePath = paths
      ↔ ∀ data look mode ref, Shape.path data look mode ref ∈ paths → look.needsGroup = false := by
  rw [List.filter_eq_self]
  constructor
  · intro bare data look mode ref here
    simpa [Shape.isBarePath] using bare _ here
  · intro ungrouped s here
    cases s with
    | path data look mode ref => simp [Shape.isBarePath, ungrouped data look mode ref here]
    | comment => cases h.isPath here
    | placeholder => cases h.isPath here

/-- **A tile holds the paths painted outside any group.** When a pattern is made
of a dictionary with a paint procedure, the procedure is run on a machine of
its own, and of the paths that it paints, in the order in which it paints them,
the tile holds those whose markup begins with a path element. These are the
paths painted under no transform and no clip, so the tile holds every path if
and only if there is no other. Remarks, placeholders and texts are never in
it. -/
theorem tile_holds_bare_paths (executes : Executes limits level .makePattern m m')
    (procedure : m.patternBody? = some (ref, body)) (shallow : level < limits.patterns) :
    ∃ tile painted, m'.picture = m.picture.define
        (patternDefinition m.heap ref (m.freshId "pattern").1 tile)
      ∧ Ends limits (level + 1) (.ofTokens body) initial painted
      ∧ (∃ paths, PaintedAll limits (level + 1) body painted.finish paths)
      ∧ ∀ paths, PaintedAll limits (level + 1) body painted.finish paths →
          tile = paths.filter Shape.isBarePath
          ∧ tile.map Shape.markup = (paths.map Shape.markup).filter beginsWithPath
          ∧ (tile = paths ↔ ∀ data look mode fillRef,
              Shape.path data look mode fillRef ∈ paths → look.needsGroup = false) := by
  obtain ⟨painted, ended, picture⟩ := executes.defines_tile procedure shallow
  refine ⟨tileOf painted.finish, painted, picture, ended, exists_paintedAll ended, ?_⟩
  intro paths record
  rw [record.tileOf_eq, filter_beginsWithPath]
  exact ⟨rfl, rfl, record.filter_eq_self_iff⟩

/-- A paint procedure with a line, an image, a name that nothing is known of, an area,
and a line under a scaling. The tile holds the first line and the area. -/
theorem tile_holds_bare_paths_in_order :
    ∃ m m' ref body, Executes {} 0 .makePattern m m' ∧ m.patternBody? = some (ref, body)
      ∧ 0 < ({} : Limits).patterns
      ∧ m'.picture.fragments.definitions
        = ["<pattern id=\"pattern0\" x=\"0\" y=\"0\" width=\"20\" height=\"20\" "
          ++ "patternUnits=\"userSpaceOnUse\">\n"
          ++ "<path d=\"M 0 0 L 1 1\" fill=\"none\" stroke=\"black\" />\n"
          ++ "<path d=\"M 0 0 L 3 0 L 3 3\" fill=\"black\" stroke=\"none\" />\n</pattern>"]
      ∧ ∃ tile painted, m'.picture = m.picture.define
          (patternDefinition m.heap ref (m.freshId "pattern").1 tile)
        ∧ Ends {} 1 (.ofTokens body) initial painted
        ∧ (∃ paths, PaintedAll {} 1 body painted.finish paths)
        ∧ ∀ paths, PaintedAll {} 1 body painted.finish paths →
            tile = paths.filter Shape.isBarePath
            ∧ tile.map Shape.markup = (paths.map Shape.markup).filter beginsWithPath
            ∧ (tile = paths ↔ ∀ data look mode fillRef,
                Shape.path data look mode fillRef ∈ paths → look.needsGroup = false) := by
  have ran : ((initial.run {} 60 (tokenize ("<< /PaintProc \x7b 0 0 moveto 1 1 lineto stroke image "
      ++ "oops 0 0 moveto 3 0 lineto 3 3 lineto fill 2 2 scale 5 5 moveto 6 6 lineto \x7d >>"))).bind
        fun m => (m.counted.makePattern {} 0 (paintWith {} 80 0)).map fun m' => (m, m')).map
        (fun c => (c.1.patternBody?.isSome, (c.1.lookup "makepattern").isNone, c.1.isSpent {},
          c.2.picture.fragments.definitions))
      = some (true, true, false,
        ["<pattern id=\"pattern0\" x=\"0\" y=\"0\" width=\"20\" height=\"20\" "
          ++ "patternUnits=\"userSpaceOnUse\">\n"
          ++ "<path d=\"M 0 0 L 1 1\" fill=\"none\" stroke=\"black\" />\n"
          ++ "<path d=\"M 0 0 L 3 0 L 3 3\" fill=\"black\" stroke=\"none\" />\n</pattern>"]) := by
    decide +kernel
  obtain ⟨⟨m, m'⟩, made, facts⟩ := Option.map_eq_some_iff.mp ran
  obtain ⟨m₁, -, made⟩ := Option.bind_eq_some_iff.mp made
  obtain ⟨m₂, made, same⟩ := Option.map_eq_some_iff.mp made
  cases same
  simp only [Prod.mk.injEq] at facts
  obtain ⟨procedure, unbound, live, definitions⟩ := facts
  obtain ⟨⟨ref, body⟩, procedure⟩ := Option.isSome_iff_exists.mp procedure
  have executes : Executes {} 0 .makePattern m m' :=
    .of_makePattern (Option.isNone_iff_eq_none.mp unbound) live made
  exact ⟨m, m', ref, body, executes, procedure, by decide, definitions,
    tile_holds_bare_paths executes procedure (by decide)⟩

/-- **A tile without the path that its paint procedure paints**: the procedure
paints one line under a scaling, and the tile stays empty. -/
theorem scaled_line_missing_from_tile :
    (initial.run {} 30 (tokenize "2 2 scale 0 0 moveto 1 1 lineto stroke")).map
        (fun m => m.picture.shapes.toList.map fun s =>
          (s.isPath, s.isBarePath, (PathData.drawn s.segments).text))
      = some [(true, false, "M 0 0 L 1 1")]
    ∧ (initial.run {} 40 (tokenize ("<< /PaintProc \x7b 2 2 scale 0 0 moveto 1 1 lineto stroke "
          ++ "\x7d >> makepattern"))).map (·.picture.fragments)
      = some ⟨["<pattern id=\"pattern0\" x=\"0\" y=\"0\" width=\"20\" height=\"20\" "
          ++ "patternUnits=\"userSpaceOnUse\">\n\n</pattern>"], [], []⟩ := by
  decide +kernel

end Patterns

end Machine

end VectorPage
