/-
Paths are placed the way their elements are grouped.

Whether coordinates are mapped or left for a group to transform is decided
when the transform or the clip changes, and kept in the path. Three places
rely on the decision: the path that takes coordinates, the radii of arcs, and
the element that is or is not put in a group. The graphics state decides for
the last two, so all depends on one thing: that the path was told of every
change. `PolicyMove` says what a move can do to the decision and to what it
was made from. It touches neither, or it makes the decision anew.

A group carries a transform as a text that names its translation, rotation and
scaling, each where it is noticeable (`mem_groupAttributes_transform_iff`).

The decision is one of the moment. A path that is open while the transform
changes is painted under the transform of the moment at which it is painted,
and a transform that was in force only before then leaves no trace on it.
-/
import VectorPage.Proofs.Additions
import VectorPage.Proofs.Elements

set_option autoImplicit false

namespace VectorPage

/-! ## The decision and those who rely on it -/

/-- The radii of a circle whose axes a map has scaled. -/
def Affine.radii (map : Affine Float) (r : Float) : Point :=
  ((r * map.axisLengths.1).abs, (r * map.axisLengths.2).abs)

namespace Placement

/-- The map that coordinates are put through; a group around the element
leaves them as given. -/
def map : Placement → Affine Float
  | baked m => m
  | plain | grouped => .identity

/-- The radii of a circle that is placed in this way. -/
def radii (p : Placement) (r : Float) : Point :=
  if p.isGrouped then (r.abs, r.abs) else p.map.radii r

end Placement

/-! ## What a group carries -/

/-- **One of the maps that the text of a transform names.** -/
inductive MapPart where
  | translation (x y : Float)
  | rotation (angle : Float)
  | scaling (x y : Float)

namespace MapPart

/-- A part as it is written. -/
def text : MapPart → String
  | translation x y => "translate(" ++ numberText x ++ " " ++ numberText y ++ ")"
  | rotation angle => "rotate(" ++ numberText angle ++ ")"
  | scaling x y => "scale(" ++ numberText x ++ " " ++ numberText y ++ ")"

/-- Whether a part differs from the identity by more than a millionth, in one of its
numbers at least. -/
def isNoticeable : MapPart → Bool
  | translation x y => x.abs > 1e-6 || y.abs > 1e-6
  | rotation angle => angle.abs > 1e-6
  | scaling x y => (x - 1).abs > 1e-6 || (y - 1).abs > 1e-6

/-- Every part has a text, if only for its brackets; so a text is empty only if it names
no part. -/
theorem text_ne_empty (p : MapPart) : p.text ≠ "" := by
  cases p <;> simp only [text, ne_eq, String.append_eq_empty_iff] <;>
    exact fun empty => absurd empty.2 (by decide)

end MapPart

/-- **The noticeable parts of a map**, the one applied last in front. The skew is not
among them. -/
def Affine.noticeable (t : Affine Float) : List MapPart :=
  [.translation t.parts.translation.1 t.parts.translation.2, .rotation t.parts.rotation,
    .scaling t.parts.scaling.1 t.parts.scaling.2].filter MapPart.isNoticeable

/-- The text of a transform names its noticeable parts. -/
theorem transformText_eq (t : Affine Float) :
    transformText t = " ".intercalate (t.noticeable.map MapPart.text) := by
  simp only [transformText, Affine.noticeable]
  generalize t.parts = parts
  simp only [List.filter_cons, List.filter_nil, MapPart.isNoticeable, isNoticeable]
  by_cases moved : (parts.translation.1.abs > 1e-6 || parts.translation.2.abs > 1e-6) = true <;>
    by_cases turned : decide (parts.rotation.abs > 1e-6) = true <;>
    by_cases scaled :
      ((parts.scaling.1 - 1).abs > 1e-6 || (parts.scaling.2 - 1).abs > 1e-6) = true <;>
    simp only [moved, turned, scaled] <;> rfl

/-- It is empty just if the map has none. -/
theorem transformText_eq_empty_iff (t : Affine Float) :
    transformText t = "" ↔ t.noticeable = [] := by
  rw [transformText_eq]
  rcases t.noticeable with _ | ⟨first, _ | ⟨second, rest⟩⟩
  · simp
  · simpa using first.text_ne_empty
  · simp [String.intercalate_cons_cons, first.text_ne_empty]

/-- **What a group says of the transform**: its noticeable parts, or nothing at all if
there are none. -/
theorem GraphicsState.mem_groupAttributes_transform_iff (g : GraphicsState) (text : String) :
    ("transform", text) ∈ g.groupAttributes
      ↔ g.transform.noticeable ≠ []
        ∧ text = " ".intercalate (g.transform.noticeable.map MapPart.text) := by
  rw [ne_eq, ← transformText_eq_empty_iff, ← transformText_eq, groupAttributes, List.mem_append]
  -- the other attribute of a group has another name
  have other : ("transform", text)
      ∉ (g.clips.head?.map fun layer => ("clip-path", resourceText layer.id)).toList := by
    rcases g.clips.head? with _ | layer <;> simp
  rw [or_iff_left other, List.mem_ite_nil_left, List.mem_singleton, Prod.mk.injEq]
  simp

namespace Machine

/-! ## What a move does to the decision -/

/-- **What can become of the placement in one move**: it is kept, and so are
the transform and the clips it was made from, or it is made anew. -/
inductive PolicyMove (m m' : Machine) : Prop where
  | kept (placement : m'.path.placement = m.path.placement)
      (transform : m'.graphics.transform = m.graphics.transform)
      (clips : m'.graphics.clips = m.graphics.clips)
  | anew (placement : m'.path.placement = m'.graphics.placement)

/-- Taking back a move concerns the segments of a path, not how it places them. -/
theorem withoutMoveTo_placement (path : Path) (p : Point) :
    (withoutMoveTo path p).placement = path.placement := by
  unfold withoutMoveTo
  split
  · split <;> rfl
  · rfl

/-- An arc adds a line and curves under the placement that there is. -/
theorem withArc_placement (path : Path) (rx ry : Float) (pointAt : Float → Point)
    (angle₁ angle₂ : Float) :
    (withArc path rx ry pointAt angle₁ angle₂).placement = path.placement := by
  unfold withArc
  split <;> rfl

/-- A path that is painted gives way to a fresh one under the same placement. -/
theorem paintPath_policy (m : Machine) (mode : PaintMode) : PolicyMove m (m.paintPath mode) := by
  rw [paintPath_eq]
  refine .kept ?_ rfl rfl
  split <;> rfl

/-- A line is drawn as the path places it, and may be painted; neither changes how. -/
theorem lineTo_policy (m : Machine) (s : TokenStream) : PolicyMove m (m.lineTo s) := by
  rw [lineTo_eq]
  split
  · obtain ⟨placement, transform, clips⟩ | placement := paintPath_policy m.drawLine .lines
    · exact .kept placement transform clips
    · exact .anew placement
  · exact .kept rfl rfl rfl

/-- Restoring brings back a transform and clips, and the path is told of them before
anything else is drawn. -/
theorem restoreGraphics_policy (m : Machine) : PolicyMove m m.restoreGraphics := by
  rcases saved : m.saved with _ | ⟨g, rest⟩
  · rw [restoreGraphics, saved]
    exact .kept rfl rfl rfl
  · simp only [restoreGraphics, saved]
    exact .anew rfl

/-- **Every operator that changes the transform or the clip tells the path.** -/
theorem operate_policy (m : Machine) (s : TokenStream) (op : Operator) :
    PolicyMove m (m.operate s op) := by
  cases op with
  | translate | scale | rotate => exact .anew rfl
  | restoreGraphics => exact restoreGraphics_policy m
  | clip =>
    simp only [operate, clip_eq]
    split
    · exact .kept rfl rfl rfl
    · exact .anew rfl
  | stroke => exact paintPath_policy m .lines
  | fill => exact paintPath_policy m .areas
  | lineTo => exact lineTo_policy m s
  | arc =>
    simp only [operate, arc, popNumber_eq, popPoint_eq]
    exact .kept ((withArc_placement _ _ _ _ _ _).trans (withoutMoveTo_placement _ _)) rfl rfl
  | closePath =>
    simp only [operate, closePath_eq]
    refine .kept ?_ rfl rfl
    split <;> rfl
  | shadingFill =>
    simp only [operate, shadingFill_eq]
    refine .kept ?_ rfl rfl
    split <;> rfl
  -- a setter may find nothing to set, but the transform and the clips are the same either way
  | setLineCap =>
    simp only [operate, setLineCap_eq]
    refine .kept rfl ?_ ?_ <;> split <;> rfl
  | setLineJoin =>
    simp only [operate, setLineJoin_eq]
    refine .kept rfl ?_ ?_ <;> split <;> rfl
  | setPattern =>
    simp only [operate, setPattern_eq]
    refine .kept rfl ?_ ?_ <;> split <;> rfl
  | setFont =>
    simp only [operate, setFont_eq]
    refine .kept rfl ?_ ?_ <;> split <;> rfl
  | _ =>
    simp only [operate, negate, combine, exchange_eq, duplicate_eq, newDict, beginDict_eq, endDict,
      bindName_eq, saveGraphics, setLineWidth, setDash, setRgbColor, setGray, setCmykColor, moveTo,
      moveBy, lineBy, curveTo, curveBy, findFont, scaleFont, showText_eq, pop_eq, popNumber_eq,
      popPoint_eq, popDisplay_eq]
    exact .kept rfl rfl rfl

section Moves

variable {limits : Limits} {level : Nat} {m m' : Machine}

/-- Tokens that stand for no operator leave path and graphics state alone. -/
theorem Aside.policy (h : Aside limits m m') : PolicyMove m m' := by
  obtain ⟨graphics, -, path⟩ := h.drawing_eq
  exact .kept (by rw [path]) (by rw [graphics]) (by rw [graphics])

/-- **A move keeps the placement along with transform and clips, or tells the path
anew.** No operator changes one without the other. -/
theorem Move.policy (h : Move limits level m m') : PolicyMove m.counted m' := by
  cases h with
  | step step =>
    cases step.effect with
    | operate op rest _ result =>
      dsimp only at result
      subst result
      exact operate_policy _ rest op
    | makePattern fuel _ made =>
      obtain ⟨ref, tile, hits, -, -, rfl⟩ | rfl := makePattern_cases made
      · exact .kept rfl rfl rfl
      · exact .kept rfl rfl rfl
    | aside _ result => exact result.policy
  | stop => exact .kept rfl rfl rfl
  | finish =>
    obtain ⟨placement, transform, clips⟩ | placement := paintPath_policy m .lines
    · exact .kept placement transform clips
    · exact .anew placement

/-! ## The path knows -/

/-- **The path knows the transform and the clip**: it was told of them, or has
not been told anything since the machine was new, and they are as they were
then. -/
inductive Informed (m : Machine) : Prop where
  | untold (placement : m.path.placement = .plain)
      (transform : m.graphics.transform = .identity) (clips : m.graphics.clips = [])
  | told (placement : m.path.placement = m.graphics.placement)

/-- What the path knows stays right when nothing changes, and is right again when it is
told. -/
theorem Informed.of_policy (h : m.Informed) (move : PolicyMove m m') : m'.Informed := by
  obtain ⟨placement, transform, clips⟩ | placement := move
  · obtain ⟨plain, identity, unclipped⟩ | told := h
    · exact .untold (placement.trans plain) (transform.trans identity) (clips.trans unclipped)
    · refine .told ?_
      rw [placement, told, GraphicsState.placement, GraphicsState.placement,
        GraphicsState.needsGroup, GraphicsState.needsGroup, transform, clips]
  · exact .told placement

/-- **The path knows the transform and the clips at every moment**, from the first on: a
fresh path has not been told, and needs not be. -/
theorem Informed.of_moves (moves : Moves limits level initial m) : m.Informed := by
  induction moves with
  | refl => exact .untold rfl rfl rfl
  | @tail m m' _ move ih =>
    have counted : m.counted.Informed := by
      obtain ⟨plain, identity, unclipped⟩ | told := ih
      · exact .untold plain identity unclipped
      · exact .told told
    exact counted.of_policy move.policy

/-- A machine that has not been told anything needs no group. -/
theorem needsGroup_of_untold {g : GraphicsState} (transform : g.transform = .identity)
    (clips : g.clips = []) : g.needsGroup = false := by
  have identity : (Affine.identity : Affine Float).isIdentity = true := by decide +kernel
  rw [GraphicsState.needsGroup, transform, clips, identity]
  rfl

/-- A path that knows leaves coordinates to a group just if the graphics state asks for
one. -/
theorem Informed.isGrouped (h : m.Informed) :
    m.path.placement.isGrouped = m.graphics.needsGroup := by
  obtain ⟨plain, identity, unclipped⟩ | told := h
  · rw [plain, needsGroup_of_untold identity unclipped]
    rfl
  · rw [told, GraphicsState.placement]
    cases m.graphics.needsGroup <;> rfl

/-- What is mapped is mapped through the transform in force. -/
theorem Informed.map_eq (h : m.Informed) (bare : m.graphics.needsGroup = false) :
    m.path.placement.map = m.graphics.transform := by
  obtain ⟨plain, identity, -⟩ | told := h
  · rw [plain, identity]
    rfl
  · rw [told, GraphicsState.placement, bare]
    rfl

/-- Coordinates are left to a group in one way only. -/
theorem eq_grouped_of_isGrouped {p : Placement} (h : p.isGrouped = true) : p = .grouped := by
  cases p with
  | grouped => rfl
  | plain => cases h
  | baked map => cases h

/-- **Arcs choose their radii as the path places their points.** -/
theorem Informed.arcRadii_eq (h : m.Informed) (r : Float) :
    arcRadii m.graphics r = m.path.placement.radii r := by
  rw [arcRadii, Placement.radii, h.isGrouped]
  by_cases group : m.graphics.needsGroup = true
  · rw [if_pos group, if_pos group]
  · rw [if_neg group, if_neg group, h.map_eq (by simpa using group)]
    rfl

/-! ## The moment of painting -/

/-- **What a machine paints** when it paints now: the path under construction, the path
with a line that it is about to draw, or a shading along with the gradient that it
defines. All of them are painted under the graphics state in force. -/
inductive Paints (m : Machine) : Shape → Prop where
  | path (mode : PaintMode) : m.Paints (.path m.path.data m.graphics mode none)
  | line : m.Paints (.path m.drawLine.path.data m.graphics .lines none)
  | shading (gradient : Definition) (outline : List Segment)
      (drawn : m.shading? = some (some (gradient, outline))) :
      m.Paints (.path (.drawn outline) m.graphics .areas (some (m.freshId "grad").1))

/-- **A shape is painted in a move**: the machine paints it, and the move adds it to the
picture and no other shape. -/
structure PaintedIn (shape : Shape) (m m' : Machine) : Prop where
  paints : m.Paints shape
  added : m'.picture.shapes.toList = m.picture.shapes.toList ++ [shape]

/-- The path under construction is painted alone or not at all. -/
theorem pathAs_eq_of_mem {mode : PaintMode} {shape : Shape} (here : shape ∈ m.pathAs mode) :
    shape = .path m.path.data m.graphics mode none ∧ m.pathAs mode = [shape] := by
  rw [pathAs] at here ⊢
  split at here
  · cases here
  · rename_i present
    rw [if_neg present]
    exact ⟨List.mem_singleton.mp here, by rw [List.mem_singleton.mp here]⟩

/-- **An operator paints one path at most**, and with it nothing else is added. -/
theorem paints_of_painted {s : TokenStream} {op : Operator} {shape : Shape}
    (here : shape ∈ m.painted s op) : m.Paints shape ∧ m.added s op = [shape] := by
  cases op with
  | stroke =>
    obtain ⟨is, alone⟩ := pathAs_eq_of_mem here
    exact ⟨is ▸ .path .lines, (added_eq_painted rfl s).trans alone⟩
  | fill =>
    obtain ⟨is, alone⟩ := pathAs_eq_of_mem here
    exact ⟨is ▸ .path .areas, (added_eq_painted rfl s).trans alone⟩
  | lineTo =>
    rw [added_eq_painted rfl]
    rw [painted] at here ⊢
    split at here
    · -- painted early, the line is the whole path
      rename_i early
      obtain ⟨is, alone⟩ := pathAs_eq_of_mem here
      rw [if_pos early]
      exact ⟨is ▸ .line, alone⟩
    · cases here
  | shadingFill =>
    rw [added]
    rw [painted] at here ⊢
    rcases drawn : m.shading? with _ | _ | ⟨gradient, outline⟩
    · simp [drawn] at here
    · simp [drawn] at here
    · simp only [drawn, List.mem_singleton] at here
      subst here
      exact ⟨.shading gradient outline drawn, by simp [substituted, drawn]⟩
  | _ => cases here

/-- **A path of the picture** was there before the move, or is painted in
it. -/
theorem Move.paints (moves : Moves limits level initial m) (move : Move limits level m m')
    {shape : Shape} (path : shape.isPath = true) (here : shape ∈ m'.picture.shapes.toList) :
    shape ∈ m.picture.shapes.toList ∨ PaintedIn shape m m' := by
  -- a remark is no path
  have remark : ∀ message,
      m'.picture.shapes.toList = m.picture.shapes.toList ++ [.comment message] →
      shape ∈ m.picture.shapes.toList := by
    intro message added
    rw [added] at here
    rcases List.mem_append.mp here with old | new
    · exact old
    · rw [List.mem_singleton.mp new] at path
      cases path
  cases move with
  | @step s s' _ _ step =>
    cases stands : operatorAt? (s, m) with
    | some op =>
      obtain ⟨-, nested⟩ := Identified.of_moves moves
      have added := step.shapes_of_operator nested stands
      dsimp only at added
      rw [added] at here
      rcases List.mem_append.mp here with old | new
      · exact .inl old
      · rcases List.mem_append.mp new with painted | instead
        · obtain ⟨paints, alone⟩ := paints_of_painted painted
          exact .inr ⟨paints, by rw [added, alone]⟩
        · rw [isPath_of_substituted instead] at path
          cases path
    | none =>
      obtain same | ⟨-, remarked⟩ := step.shapes_of_other stands
      · exact .inl (same ▸ here)
      · exact .inl (remark _ (by rw [remarked, Array.toList_push]))
  | stop => exact .inl (remark _ Array.toList_push)
  | finish =>
    have added := paintPath_shapes m .lines
    rw [Machine.finish, added] at here
    rcases List.mem_append.mp here with old | new
    · exact .inl old
    · obtain ⟨is, alone⟩ := pathAs_eq_of_mem new
      exact .inr ⟨is ▸ .path .lines, by rw [Machine.finish, added, alone]⟩

/-- **Every path of the picture was painted** at some moment in a life that leads to
the machine. -/
theorem painted_of_moves (moves : Moves limits level initial m) {shape : Shape}
    (path : shape.isPath = true) (here : shape ∈ m.picture.shapes.toList) :
    Happened limits level m (PaintedIn shape) := by
  induction moves with
  | refl => cases here
  | @tail m m' moves move ih =>
    rcases move.paints moves path here with old | now
    · exact (ih old).later move
    · exact .now moves move now

/-! ## One moment, one decision -/

/-- **The placement of coordinates, the radii of arcs and the group around an
element agree** in every reachable machine. The path leaves coordinates to a
group if and only if the graphics state asks for one; if not, a map that it
puts them through has the coefficients of the identity. An arc has the radii
that go with that choice. An element painted now stands in a group if and only
if coordinates are left to one. Then nothing is mapped, and the group says
what the transform in force is: the parts of it that are noticeable, and nothing
just if there are none. Without a group the transform in force is the identity,
and it is what coordinates are mapped through. Every path of the picture was
painted under the graphics state in force at some moment of a life that leads to
the machine, and coordinates given at any moment under the same transform and
clips were left to a group if and only if the element stands in one. -/
theorem placement_agrees_with_group {limits : Limits} {level : Nat} {m : Machine}
    (reachable : Reachable limits level m) :
    m.path.placement.isGrouped = m.graphics.needsGroup
    ∧ (∀ map, m.path.placement = .baked map → map.isIdentity = true)
    ∧ (∀ r, arcRadii m.graphics r = m.path.placement.radii r)
    ∧ (∀ data mode ref,
        pathMarkup data m.graphics mode ref = (pathElement data m.graphics mode ref).markup
        ∧ (pathElement data m.graphics mode ref).group
          = if m.path.placement.isGrouped then some m.graphics.groupAttributes else none)
    ∧ (m.path.placement.isGrouped = true →
        ∀ x y, m.path.placement.point x y = (x, y) ∧ m.path.placement.vector x y = (x, y))
    ∧ (∀ (g : GraphicsState) (text : String), ("transform", text) ∈ g.groupAttributes
        ↔ g.transform.noticeable ≠ []
          ∧ text = " ".intercalate (g.transform.noticeable.map MapPart.text))
    ∧ (m.path.placement.isGrouped = false →
        m.graphics.transform.isIdentity = true ∧ m.graphics.clips = []
        ∧ m.path.placement.map = m.graphics.transform)
    ∧ ∀ data look mode ref, .path data look mode ref ∈ m.picture.shapes.toList →
        (Happened limits level m fun before after =>
          PaintedIn (.path data look mode ref) before after ∧ look = before.graphics)
        ∧ ∀ given, Moves limits level initial given →
            given.graphics.transform = look.transform → given.graphics.clips = look.clips →
            given.path.placement.isGrouped = look.needsGroup := by
  have informed : m.Informed := .of_moves reachable.moves
  refine ⟨informed.isGrouped, ?_, informed.arcRadii_eq, ?_, ?_,
    GraphicsState.mem_groupAttributes_transform_iff, ?_, ?_⟩
  · intro map baked
    -- coordinates that are mapped are not left to a group, so none is asked for
    have bare : m.graphics.needsGroup = false := by
      rw [← informed.isGrouped, baked]
      rfl
    have same : map = m.graphics.transform := by
      rw [← informed.map_eq bare, baked]
      rfl
    rw [same]
    exact GraphicsState.transform_of_bare bare
  · intro data mode ref
    rw [pathMarkup_eq, informed.isGrouped]
    exact ⟨rfl, rfl⟩
  · intro grouped x y
    rw [eq_grouped_of_isGrouped grouped]
    exact ⟨rfl, rfl⟩
  · intro bare
    rw [informed.isGrouped] at bare
    exact ⟨GraphicsState.transform_of_bare bare, GraphicsState.clips_of_bare bare,
      informed.map_eq bare⟩
  · intro data look mode ref here
    constructor
    · obtain ⟨before, after, moves, move, since, painted⟩ :=
        painted_of_moves reachable.moves rfl here
      refine ⟨before, after, moves, move, since, painted, ?_⟩
      cases painted.paints <;> rfl
    · intro given moves transform clips
      rw [(Informed.of_moves moves).isGrouped, GraphicsState.needsGroup, GraphicsState.needsGroup,
        transform, clips]

/-- A line painted inside a clip and under a translation: it stands in a
group, and the group names the translation. -/
theorem placement_agrees_with_group_clipped :
    ∃ m : Machine, Reachable {} 0 m
      ∧ m.graphics.clips.length = 1 ∧ m.graphics.transform.apply 1 2 = (11, 22)
      ∧ m.picture.shapes.toList.map Shape.isBarePath = [false]
      ∧ m.path.placement.isGrouped = m.graphics.needsGroup
      ∧ (∀ r, arcRadii m.graphics r = m.path.placement.radii r)
      ∧ MapPart.translation 10 20 ∈ m.graphics.transform.noticeable
      ∧ ("transform", " ".intercalate (m.graphics.transform.noticeable.map MapPart.text))
        ∈ m.graphics.groupAttributes
      ∧ ∀ data look mode ref, .path data look mode ref ∈ m.picture.shapes.toList →
          (Happened {} 0 m fun before after =>
            PaintedIn (.path data look mode ref) before after ∧ look = before.graphics)
          ∧ ∀ given, Moves {} 0 initial given →
              given.graphics.transform = look.transform → given.graphics.clips = look.clips →
              given.path.placement.isGrouped = look.needsGroup := by
  have ran : (initial.run {} 20 [.operator "moveto", .operator "clip", .number "10", .number "20",
      .operator "translate", .number "1", .number "2", .operator "moveto", .number "3",
      .number "4", .operator "rlineto"]).map
        (fun m => (m.graphics.clips.length, m.graphics.transform.apply 1 2,
          m.picture.shapes.toList.map Shape.isBarePath, m.graphics.transform.parts.translation))
      = some (1, (11, 22), [false], (10, 20)) := by decide +kernel
  obtain ⟨m, ran, facts⟩ := Option.map_eq_some_iff.mp ran
  obtain ⟨clips, facts⟩ := Prod.mk.inj facts
  obtain ⟨moved, facts⟩ := Prod.mk.inj facts
  obtain ⟨bare, translation⟩ := Prod.mk.inj facts
  have reachable := Reachable.of_run ran
  obtain ⟨grouped, -, radii, -, -, transform, -, painted⟩ := placement_agrees_with_group reachable
  have noticed : MapPart.translation 10 20 ∈ m.graphics.transform.noticeable := by
    rw [Affine.noticeable, translation]
    exact List.mem_filter.mpr ⟨List.mem_cons_self, by decide +kernel⟩
  exact ⟨m, reachable, clips, moved, bare, grouped, radii, noticed,
    (transform _ _).mpr ⟨List.ne_nil_of_mem noticed, rfl⟩, painted⟩

/-- **A transform that no longer holds when the path is painted is lost.** The
points of a line are given under a translation, and left to a group; then the
translation is undone, and the line is painted without a group and with the
coordinates as they were given. -/
theorem transform_undone_before_painting :
    (∃ given : TokenStream × Machine, Steps {} 0
        (.ofTokens [.operator "gsave", .number "10", .number "20", .operator "translate",
          .number "1", .number "2", .operator "moveto", .number "3", .number "4",
          .operator "rlineto", .operator "grestore", .operator "stroke"], initial) given
      ∧ given.1.unread = [.operator "grestore", .operator "stroke"]
      ∧ given.2.graphics.transform.apply 1 2 = (11, 22)
      ∧ given.2.path.placement.isGrouped = true
      ∧ given.2.path.data.text = "M 1 2 l 3 4")
    ∧ (initial.run {} 20 [.operator "gsave", .number "10", .number "20", .operator "translate",
          .number "1", .number "2", .operator "moveto", .number "3", .number "4",
          .operator "rlineto", .operator "grestore", .operator "stroke"]).map
        (·.picture.fragments.shapes)
      = some ["<path d=\"M 1 2 l 3 4\" fill=\"none\" stroke=\"black\" />"] := by
  constructor
  · have advanced : (advance {} 0 10
        (.ofTokens [.operator "gsave", .number "10", .number "20", .operator "translate",
          .number "1", .number "2", .operator "moveto", .number "3", .number "4",
          .operator "rlineto", .operator "grestore", .operator "stroke"], initial)).map
          (fun c => (c.1.unread, c.2.graphics.transform.apply 1 2, c.2.path.placement.isGrouped,
            c.2.path.data.text))
        = some ([.operator "grestore", .operator "stroke"], (11, 22), true, "M 1 2 l 3 4") := by
      decide +kernel
    obtain ⟨given, advanced, facts⟩ := Option.map_eq_some_iff.mp advanced
    obtain ⟨unread, facts⟩ := Prod.mk.inj facts
    obtain ⟨moved, facts⟩ := Prod.mk.inj facts
    obtain ⟨grouped, text⟩ := Prod.mk.inj facts
    exact ⟨given, .of_advance advanced, unread, moved, grouped, text⟩
  · decide +kernel

end Moves

end Machine

end VectorPage
