/-
Affine maps in exact arithmetic, and the paths they place.

The formulas of maps and placements are run on doubles, which round. Read over a
commutative ring they are exact, and then a map is known by the images of its points
(`eq_of_apply`), so the laws of composition are those of functions. An inverse needs
division, and a determinant that is not negligible; it is taken over the rationals.

A displacement is placed apart from the points it leads from and to, yet it leads
from the one to the other on the page too (`point_add`). So it does not matter
whether the commands of a path are given as displacements or as points: one gets the
same outline by making commands absolute and placing them as by placing them and
making them absolute (`outline_map_placed`).
-/
import Mathlib
import VectorPage.Proofs.Tracking

set_option autoImplicit false

namespace VectorPage

variable {α : Type}

/-! ## Composition -/

namespace Affine

section Ring

variable [CommRing α]

/-- **A composite map** takes a point where its second factor takes it, and then on
by the first. -/
theorem apply_concat (m n : Affine α) (x y : α) :
    (m.concat n).apply x y = m.apply (n.apply x y).1 (n.apply x y).2 := by
  simp only [concat, andThen, apply, Prod.mk.injEq]
  constructor <;> ring

@[simp] theorem apply_identity (x y : α) : (identity : Affine α).apply x y = (x, y) := by
  simp [identity, apply]

/-- **Maps that agree on all points are equal.** The origin gives the translation, and
the ends of the two unit vectors give the rest. -/
theorem eq_of_apply {m n : Affine α} (h : ∀ x y, m.apply x y = n.apply x y) : m = n := by
  have origin := h 0 0
  have first := h 1 0
  have second := h 0 1
  simp only [apply, mul_zero, mul_one, zero_add, add_zero, Prod.mk.injEq] at origin first second
  rw [origin.1, origin.2, add_left_inj, add_left_inj] at first second
  cases m
  cases n
  rw [mk.injEq]
  exact ⟨first.1, first.2, second.1, second.2, origin⟩

/-- Maps are equal if they do the same to every point, and doing one after the other
does not depend on brackets. -/
theorem concat_assoc (l m n : Affine α) : (l.concat m).concat n = l.concat (m.concat n) :=
  eq_of_apply fun x y => by simp only [apply_concat]

theorem identity_concat (m : Affine α) : identity.concat m = m :=
  eq_of_apply fun x y => by rw [apply_concat, apply_identity]

theorem concat_identity (m : Affine α) : m.concat identity = m :=
  eq_of_apply fun x y => by rw [apply_concat, apply_identity]

end Ring

/-! ## Inverses -/

/-- A determinant counts as zero up to a bound, which is an exact decimal here. -/
theorem isNegligible_eq_false_iff (det : ℚ) : isNegligible det = false ↔ 1e-10 ≤ |det| := by
  rw [← not_lt, abs_lt, isNegligible, Bool.eq_false_iff, ne_eq, Bool.and_eq_true,
    decide_eq_true_eq, decide_eq_true_eq]

variable {m : Affine ℚ}

/-- What does not count as zero is not zero; the converse fails between zero and the
bound. -/
theorem determinant_ne_zero (large : 1e-10 ≤ |m.determinant|) : m.determinant ≠ 0 := by
  rw [← abs_pos]
  exact lt_of_lt_of_le (by norm_num) large

/-- **Cramer's rule**: the inverse takes a point to the solution of the two equations
that make it an image. -/
theorem apply_invert (large : 1e-10 ≤ |m.determinant|) (x y : ℚ) :
    m.invert.apply x y
      = ((m.d * (x - m.e) - m.c * (y - m.f)) / m.determinant,
         (m.a * (y - m.f) - m.b * (x - m.e)) / m.determinant) := by
  rw [invert, (isNegligible_eq_false_iff _).2 large]
  simp only [Bool.false_eq_true, if_false, apply, Prod.mk.injEq]
  constructor <;> ring

/-- The inverse undoes the map. -/
theorem invert_apply_apply (large : 1e-10 ≤ |m.determinant|) (x y : ℚ) :
    m.invert.apply (m.apply x y).1 (m.apply x y).2 = (x, y) := by
  have nonzero := determinant_ne_zero large
  rw [apply_invert large, Prod.mk.injEq, div_eq_iff nonzero, div_eq_iff nonzero]
  simp only [apply, determinant]
  constructor <;> ring

/-- The map undoes its inverse. -/
theorem apply_invert_apply (large : 1e-10 ≤ |m.determinant|) (x y : ℚ) :
    m.apply (m.invert.apply x y).1 (m.invert.apply x y).2 = (x, y) := by
  have nonzero := determinant_ne_zero large
  rw [apply_invert large, apply, Prod.mk.injEq]
  -- the determinant stays a symbol until the denominators are gone
  constructor <;> field_simp <;> simp only [determinant] <;> ring

/-- **A map followed by its inverse** is the identity. -/
theorem concat_invert (large : 1e-10 ≤ |m.determinant|) : m.concat m.invert = identity :=
  eq_of_apply fun x y => by rw [apply_concat, apply_invert_apply large, apply_identity]

/-- So is the inverse followed by the map. -/
theorem invert_concat (large : 1e-10 ≤ |m.determinant|) : m.invert.concat m = identity :=
  eq_of_apply fun x y => by rw [apply_concat, invert_apply_apply large, apply_identity]

end Affine

/-! ## Placed points and displacements -/

/-- **A displacement leads from point to point on the page** as it does in the
coordinates of the program. -/
theorem Placement.point_add [CommRing α] (p : Placement α) (x y dx dy : α) :
    p.point (x + dx) (y + dy) = p.point x y + p.vector dx dy := by
  cases p with
  | plain | grouped => rfl
  | baked m =>
    simp only [point, vector, Affine.apply, Affine.applyVector, Prod.mk_add_mk, Prod.mk.injEq]
    constructor <;> ring

/-! ## Commands of a path -/

namespace Segment

/-- The command in absolute form, for a pen that stands at a point. The displacements
of a curve all lead from there. -/
def absolute [Add α] (p : α × α) : Segment α → Segment α
  | moveBy dx dy => moveTo (p.1 + dx) (p.2 + dy)
  | lineBy dx dy => lineTo (p.1 + dx) (p.2 + dy)
  | curveBy dx₁ dy₁ dx₂ dy₂ dx dy =>
    curveTo (p.1 + dx₁) (p.2 + dy₁) (p.1 + dx₂) (p.2 + dy₂) (p.1 + dx) (p.2 + dy)
  | s => s

/-- The command that a path holds once a command is placed. -/
def placed [Add α] [Mul α] (p : Placement α) : Segment α → Segment α
  | moveTo x y => moveTo (p.point x y).1 (p.point x y).2
  | moveBy dx dy => moveBy (p.vector dx dy).1 (p.vector dx dy).2
  | lineTo x y => lineTo (p.point x y).1 (p.point x y).2
  | lineBy dx dy => lineBy (p.vector dx dy).1 (p.vector dx dy).2
  | curveTo x₁ y₁ x₂ y₂ x y =>
    curveTo (p.point x₁ y₁).1 (p.point x₁ y₁).2 (p.point x₂ y₂).1 (p.point x₂ y₂).2
      (p.point x y).1 (p.point x y).2
  | curveBy dx₁ dy₁ dx₂ dy₂ dx dy =>
    curveBy (p.vector dx₁ dy₁).1 (p.vector dx₁ dy₁).2 (p.vector dx₂ dy₂).1 (p.vector dx₂ dy₂).2
      (p.vector dx dy).1 (p.vector dx dy).2
  | arcTo rx ry rotation large sweep x y =>
    arcTo rx ry rotation large sweep (p.point x y).1 (p.point x y).2
  | close => close

variable [CommRing α] (p : Placement α) (q : α × α) (s : Segment α)

/-- A command is made absolute before or after it is placed, to the same effect. -/
theorem placed_absolute :
    (s.absolute q).placed p = (s.placed p).absolute (p.point q.1 q.2) := by
  -- only displacements know where the pen stands
  cases s with
  | moveBy | lineBy | curveBy =>
    simp only [absolute, placed, Placement.point_add, Prod.fst_add, Prod.snd_add]
  | _ => rfl

/-- A segment carries a placed point where it would carry the point, placed. -/
theorem carry_placed :
    (s.placed p).carry (p.point q.1 q.2) = p.point (s.carry q).1 (s.carry q).2 := by
  cases s with
  | moveBy | lineBy | curveBy =>
    simp only [carry, placed, Placement.point_add]
    rfl
  | _ => rfl

end Segment

/-! ## Outlines -/

namespace Pen

/-- **The outline that commands describe** to a reader with a pen: the same commands,
all of them absolute. -/
def outline [Add α] (pen : Pen α) : List (Segment α) → List (Segment α)
  | [] => []
  | s :: rest => s.absolute pen.point :: (pen.draw s).outline rest

/-- The pen on the page, for a pen in the coordinates of the program. -/
def placed [Add α] [Mul α] (p : Placement α) (pen : Pen α) : Pen α where
  point := p.point pen.point.1 pen.point.2
  start := p.point pen.start.1 pen.start.2

variable [CommRing α] (p : Placement α)

/-- **One segment**: placing commutes with drawing. This is the step of the induction
over a path. -/
theorem draw_placed (pen : Pen α) (s : Segment α) :
    (pen.placed p).draw (s.placed p) = (pen.draw s).placed p := by
  have carried := s.carry_placed p pen.point
  cases s with
  | close => rfl
  | _ => simp only [draw, placed, Segment.placed] at carried ⊢; rw [carried]

/-- **Placing commands places their outline.** -/
theorem outline_map_placed (pen : Pen α) (given : List (Segment α)) :
    (pen.placed p).outline (given.map (Segment.placed p))
      = (pen.outline given).map (Segment.placed p) := by
  -- the pens stay in step: one is always where the other is placed
  induction given generalizing pen with
  | nil => rfl
  | cons s rest ih =>
    rw [List.map_cons, outline, draw_placed, ih, outline, List.map_cons, Segment.placed_absolute]
    rfl

end Pen

/-! ## Drawing -/

namespace Path

/-- Draws a command that is given in the coordinates of the program. -/
def draw [Add α] [Mul α] (path : Path α) : Segment α → Path α
  | .moveTo x y => path.moveTo x y
  | .moveBy dx dy => path.moveBy dx dy
  | .lineTo x y => path.lineTo x y
  | .lineBy dx dy => path.lineBy dx dy
  | .curveTo x₁ y₁ x₂ y₂ x y => path.curveTo x₁ y₁ x₂ y₂ x y
  | .curveBy dx₁ dy₁ dx₂ dy₂ dx dy => path.curveBy dx₁ dy₁ dx₂ dy₂ dx dy
  | .arcTo rx ry rotation large sweep x y => path.arcTo rx ry rotation large sweep x y
  | .close => path.close

theorem draw_eq [Add α] [Mul α] (path : Path α) (s : Segment α) :
    path.draw s = path.push (s.placed path.placement) := by
  cases s <;> rfl

/-- **A whole path**: the segments given, each placed. By induction on the segments; the
placement does not change on the way. -/
theorem segments_foldl_draw [Add α] [Mul α] (path : Path α) (given : List (Segment α)) :
    (given.foldl draw path).segments.toList
      = path.segments.toList ++ given.map (Segment.placed path.placement) := by
  induction given generalizing path with
  | nil => rw [List.foldl_nil, List.map_nil, List.append_nil]
  | cons s rest ih =>
    rw [List.foldl_cons, draw_eq, ih, push, Array.toList_push, List.append_assoc]
    rfl

end Path

/-! ## The algebra as a whole -/

/-- **Maps obey the algebra of affine maps** in exact arithmetic. Concatenating maps
composes them, associatively and with the identity as neutral element. A map whose
determinant is not negligible is undone by its inverse on either side. A displacement
is placed as the difference of the points it leads between. And commands given as
displacements are drawn with the outline of the same commands given as points,
whatever the path and wherever the pen, if it is placed as they are. -/
theorem maps_obey_affine_algebra (l m n : Affine ℚ) (path : Path ℚ) (p d : ℚ × ℚ) (pen : Pen ℚ)
    (given : List (Segment ℚ)) :
    (m.concat n).apply p.1 p.2 = m.apply (n.apply p.1 p.2).1 (n.apply p.1 p.2).2
    ∧ (l.concat m).concat n = l.concat (m.concat n)
    ∧ Affine.identity.concat m = m ∧ m.concat .identity = m
    ∧ Affine.identity.apply p.1 p.2 = p
    ∧ (1e-10 ≤ |m.determinant| →
        m.concat m.invert = .identity ∧ m.invert.concat m = .identity)
    ∧ path.placement.vector d.1 d.2
        = path.placement.point (p.1 + d.1) (p.2 + d.2) - path.placement.point p.1 p.2
    ∧ ∃ drawn, (given.foldl Path.draw path).segments.toList = path.segments.toList ++ drawn
        ∧ ((pen.outline given).foldl Path.draw path).segments.toList
          = path.segments.toList ++ (pen.placed path.placement).outline drawn := by
  refine ⟨Affine.apply_concat m n p.1 p.2, Affine.concat_assoc l m n, m.identity_concat,
    m.concat_identity, Affine.apply_identity p.1 p.2,
    fun large => ⟨Affine.concat_invert large, Affine.invert_concat large⟩, ?_,
    given.map (Segment.placed path.placement), Path.segments_foldl_draw path given, ?_⟩
  · rw [Placement.point_add, add_sub_cancel_left]
  · rw [Pen.outline_map_placed, Path.segments_foldl_draw]

/-- A map without symmetries, and a triangle given by displacements that goes on after
it is closed. -/
theorem maps_obey_affine_algebra_skewed :
    ∃ (m : Affine ℚ) (given drawn : List (Segment ℚ)),
      m.apply 1 2 = (13, 16) ∧ 1e-10 ≤ |m.determinant|
      ∧ m.invert = ⟨4 / 5, -1 / 5, -3 / 5, 2 / 5, 1 / 5, -9 / 5⟩
      ∧ m.concat m.invert = .identity ∧ m.invert.concat m = .identity
      ∧ given = [.moveTo 1 2, .lineBy 3 4, .lineBy 0 1, .close, .moveBy 1 1]
      ∧ drawn = [.moveTo 13 16, .lineBy 18 19, .lineBy 3 4, .close, .moveBy 5 5]
      ∧ (given.foldl Path.draw { placement := .baked m }).segments.toList = drawn
      ∧ (((Pen.mk (0, 0) (0, 0)).outline given).foldl Path.draw
          { placement := .baked m }).segments.toList = (Pen.mk (5, 7) (5, 7)).outline drawn
      ∧ (Pen.mk (5, 7) (5, 7)).outline drawn
        = [.moveTo 13 16, .lineTo 31 35, .lineTo 34 39, .close, .moveTo 18 21] := by
  have large : (1e-10 : ℚ) ≤ |Affine.determinant ⟨2, 1, 3, 4, 5, 7⟩| := by decide +kernel
  obtain ⟨-, -, -, -, -, inverse, -, drawn, appended, outlined⟩ :=
    maps_obey_affine_algebra .identity ⟨2, 1, 3, 4, 5, 7⟩ .identity
      { placement := .baked ⟨2, 1, 3, 4, 5, 7⟩ } (1, 2) (3, 4) ⟨(0, 0), (0, 0)⟩
      [.moveTo 1 2, .lineBy 3 4, .lineBy 0 1, .close, .moveBy 1 1]
  rw [List.nil_append] at appended outlined
  have commands : drawn = [.moveTo 13 16, .lineBy 18 19, .lineBy 3 4, .close, .moveBy 5 5] := by
    rw [← appended, Path.segments_foldl_draw]
    norm_num [Segment.placed, Placement.point, Placement.vector, Affine.apply, Affine.applyVector]
  refine ⟨_, _, drawn, by decide +kernel, large, by decide +kernel, (inverse large).1,
    (inverse large).2, rfl, commands, appended, ?_, ?_⟩
  · rw [outlined]
    norm_num [Pen.placed, Placement.point, Affine.apply]
  · rw [commands]
    norm_num [Pen.outline, Pen.draw, Segment.absolute, Segment.carry]

end VectorPage
