/-
Where the page lands on the canvas.

The tag that opens a document gives its view box, and the group around everything
turns the page over: it mirrors the vertical axis and moves it by an offset. The
numbers in both tags are read here as they are written (`Fragments.HasFrame`); for a
bounding box with whole coordinates they are whole numbers, and exact except that a
difference that is no double was rounded.

The offset is the height of the canvas, whatever the bottom of the box. A box that
stands on the axis is turned onto the view box: its bottom to the bottom, its top to
the top. A box whose bottom is elsewhere lands beside the view box, off by twice that
distance, since turning it over takes its bottom to the other side of the axis and the
view box stays.
-/
import VectorPage.Document.Page
import VectorPage.Proofs.Doubles
import VectorPage.Proofs.Elements

set_option autoImplicit false

namespace VectorPage

/-! ## The text of a whole number -/

theorem divHalfEven_mul (q : ℕ) {d : ℕ} (pos : 0 < d) : divHalfEven (q * d) d = q := by
  simp only [divHalfEven, Nat.mul_div_cancel q pos, Nat.mul_mod_left]
  rw [if_pos (.inl (by omega))]

/-- A whole number is a thousand thousandths for each of its units. -/
theorem Exact.thousandths_of_whole {v : Exact} {n : ℕ} (h : (v.mantissa : ℚ) * 2 ^ v.exponent = n) :
    v.thousandths = n * 1000 := by
  obtain ⟨negative, m, e⟩ := v
  dsimp only at h
  unfold thousandths magnitude
  by_cases whole : 0 ≤ e
  · obtain ⟨k, rfl⟩ := Int.eq_ofNat_of_zero_le whole
    have h : m * 2 ^ k = n := by exact_mod_cast h
    simp only [whole, if_true, Int.toNat_natCast, Nat.shiftLeft_eq]
    rw [h]
    exact (congrArg (divHalfEven · 1) (Nat.mul_one _).symm).trans (divHalfEven_mul _ one_pos)
  · obtain ⟨k, rfl⟩ : ∃ k : ℕ, e = -k := ⟨(-e).toNat, by omega⟩
    have h : m = n * 2 ^ k := by
      rw [zpow_neg, zpow_natCast] at h
      field_simp at h
      rw [mul_comm]
      exact_mod_cast h
    simp only [whole, if_false, Int.neg_neg, Int.toNat_natCast, Nat.one_shiftLeft]
    rw [h, Nat.mul_right_comm]
    exact divHalfEven_mul _ (by positivity)

theorem thousandthsText_of_whole (negative : Bool) (n : ℕ) :
    thousandthsText negative (n * 1000) = toString (if negative then -(n : ℤ) else n) := by
  have whole : n * 1000 / 1000 = n := Nat.mul_div_cancel n (by decide)
  have fraction : fractionText (n * 1000 % 1000) = "" := by
    rw [Nat.mul_mod_left]
    decide
  simp only [thousandthsText, whole, fraction, String.append_empty]
  cases negative with
  | false => rfl
  | true =>
    cases n with
    | zero => rfl
    | succ n => rfl

/-- **A whole double is written as the whole number it is.** -/
theorem numberText_of_isWhole {x : Float} {n : ℤ} (h : IsWhole x n) :
    numberText x = toString n := by
  obtain ⟨v, is, value⟩ := h
  obtain ⟨k, size⟩ : ∃ k : ℕ, (v.mantissa : ℚ) * 2 ^ v.exponent = k := by
    refine ⟨n.natAbs, ?_⟩
    rw [Nat.cast_natAbs, Int.cast_abs, ← value, Exact.value, abs_mul,
      abs_of_nonneg (a := (v.mantissa : ℚ) * 2 ^ v.exponent) (by positivity)]
    split <;> simp
  have signed : n = if v.negative then -(k : ℤ) else k := by
    rw [Exact.value, size] at value
    split at value
    · rw [if_pos ‹_›]
      exact_mod_cast (neg_one_mul (k : ℚ) ▸ value).symm
    · rw [if_neg ‹_›]
      exact_mod_cast (one_mul (k : ℚ) ▸ value).symm
  simp only [numberText, is]
  rw [Exact.thousandths_of_whole size, thousandthsText_of_whole, ← signed]

/-- The text of a difference of whole doubles is that of a whole number, which is the
exact difference just if that is a double. -/
theorem numberText_sub {x y : Float} {a b : ℤ} (hx : IsWhole x a) (hy : IsWhole y b) :
    ∃ w : ℤ, numberText (x - y) = toString w ∧ (w = a - b ↔ IsDouble (a - b)) := by
  rcases hx.sub hy with ⟨infinite, long⟩ | ⟨w, whole, exact⟩
  · -- what is infinite is written as zero, which the exact difference is not
    refine ⟨0, ?_, fun same => ?_, fun double => absurd double long⟩
    · simp only [numberText, infinite]
      rfl
    rw [← same]
    exact isDouble_of_le (by decide)
  · refine ⟨w, numberText_of_isWhole whole, fun same => ?_, exact⟩
    rw [← same]
    exact ⟨x - y, whole⟩

/-! ## Frames -/

/-- **The numbers that place a page**: the view box of the document, and the offset
of the group that turns the page over. -/
structure Frame where
  x : ℤ
  y : ℤ
  width : ℤ
  height : ℤ
  offset : ℤ

/-- The line that declares what a document is written in. -/
def declaration : String :=
  "<?xml version=\"1.0\" encoding=\"UTF-8\"?>\n"

/-- The attributes of the tag that opens a document. -/
def openingAttributes (x y width height : String) : Attributes :=
  [("xmlns", "http://www.w3.org/2000/svg"), ("viewBox", " ".intercalate [x, y, width, height]),
    ("width", width), ("height", height)]

/-- The attributes of the group that turns a page over. -/
def turningAttributes (offset : String) : Attributes :=
  [("transform", "translate(0 " ++ offset ++ ") scale(1 -1)")]

/-- **The frame of a document**, read off two tags: the one behind the declaration,
and the one behind the definitions. -/
def Fragments.HasFrame (f : Fragments) (text : String) (frame : Frame) : Prop :=
  ∃ inside rest,
    readTag? (text.toList.drop declaration.length)
      = some (⟨"svg", openingAttributes (toString frame.x) (toString frame.y)
          (toString frame.width) (toString frame.height), false⟩,
        ("\n" ++ definitionsMarkup f.definitions ++ "\n").toList ++ inside)
    ∧ readTag? inside = some (⟨"g", turningAttributes (toString frame.offset), false⟩, rest)

/-- The tag that opens a document, with its attributes as a list. -/
theorem opening_eq (c : Canvas) :
    "<svg xmlns=\"http://www.w3.org/2000/svg\" " ++ c.markup ++ ">"
      = "<" ++ "svg" ++ attributesText (openingAttributes (numberText c.x) (numberText c.y)
        (numberText c.width) (numberText c.height)) ++ ">" := by
  have first : "<svg xmlns=\"http://www.w3.org/2000/svg\" "
      = "<" ++ "svg" ++ (" " ++ attr "xmlns" "http://www.w3.org/2000/svg") ++ " " := by decide
  rw [first, openingAttributes, attributesText_cons, attributesText_cons, attributesText_cons,
    attributesText_cons, Canvas.markup]
  simp only [attributesText, List.map_nil, String.join_nil, String.intercalate_cons_cons,
    String.intercalate_singleton, String.append_assoc, String.append_empty]

/-- The tag that turns the page over, as a tag with one attribute. -/
theorem turning_eq (c : Canvas) :
    "<g " ++ attr "transform" c.flip ++ ">"
      = "<" ++ "g" ++ attributesText (turningAttributes (numberText c.height)) ++ ">" := by
  have first : "<g " = "<" ++ "g" ++ " " := by decide
  rw [first, turningAttributes, attributesText_cons, Canvas.flip]
  simp only [attributesText, List.map_nil, String.join_nil, String.append_assoc,
    String.append_empty]

/-- **A document begins with its two tags**, after a declaration and with the
definitions in between. -/
theorem document_eq (f : Fragments) (c : Canvas) :
    ∃ rest, f.document c = declaration
      ++ (("<" ++ "svg" ++ attributesText (openingAttributes (numberText c.x) (numberText c.y)
          (numberText c.width) (numberText c.height)) ++ ">")
        ++ (("\n" ++ definitionsMarkup f.definitions ++ "\n")
          ++ (("<" ++ "g" ++ attributesText (turningAttributes (numberText c.height)) ++ ">")
            ++ rest))) := by
  refine ⟨"\n" ++ ("\n".intercalate f.shapes ++ "\n" ++ "\n".intercalate f.texts ++ "</g>\n"
    ++ "</svg>"), ?_⟩
  rw [← opening_eq, ← turning_eq]
  -- both tags end their line, and the end of the line is not part of the tag
  have ends : ∀ s : String, ">\n" ++ s = ">" ++ ("\n" ++ s) := fun s => by
    rw [← String.append_assoc]
    rfl
  unfold Fragments.document declaration
  simp only [String.append_assoc, ends]

/-- The attributes of the opening tag have names and clean values, so the tag is read
back. -/
theorem openingAttributes_plain (c : Canvas) :
    ∀ a ∈ openingAttributes (numberText c.x) (numberText c.y) (numberText c.width)
        (numberText c.height),
      isTagName a.1 = true ∧ isClean a.2 = true := by
  have box : isClean (" ".intercalate [numberText c.x, numberText c.y, numberText c.width,
      numberText c.height]) = true :=
    isClean_intercalate (by decide) (by simp [isClean_numberText])
  simp only [openingAttributes, List.mem_cons, List.not_mem_nil, or_false]
  rintro a (rfl | rfl | rfl | rfl)
  · exact ⟨by decide, by decide⟩
  · exact ⟨show isTagName "viewBox" = true by decide, box⟩
  · exact ⟨show isTagName "width" = true by decide, isClean_numberText _⟩
  · exact ⟨show isTagName "height" = true by decide, isClean_numberText _⟩

/-- So has the one of the tag that turns the page over. -/
theorem turningAttributes_plain (x : Float) :
    ∀ a ∈ turningAttributes (numberText x), isTagName a.1 = true ∧ isClean a.2 = true := by
  simp only [turningAttributes, List.mem_singleton]
  rintro a rfl
  refine ⟨show isTagName "transform" = true by decide, ?_⟩
  simp only [isClean_append, isClean_numberText, Bool.and_true]
  decide

/-- **The frame of a document** has the numbers of its canvas as they are written. -/
theorem hasFrame_document (f : Fragments) {c : Canvas} {frame : Frame}
    (x : numberText c.x = toString frame.x) (y : numberText c.y = toString frame.y)
    (width : numberText c.width = toString frame.width)
    (height : numberText c.height = toString frame.height)
    (offset : numberText c.height = toString frame.offset) :
    f.HasFrame (f.document c) frame := by
  obtain ⟨rest, text⟩ := document_eq f c
  have opening := openingAttributes_plain c
  have turning := turningAttributes_plain c.height
  rw [text, Fragments.HasFrame, ← x, ← y, ← width, ← height, ← offset]
  refine ⟨_, rest.toList, ?_, readTag?_opening (by decide) (fun a mem => (turning a mem).1)
    (fun a mem => (turning a mem).2) _⟩
  have parts : ∀ s t u v w : String, (s ++ (t ++ (u ++ (v ++ w)))).toList
      = s.toList ++ (t.toList ++ (u.toList ++ (v.toList ++ w.toList))) := by
    intro s t u v w
    simp only [String.toList_append]
  rw [parts, ← String.length_toList, List.drop_left]
  exact readTag?_opening (by decide) (fun a mem => (opening a mem).1)
    (fun a mem => (opening a mem).2) _

/-! ## Turning the page over -/

namespace Frame

/-- **Where the group takes a point of the page.** -/
def turn (frame : Frame) (p : ℝ × ℝ) : ℝ × ℝ :=
  (p.1, frame.offset - p.2)

/-- The rectangle that the document shows. -/
def view (frame : Frame) : Set (ℝ × ℝ) :=
  Set.Icc (frame.x, frame.y) (frame.x + frame.width, frame.y + frame.height)

/-- Turning over takes a rectangle to a rectangle; its top becomes the bottom. -/
theorem image_turn (frame : Frame) (left bottom right top : ℝ) :
    Set.image frame.turn (Set.Icc (left, bottom) (right, top))
      = Set.Icc (left, frame.offset - top) (right, frame.offset - bottom) := by
  ext ⟨x, y⟩
  simp only [turn, Set.mem_image, Set.mem_Icc, Prod.exists, Prod.mk.injEq, Prod.mk_le_mk]
  constructor
  · rintro ⟨x', y', ⟨⟨_, _⟩, _, _⟩, rfl, rfl⟩
    refine ⟨⟨?_, ?_⟩, ?_, ?_⟩ <;> linarith
  · rintro ⟨⟨_, _⟩, _, _⟩
    exact ⟨x, frame.offset - y, ⟨⟨by linarith, by linarith⟩, by linarith, by linarith⟩, rfl,
      by ring⟩

end Frame

/-- A bounding box has whole coordinates. -/
structure BoundingBox.HasCorners (b : BoundingBox) (left bottom right top : ℤ) : Prop where
  left : IsWhole b.left left
  bottom : IsWhole b.bottom bottom
  right : IsWhole b.right right
  top : IsWhole b.top top

/-- **The frame of a box** with whole coordinates. -/
theorem BoundingBox.HasCorners.exists_frame {b : BoundingBox} {left bottom right top : ℤ}
    (h : b.HasCorners left bottom right top) (f : Fragments) :
    ∃ width height, f.HasFrame (f.document b.canvas) ⟨left, bottom, width, height, height⟩
      ∧ (width = right - left ↔ IsDouble (right - left))
      ∧ (height = top - bottom ↔ IsDouble (top - bottom)) := by
  obtain ⟨width, wide, exact⟩ := numberText_sub h.right h.left
  obtain ⟨height, high, exact'⟩ := numberText_sub h.top h.bottom
  exact ⟨width, height, hasFrame_document f (numberText_of_isWhole h.left)
    (numberText_of_isWhole h.bottom) wide high high, exact, exact'⟩

/-- **The page lands on the canvas** just if the box stands on the axis and its width
is a double. For a bounding box with whole coordinates, however large, the numbers of
the two tags are whole: the corner of the view box is that of the box, its size is that
of the box where this is a double, and the offset of the group is its height. So the
group takes the bottom of the box to a line that lies above the bottom of the view box
by twice the height at which the box stands, and if its height is a double, the top of
the box to one that lies as far above the top. -/
theorem flip_lands_on_canvas_iff (f : Fragments) {b : BoundingBox} {left bottom right top : ℤ}
    (corners : b.HasCorners left bottom right top) (wide : left < right) (high : bottom < top) :
    ∃ frame, f.HasFrame (f.document b.canvas) frame
      ∧ frame.x = left ∧ frame.y = bottom ∧ frame.offset = frame.height
      ∧ (frame.width = right - left ↔ IsDouble (right - left))
      ∧ (frame.height = top - bottom ↔ IsDouble (top - bottom))
      ∧ (Set.image frame.turn (Set.Icc ((left : ℝ), (bottom : ℝ)) (right, top)) = frame.view
          ↔ bottom = 0 ∧ IsDouble (right - left))
      ∧ frame.offset - bottom = frame.y + frame.height - 2 * bottom
      ∧ (IsDouble (top - bottom) → frame.offset - top = frame.y - 2 * bottom) := by
  obtain ⟨width, height, framed, exact, exact'⟩ := corners.exists_frame f
  refine ⟨_, framed, rfl, rfl, rfl, exact, exact', ?_, by dsimp only; omega, fun double => ?_⟩
  · have le : ((left : ℝ), (height : ℝ) - top) ≤ ((right : ℝ), (height : ℝ) - bottom) :=
      Prod.mk_le_mk.mpr ⟨by exact_mod_cast wide.le, sub_le_sub_left (by exact_mod_cast high.le) _⟩
    -- both are rectangles, so they agree just if their corners do
    rw [Frame.image_turn, Frame.view, Set.Icc_eq_Icc_iff le, ← exact]
    simp only [Prod.mk.injEq]
    norm_cast
    constructor
    · -- the bottom of the box is turned to `height - bottom`, that of the view is `bottom + height`
      rintro ⟨⟨-, -⟩, right', bottom'⟩
      omega
    · -- a box on the axis is as high as its top, which is a double
      rintro ⟨rfl, rfl⟩
      have whole : height = top := by
        rw [← Int.sub_zero top]
        exact exact'.mpr (by rw [Int.sub_zero]; exact ⟨b.top, corners.top⟩)
      exact ⟨⟨trivial, by omega⟩, by omega, by omega⟩
  · have := exact'.mpr double
    dsimp only
    omega

/-- A box that stands on the axis, and one that does not. -/
def standingBox : BoundingBox := ⟨-5, 0, 100, 50⟩

def raisedBox : BoundingBox := ⟨10, 20, 110, 70⟩

theorem flip_lands_on_canvas_standing :
    standingBox.HasCorners (-5) 0 100 50
    ∧ ∃ frame, Fragments.HasFrame {} (Fragments.document {} standingBox.canvas) frame
      ∧ frame.x = -5 ∧ frame.y = 0 ∧ frame.offset = frame.height
      ∧ frame.width = 100 - -5 ∧ frame.height = 50 - 0
      ∧ Set.image frame.turn
          (Set.Icc (((-5 : ℤ) : ℝ), ((0 : ℤ) : ℝ)) (((100 : ℤ) : ℝ), ((50 : ℤ) : ℝ)))
        = frame.view := by
  have corners : standingBox.HasCorners (-5) 0 100 50 := by
    refine ⟨⟨⟨true, 5 * 2 ^ 50, -50⟩, ?_, ?_⟩, ⟨⟨false, 0, -1074⟩, ?_, ?_⟩,
      ⟨⟨false, 100 * 2 ^ 46, -46⟩, ?_, ?_⟩, ⟨⟨false, 50 * 2 ^ 47, -47⟩, ?_, ?_⟩⟩
    all_goals decide +kernel
  obtain ⟨frame, framed, x, y, offset, width, height, lands, -⟩ :=
    flip_lands_on_canvas_iff {} corners (by decide) (by decide)
  exact ⟨corners, frame, framed, x, y, offset, width.mpr (isDouble_of_le (by decide)),
    height.mpr (isDouble_of_le (by decide)), lands.mpr ⟨rfl, isDouble_of_le (by decide)⟩⟩

/-- **A box above the axis misses the canvas.** The page from 20 to 70 is turned to
where the heights run from -20 to 30, and the document shows those from 20 to 70. -/
theorem raised_box_misses_canvas :
    Fragments.HasFrame {} (Fragments.document {} raisedBox.canvas) ⟨10, 20, 100, 50, 50⟩
    ∧ Set.image (Frame.turn ⟨10, 20, 100, 50, 50⟩) (Set.Icc ((10 : ℝ), (20 : ℝ)) (110, 70))
        = Set.Icc ((10 : ℝ), (-20 : ℝ)) (110, 30)
    ∧ Frame.view ⟨10, 20, 100, 50, 50⟩ = Set.Icc ((10 : ℝ), (20 : ℝ)) (110, 70)
    ∧ Set.Icc ((10 : ℝ), (-20 : ℝ)) (110, 30) ≠ Set.Icc ((10 : ℝ), (20 : ℝ)) (110, 70) := by
  refine ⟨?_, ?_, ?_, ?_⟩
  · apply hasFrame_document <;> decide +kernel
  · rw [Frame.image_turn]
    norm_num
  · norm_num [Frame.view]
  · intro same
    have moved := (Set.Icc_eq_Icc_iff (by norm_num)).mp same
    norm_num at moved

end VectorPage
