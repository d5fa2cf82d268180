/-
What a token adds to the shapes of the picture.

Shapes are only ever appended, and what is appended can be named beforehand: an
operator appends the paths that it paints (`painted`), or something in their
place, and a token that stands for no operator appends one remark at most.
So the shapes of a picture are a record of the run, token by token.
-/
import VectorPage.Proofs.Identifiers
import VectorPage.Proofs.Lookahead

set_option autoImplicit false

namespace VectorPage.Machine

/-! ## Operators -/

/-- The path under construction as it would be painted now, if it has a
segment. -/
def pathAs (m : Machine) (mode : PaintMode) : List Shape :=
  if m.path.isEmpty then [] else [.path m.path.data m.graphics mode none]

/-- **The paths that an operator paints**, given the tokens that follow it. -/
def painted (m : Machine) (s : TokenStream) : Operator → List Shape
  | .stroke => m.pathAs .lines
  | .fill => m.pathAs .areas
  -- a single line that is complete is painted at once
  | .lineTo =>
    if m.drawLine.path.isSingleLine && endsLine s then m.drawLine.pathAs .lines else []
  | .shadingFill =>
    match m.shading? with
    | some (some (_, outline)) =>
      [.path (.drawn outline) m.graphics .areas (some (m.freshId "grad").1)]
    | _ => []
  | _ => []

/-- What an operator puts in the place of something that it does not paint. -/
def substituted (m : Machine) : Operator → List Shape
  | .shadingFill =>
    match m.shading? with
    | some none => [.comment "shfill not fully implemented"]
    | _ => []
  | .image => [.comment "image/imagemask not implemented", .placeholder]
  | _ => []

/-- **The shapes that an operator adds.** -/
def added (m : Machine) (s : TokenStream) (op : Operator) : List Shape :=
  m.painted s op ++ m.substituted op

/-- Few operators put anything in the place of a path. -/
theorem added_eq_painted {m : Machine} {op : Operator} (paints : m.substituted op = [])
    (s : TokenStream) : m.added s op = m.painted s op := by
  rw [added, paints, List.append_nil]

/-- Painting adds the path under construction, and nothing if it is empty. -/
theorem paintPath_shapes (m : Machine) (mode : PaintMode) :
    (m.paintPath mode).picture.shapes.toList = m.picture.shapes.toList ++ m.pathAs mode := by
  rw [paintPath_eq, pathAs]
  dsimp only
  split
  · exact (List.append_nil _).symm
  · exact Array.toList_push

/-- A line adds itself if it is painted at once. -/
theorem lineTo_shapes (m : Machine) (s : TokenStream) :
    (m.lineTo s).picture.shapes.toList = m.picture.shapes.toList ++ m.added s .lineTo := by
  rw [lineTo_eq, added_eq_painted rfl, painted]
  split
  · exact paintPath_shapes m.drawLine .lines
  · exact (List.append_nil _).symm

/-- A shading adds the area that it paints, or the remark that stands for one it cannot
draw. -/
theorem shadingFill_shapes (m : Machine) (s : TokenStream) :
    m.shadingFill.picture.shapes.toList
      = m.picture.shapes.toList ++ m.added s .shadingFill := by
  rw [shadingFill_eq, added, painted, substituted]
  rcases m.shading? with _ | _ | ⟨gradient, outline⟩
  · exact (List.append_nil _).symm
  · exact Array.toList_push
  · exact Array.toList_push

/-- **An operator appends its shapes**, and changes no other. -/
theorem operate_shapes {m : Machine} (nested : m.ClipsNested) (s : TokenStream) (op : Operator) :
    (m.operate s op).picture.shapes.toList = m.picture.shapes.toList ++ m.added s op := by
  -- restoring and the idle operators add nothing; the rest go one by one
  by_cases restore : op = .restoreGraphics
  · subst restore
    rw [operate, (restoreGraphics_page nested).2.picture]
    exact (List.append_nil _).symm
  by_cases draws : op.draws = false
  · rw [(operate_idle m s draws restore).picture]
    cases op with
    | stroke | fill | lineTo | shadingFill | image => cases draws
    | _ => exact (List.append_nil _).symm
  cases op with
  | stroke =>
    rw [added_eq_painted rfl]
    exact paintPath_shapes m .lines
  | fill =>
    rw [added_eq_painted rfl]
    exact paintPath_shapes m .areas
  | lineTo => exact lineTo_shapes m s
  | shadingFill => exact shadingFill_shapes m s
  | image => simp [operate, showImage, remark, draw, Picture.remark, Picture.draw, added, painted,
      substituted]
  | clip =>
    simp only [operate, clip_eq]
    split <;> exact (List.append_nil _).symm
  | showText =>
    simp only [operate, showText_eq]
    split <;> exact (List.append_nil _).symm
  -- a pattern is made by the step, not by `operate`
  | makePattern => exact (List.append_nil _).symm
  | _ => exact absurd rfl draws

theorem isPath_of_pathAs {m : Machine} {mode : PaintMode} {shape : Shape}
    (here : shape ∈ m.pathAs mode) : shape.isPath = true := by
  rw [pathAs] at here
  split at here
  · cases here
  · rw [List.mem_singleton.mp here]
    rfl

/-- Everything painted is a path. -/
theorem isPath_of_painted {m : Machine} {s : TokenStream} {op : Operator} {shape : Shape}
    (here : shape ∈ m.painted s op) : shape.isPath = true := by
  cases op with
  | stroke => exact isPath_of_pathAs here
  | fill => exact isPath_of_pathAs here
  | lineTo =>
    rw [painted] at here
    split at here
    · exact isPath_of_pathAs here
    · cases here
  | shadingFill =>
    rw [painted] at here
    split at here
    · rw [List.mem_singleton.mp here]
      rfl
    · cases here
  | _ => cases here

/-- What stands in for something that is not drawn is no path. -/
theorem isPath_of_substituted {m : Machine} {op : Operator} {shape : Shape}
    (here : shape ∈ m.substituted op) : shape.isPath = false := by
  cases op with
  | shadingFill =>
    rw [substituted] at here
    split at here
    · rw [List.mem_singleton.mp here]
      rfl
    · cases here
  | image =>
    simp only [substituted, List.mem_cons, List.not_mem_nil, or_false] at here
    rcases here with rfl | rfl <;> rfl
  | _ => cases here

/-- **The paths among what an operator adds** are those that it paints. -/
theorem filter_isPath_added (m : Machine) (s : TokenStream) (op : Operator) :
    (m.added s op).filter Shape.isPath = m.painted s op := by
  rw [added, List.filter_append, List.filter_eq_self.mpr fun _ => isPath_of_painted,
    List.filter_eq_nil_iff.mpr fun shape here => by simp [isPath_of_substituted here],
    List.append_nil]

/-! ## Tokens -/

section Tokens

variable {limits : Limits} {level : Nat} {c c' : TokenStream × Machine}

/-- **A token that stands for an operator** appends what the operator adds. -/
theorem Step.shapes_of_operator {op : Operator} (step : Step limits level c c')
    (nested : c.2.ClipsNested) (stands : operatorAt? c = some op) :
    c'.2.picture.shapes.toList
      = c.2.picture.shapes.toList ++ c.2.added c.1.next.2 op := by
  by_cases pattern : op = .makePattern
  · subst pattern
    -- a tile is painted on a machine of its own: this picture gets a definition at most
    have same : c'.2.picture.shapes = c.2.picture.shapes := by
      cases step.effect with
      | operate op' rest stands' result =>
        obtain rfl : op' = .makePattern := Option.some.inj (stands'.symm.trans stands)
        rw [result]
        rfl
      | makePattern fuel _ made =>
        obtain ⟨ref, tile, hits, -, -, result⟩ | result := makePattern_cases made
        · rw [result]
          cases tile <;> rfl
        · rw [result]
          rfl
      | aside stands' _ => simp [stands] at stands'
    rw [same]
    exact (List.append_nil _).symm
  · rw [step.eq_operate stands pattern, operate_counted]
    exact operate_shapes nested c.1.next.2 op

/-- The remarks that name what could not be executed. -/
def nameRemarks (name : String) : List String :=
  ["Unhandled operator: " ++ name, "procedure expansion limit reached: " ++ name]

/-- The remark on a literal that was cut short. -/
def literalRemark : String :=
  "literal nesting limit reached"

/-- **The next token may make a remark.** -/
inductive Remarks (c : TokenStream × Machine) : String → Prop where
  | name {name message : String} (next : c.1.next.1 = some (.operator name))
      (names : message ∈ nameRemarks name) : Remarks c message
  | literal : Remarks c literalRemark

/-- **What becomes of the shapes** at a token that stands for no operator. -/
inductive RemarkedOn (c c' : TokenStream × Machine) : Prop where
  | silent (same : c'.2.picture.shapes = c.2.picture.shapes)
  | remark {message : String} (remarks : Remarks c message)
      (shapes : c'.2.picture.shapes = c.2.picture.shapes.push (.comment message))

/-- A literal leaves a remark if it was cut, and otherwise nothing. -/
theorem pushLiteral_shapes (kind : OpenLiteral) (s : TokenStream) :
    RemarkedOn c (c.2.counted.pushLiteral limits kind s) := by
  by_cases cut : (literalScanner.run (.start limits.literals kind) s).1.truncated = true
  · refine .remark .literal ?_
    simp only [pushLiteral, cut, if_true]
    rfl
  · refine .silent ?_
    simp only [pushLiteral, cut]
    rfl

/-- A name that is bound, or that nothing is known of. -/
theorem executeName_shapes {name : String} {rest : TokenStream}
    {paint : List Token → Option Machine} (next : c.1.next.1 = some (.operator name))
    (stands : operatorAt? c = none)
    (executed : c.2.counted.executeName limits level paint name rest = some c') :
    RemarkedOn c c' := by
  rw [operatorAt?, next, Option.bind_some, Token.operator?, Option.bind_some] at stands
  simp only [executeName, counted_lookup] at executed
  cases bound : c.2.lookup name with
  | some v =>
    simp only [bound] at executed
    cases v with
    -- a call that is refused is remarked on, and so is a name that nobody knows
    | procedure body =>
      rcases called : rest.call body limits.calls with ⟨accepted, rest'⟩
      simp only [callProcedure, called] at executed
      cases accepted with
      | true =>
        cases executed
        exact .silent rfl
      | false =>
        cases executed
        exact .remark (.name next (by simp [nameRemarks])) rfl
    | _ =>
      cases executed
      exact .silent rfl
  | none =>
    rw [bound, Option.isSome_none, if_neg Bool.false_ne_true] at stands
    simp only [bound, stands] at executed
    cases executed
    exact .remark (.name next (by simp [nameRemarks])) rfl

/-- **A token that stands for no operator** appends one remark at most. -/
theorem Step.shapes_of_other (step : Step limits level c c') (stands : operatorAt? c = none) :
    RemarkedOn c c' := by
  obtain ⟨token, rest, fuel, next, -, stepped⟩ := step
  cases token with
  | operator name => exact executeName_shapes (by rw [next]) stands stepped
  | openBracket =>
    cases stepped
    exact pushLiteral_shapes _ rest
  | openDict =>
    cases stepped
    exact pushLiteral_shapes _ rest
  | _ =>
    cases stepped
    exact .silent rfl

end Tokens

end VectorPage.Machine
