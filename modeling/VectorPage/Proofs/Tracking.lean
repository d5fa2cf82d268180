/-
The point of a machine and the end of its path.

A machine keeps its position twice: as the point reached, to which displacements
are added and from which a text begins, and in the commands of the path under
construction, which a reader of the page follows with a pen. Each operator that
builds a path changes both, and nearly always in the same way. There are two
exceptions. Closing a subpath takes the pen back to its start and leaves the
machine where it is. Painting a line at once begins new data, which the pen enters
at the origin, and again leaves the machine where it is.

So the point of a machine is read off the commands with a pen of its own, which
does not go back and begins where the line was that is painted already (`Tracks`).
The two pens agree from the first command on that is absolute, up to the next
close (`endPoint_of_isSettled`).
-/
import VectorPage.Proofs.Lookahead

set_option autoImplicit false

namespace VectorPage

/-! ## Pens -/

/-- **Where a command takes a pen**: to its own end if it is absolute, by its
displacement if it is relative, and nowhere if it closes a subpath. -/
def Segment.carry {α : Type} [Add α] (p : α × α) : Segment α → α × α
  | moveTo x y | lineTo x y | curveTo _ _ _ _ x y | arcTo _ _ _ _ _ x y => (x, y)
  | moveBy dx dy | lineBy dx dy | curveBy _ _ _ _ dx dy => (p.1 + dx, p.2 + dy)
  | close => p

/-- Where the pen of a reader stands, and where the subpath began that it draws. -/
structure Pen (α : Type := Float) where
  point : α × α
  start : α × α

/-- What a reader does at one command. A move begins a subpath, and a close goes
back to where the subpath began. -/
def Pen.draw {α : Type} [Add α] (pen : Pen α) (s : Segment α) : Pen α :=
  match s with
  | .moveTo _ _ | .moveBy _ _ => ⟨s.carry pen.point, s.carry pen.point⟩
  | .close => ⟨pen.start, pen.start⟩
  | _ => ⟨s.carry pen.point, pen.start⟩

/-- **The end of a path** for a reader of its commands, whose pen is at the origin
before any command. -/
def endPoint (segments : List Segment) : Point :=
  (segments.foldl Pen.draw ⟨(0, 0), (0, 0)⟩).point

/-- The end of a path for a pen that begins at a point and never goes back. -/
def carried (base : Point) (segments : List Segment) : Point :=
  segments.foldl Segment.carry base

/-- Whether the end is settled after a command, given whether it was before. -/
def Segment.settles (settled : Bool) : Segment → Bool
  | moveTo .. | lineTo .. | curveTo .. | arcTo .. => true
  | moveBy .. | lineBy .. | curveBy .. => settled
  | close => false

/-- **Whether the end of a path is settled**: some command is absolute, and no
subpath was closed since the last such command. -/
def isSettled (segments : List Segment) : Bool :=
  segments.foldl Segment.settles false

/-- Whether the data of a path begin with an absolute move. -/
def startsAbsolute : List Segment → Bool
  | .moveTo _ _ :: _ => true
  | _ => false

@[simp] theorem carried_append (base : Point) (segments : List Segment) (s : Segment) :
    carried base (segments ++ [s]) = s.carry (carried base segments) := by
  simp [carried]

/-- Whether the pen is where the path ends, after one more segment. -/
@[simp] theorem isSettled_append (segments : List Segment) (s : Segment) :
    isSettled (segments ++ [s]) = s.settles (isSettled segments) := by
  simp [isSettled]

theorem startsAbsolute_append {segments : List Segment} (h : startsAbsolute segments = true)
    (s : Segment) : startsAbsolute (segments ++ [s]) = true := by
  cases segments with
  | nil => cases h
  | cons first rest =>
    cases first with
    | moveTo => rfl
    | _ => cases h

/-- **Where the end is settled, all pens agree**, wherever they began. -/
theorem endPoint_of_isSettled {segments : List Segment} (h : isSettled segments = true)
    (base : Point) : endPoint segments = carried base segments := by
  induction segments using List.reverseRecOn with
  | nil => cases h
  | append_singleton segments s ih =>
    rw [isSettled_append] at h
    simp only [endPoint, List.foldl_append, List.foldl_cons, List.foldl_nil, carried_append]
    cases s with
    | close => cases h
    | moveBy | lineBy | curveBy =>
      -- both pens are displaced from where they met
      rw [← ih h]
      rfl
    | _ => rfl

/-! ## Programs that draw figures -/

/-- Whether a figure is begun after an operator, given whether one was before.
Only an absolute move begins a figure, and nothing else can be done before that
than to paint or to drop what is not there. -/
def Operator.figure? (begun : Bool) : Operator → Option Bool
  | moveTo => some true
  | moveBy | lineTo | lineBy | curveTo | curveBy | closePath => if begun then some true else none
  | newPath | stroke | fill => some false
  | _ => none

/-- **Programs that draw figures**: numbers and the operators that build, paint or
drop a path, in which every figure begins with an absolute move. -/
def drawsFigures (begun : Bool) : List Token → Bool
  | [] => true
  | .number _ :: rest => drawsFigures begun rest
  | .operator name :: rest =>
    match (Operator.ofName? name).bind (Operator.figure? begun) with
    | some begun => drawsFigures begun rest
    | none => false
  | _ => false

/-- The last thing painted is a single line to a point. -/
def Picture.EndsWithLineTo (p : Picture) (q : Point) : Prop :=
  ∃ x y look, p.shapes.back?
    = some (.path (.drawn [.moveTo x y, .lineTo q.1 q.2]) look .lines none)

namespace Machine

variable {limits : Limits} {level : Nat} {m m' : Machine} {begun begun' : Bool}
  {c c' : TokenStream × Machine}

/-- A number becomes an operand. -/
theorem Step.eq_push {text : String} (step : Step limits level c c')
    (next : c.1.next.1 = some (.number text)) :
    c' = (c.1.next.2, c.2.counted.push (.number (numeralValue text))) := by
  obtain ⟨token, rest, fuel, taken, -, stepped⟩ := step
  rw [taken] at next ⊢
  cases next
  cases stepped
  rfl

/-! ## One operator -/

/-- **The point follows the path.** Nothing is bound, coordinates are taken as
given, and before a figure is begun there is no path. After that the point is
where the commands carry a pen from some point; their data begin with an absolute
move, or else that point is the end of the line that was painted last. -/
structure Tracks (begun : Bool) (m : Machine) : Prop where
  unbound : ∀ name, m.lookup name = none
  plain : m.path.placement = .plain
  empty : begun = false → m.path.segments = #[]
  point : begun = true → ∃ base, m.point = carried base m.path.segments.toList
    ∧ (startsAbsolute m.path.segments.toList = true ∨ m.picture.EndsWithLineTo base)

theorem Tracks.initial : Tracks false initial :=
  ⟨fun _ => rfl, rfl, fun _ => rfl, Bool.noConfusion⟩

/-- Counting a token and taking an operand change none of this. -/
theorem Tracks.pushed (h : Tracks begun m) (v : Value) : Tracks begun (m.counted.push v) :=
  ⟨h.unbound, h.plain, h.empty, h.point⟩

theorem Tracks.counted (h : Tracks begun m) : Tracks begun m.counted :=
  ⟨h.unbound, h.plain, h.empty, h.point⟩

/-- A command is added to the path and the point goes along. -/
structure Adds (s : Segment) (m m' : Machine) : Prop where
  lookup : m'.lookup = m.lookup
  path : m'.path = m.path.push s
  point : m'.point = s.carry m.point
  picture : m'.picture = m.picture

/-- **The operators that build a path** add one segment and move the point as that
segment carries it. Lines and closing are treated apart: the first may be painted at
once, the second may add nothing. -/
theorem operate_adds (plain : m.path.placement = .plain) (stream : TokenStream) (op : Operator)
    (builds : op ∈ [Operator.moveTo, .moveBy, .lineBy, .curveTo, .curveBy]) :
    ∃ s, Adds s m (m.operate stream op) ∧ (op = .moveTo → startsAbsolute [s] = true)
      ∧ s.settles true = true := by
  simp only [List.mem_cons, List.not_mem_nil, or_false] at builds
  rcases builds with rfl | rfl | rfl | rfl | rfl
  all_goals
    simp only [operate, moveTo, moveBy, lineBy, curveTo, curveBy, popPoint_eq, build, reach,
      startText, displaced, Path.moveTo, Path.moveBy, Path.lineBy, Path.curveTo, Path.curveBy,
      plain, Placement.point, Placement.vector]
  · exact ⟨_, ⟨rfl, rfl, rfl, rfl⟩, fun _ => rfl, rfl⟩
  all_goals exact ⟨_, ⟨rfl, rfl, rfl, rfl⟩, Operator.noConfusion, rfl⟩

/-- A line adds itself, before it is painted or not. -/
theorem drawLine_adds (plain : m.path.placement = .plain) :
    Adds (.lineTo m.popPoint.1.1 m.popPoint.1.2) m m.drawLine := by
  simp only [drawLine, Path.lineTo, plain]
  exact ⟨rfl, rfl, rfl, rfl⟩

/-- **Adding a command** keeps the point on the path. The first command of a figure
has to be an absolute move. -/
theorem Tracks.adds {s : Segment} (h : Tracks begun m) (adds : Adds s m m')
    (first : begun = true ∨ startsAbsolute [s] = true) : Tracks true m' := by
  have segments : m'.path.segments.toList = m.path.segments.toList ++ [s] := by
    rw [adds.path, Path.push, Array.toList_push]
  refine ⟨fun name => by rw [adds.lookup, h.unbound], by rw [adds.path]; exact h.plain,
    Bool.noConfusion, fun _ => ?_⟩
  cases begun with
  | true =>
    obtain ⟨base, point, from'⟩ := h.point rfl
    refine ⟨base, by rw [adds.point, point, segments, carried_append], ?_⟩
    rw [segments, adds.picture]
    exact from'.imp_left fun absolute => startsAbsolute_append absolute s
  | false =>
    -- the command is the only one, and it does not matter where the pen was
    have absolute : startsAbsolute [s] = true := first.resolve_left Bool.false_ne_true
    refine ⟨m.point, ?_, .inl ?_⟩
    · rw [adds.point, segments, h.empty rfl]
      rfl
    · rw [segments, h.empty rfl]
      exact absolute

/-- **Dropping or painting the path** ends the figure. -/
theorem Tracks.ended (h : Tracks begun m) (lookup : m'.lookup = m.lookup)
    (path : m'.path = m.path.reset) : Tracks false m' :=
  ⟨fun name => by rw [lookup, h.unbound], by rw [path]; exact h.plain, fun _ => by rw [path]; rfl,
    Bool.noConfusion⟩

/-- After painting there is no path, and the next one has to begin with a move. -/
theorem Tracks.paintPath (h : Tracks begun m) (mode : PaintMode) :
    Tracks false (m.paintPath mode) := by
  refine h.ended (by rw [paintPath_eq]; rfl) ?_
  rw [paintPath_eq]
  by_cases empty : m.path.isEmpty = true
  · -- a path with no segment is as good as a new one
    have bare : m.path.segments = #[] := Array.isEmpty_iff.mp empty
    simp only [empty, if_true, Path.reset]
    rw [← bare]
  · simp only [empty, if_false, Bool.false_eq_true]

/-- **A line** keeps the point on the path, whether it is painted at once or not.
If it is, the point is where the line that is now the last thing painted ends. -/
theorem Tracks.lineTo (h : Tracks true m) (stream : TokenStream) :
    Tracks true (m.lineTo stream) := by
  have drawn : Tracks true m.drawLine := h.adds (drawLine_adds h.plain) (.inl rfl)
  rw [lineTo_eq]
  split
  · rename_i early
    obtain ⟨x, y, one⟩ := segments_of_isSingleLine (Bool.and_eq_true_iff.mp early).1
    have two : m.drawLine.path.segments
        = #[.moveTo x y, .lineTo m.drawLine.point.1 m.drawLine.point.2] := by
      rw [(drawLine_adds h.plain).path, Path.push, one]
      rfl
    have ended := drawn.paintPath .lines
    -- the path is gone, but the figure goes on: its pen begins where the line ends
    refine ⟨ended.unbound, ended.plain, Bool.noConfusion, fun _ => ⟨m.drawLine.point, ?_, .inr ?_⟩⟩
    · rw [ended.empty rfl, paintPath_eq]
      rfl
    · refine ⟨x, y, m.drawLine.graphics, ?_⟩
      simp [paintPath_eq, Path.isEmpty, Path.data, two, Picture.draw]
  · exact drawn

/-- Closing moves neither the point nor the pen that never goes back. -/
theorem Tracks.closePath (h : Tracks true m) : Tracks true m.closePath := by
  rw [closePath_eq]
  split
  · exact h
  · exact h.adds ⟨rfl, rfl, rfl, rfl⟩ (.inl rfl)

/-- **Every operator of a figure keeps the point on the path.** -/
theorem Tracks.operate (h : Tracks begun m) {op : Operator}
    (allowed : op.figure? begun = some begun') (stream : TokenStream) :
    Tracks begun' (m.operate stream op) := by
  cases op with
  | moveTo =>
    cases allowed
    obtain ⟨s, adds, absolute, -⟩ := operate_adds h.plain stream Operator.moveTo (by decide)
    exact h.adds adds (.inr (absolute rfl))
  -- these need a figure that has begun, and the point is where it has led
  | moveBy | lineBy | curveTo | curveBy =>
    cases begun <;> cases allowed
    refine (operate_adds h.plain stream _ ?_).elim fun s adds => h.adds adds.1 (.inl rfl)
    decide
  | lineTo =>
    cases begun <;> cases allowed
    exact h.lineTo stream
  | closePath =>
    cases begun <;> cases allowed
    exact h.closePath
  | newPath =>
    cases allowed
    exact h.ended rfl rfl
  | stroke | fill =>
    cases allowed
    exact h.paintPath _
  | _ => cases allowed

/-! ## Steps and runs -/

/-- The rest of the program draws figures, and the point follows the path. -/
def Figures (begun : Bool) (c : TokenStream × Machine) : Prop :=
  drawsFigures begun c.1.unread = true ∧ Tracks begun c.2

/-- **One token** of a program that draws figures. -/
theorem Figures.step (h : Figures begun c) (step : Step limits level c c') :
    ∃ begun', Figures begun' c' := by
  obtain ⟨draws, tracks⟩ := h
  obtain ⟨token, rest, unread, next⟩ := step.exists_token
  have left : c.1.next.2.unread = rest := by rw [c.1.next_of_unread.2, unread, List.tail_cons]
  rw [unread] at draws
  cases token with
  | number text =>
    rw [step.eq_push next]
    exact ⟨begun, by rwa [left], tracks.pushed _⟩
  | operator name =>
    cases named : Operator.ofName? name with
    | none => simp [drawsFigures, named] at draws
    | some op =>
      cases allowed : op.figure? begun with
      | none => simp [drawsFigures, named, allowed] at draws
      | some begun' =>
        simp only [drawsFigures, named, Option.bind_some, allowed] at draws
        have stands : operatorAt? c = some op := by
          simp [operatorAt?, next, Token.operator?, tracks.unbound, named]
        have other : op ≠ .makePattern := by
          rintro rfl
          cases allowed
        rw [step.eq_operate stands other]
        exact ⟨begun', by rwa [left], tracks.counted.operate allowed _⟩
  | _ => cases draws

/-- **Every run** of a program that draws figures. -/
theorem Figures.steps (h : Figures begun c) (steps : Steps limits level c c') :
    ∃ begun', Figures begun' c' := by
  induction steps with
  | refl => exact ⟨begun, h⟩
  | tail _ last ih =>
    obtain ⟨between, figures⟩ := ih
    exact figures.step last

/-- A program that draws figures does so from its first token on. -/
theorem Figures.of_program {program : List Token} (draws : drawsFigures false program = true) :
    Figures false (.ofTokens program, initial) :=
  ⟨draws, .initial⟩

/-- Where there is a path, a figure is begun. -/
theorem Tracks.of_drawn (h : Tracks begun m) (drawn : m.path.isEmpty = false) : Tracks true m := by
  cases begun with
  | true => exact h
  | false =>
    rw [Path.isEmpty, h.empty rfl] at drawn
    cases drawn

/-- Where the end of the path is settled, the point is at it. -/
theorem Tracks.eq_endPoint (h : Tracks true m) (settled : isSettled m.path.segments.toList = true) :
    m.point = endPoint m.path.segments.toList := by
  obtain ⟨base, point, -⟩ := h.point rfl
  rw [point, endPoint_of_isSettled settled base]

/-- **A move by a displacement** leaves a settled end settled, and a text begins
there. -/
theorem Tracks.moveBy (h : Tracks true m) (settled : isSettled m.path.segments.toList = true) :
    m.moveBy.graphics.textPosition = some (endPoint m.moveBy.path.segments.toList) := by
  obtain ⟨s, adds, -, settles⟩ := operate_adds h.plain (.ofTokens []) .moveBy (by decide)
  have moved : Tracks true m.moveBy := h.adds adds (.inl rfl)
  have still : isSettled m.moveBy.path.segments.toList = true := by
    rw [show m.moveBy.path = m.path.push s from adds.path, Path.push, Array.toList_push,
      isSettled_append, settled, settles]
  rw [← moved.eq_endPoint still]
  rfl

/-- **The point of a machine follows its path** up to a close, and from a line that
was painted at once. Let a program draw figures, and stop after any of its tokens at
which there is a path. If the end of that path is settled, the point of the machine
is that end, and a move by a displacement that comes next begins a text at the end
that the path then has. In any case the point is where the commands carry a pen that
does not go back to the start of a subpath; and this pen begins at the end of the
line that was painted last, unless the path begins with an absolute move and it does
not matter where. -/
theorem point_follows_path {program : List Token} (draws : drawsFigures false program = true)
    (steps : Steps limits level (.ofTokens program, initial) c)
    (drawn : c.2.path.isEmpty = false) :
    (isSettled c.2.path.segments.toList = true →
      c.2.point = endPoint c.2.path.segments.toList
      ∧ ∀ c', operatorAt? c = some .moveBy → Step limits level c c' →
          c'.2.graphics.textPosition = some (endPoint c'.2.path.segments.toList))
    ∧ ∃ base, c.2.point = carried base c.2.path.segments.toList
        ∧ (startsAbsolute c.2.path.segments.toList = true ∨ c.2.picture.EndsWithLineTo base) := by
  obtain ⟨begun, -, tracks⟩ := (Figures.of_program draws).steps steps
  have tracks : Tracks true c.2 := tracks.of_drawn drawn
  refine ⟨fun settled => ⟨tracks.eq_endPoint settled, ?_⟩, tracks.point rfl⟩
  intro c' moves step
  rw [step.eq_operate moves nofun]
  exact tracks.counted.moveBy settled

/-! Programs on which the two positions can be compared. -/

/-- A run of so many tokens, and what is seen at its end. -/
theorem Steps.of_advance_map {α : Type} {n : Nat} {f : TokenStream × Machine → α} {a : α}
    (h : (advance limits level n c).map f = some a) : ∃ c', Steps limits level c c' ∧ f c' = a := by
  obtain ⟨c', advanced, seen⟩ := Option.map_eq_some_iff.mp h
  exact ⟨c', .of_advance advanced, seen⟩

/-- A line that is painted at once, a subpath that begins at its end and is closed,
and another one that ends with a displacement. -/
def lineAndFigure : List Token :=
  [.number "1", .number "2", .operator "moveto", .number "5", .number "5", .operator "lineto",
    .number "3", .number "4", .operator "rmoveto", .operator "closepath",
    .number "7", .number "8", .operator "lineto", .number "1", .number "1", .operator "rlineto",
    .number "2", .number "2", .operator "rmoveto"]

theorem point_follows_path_after_close :
    drawsFigures false lineAndFigure = true
    ∧ ∃ c, Steps {} 0 (.ofTokens lineAndFigure, initial) c ∧ c.2.path.isEmpty = false
      ∧ isSettled c.2.path.segments.toList = true ∧ operatorAt? c = some .moveBy
      ∧ endPoint c.2.path.segments.toList = (8, 9)
      ∧ ∀ c', Step {} 0 c c' →
          c'.2.graphics.textPosition = some (endPoint c'.2.path.segments.toList) := by
  have draws : drawsFigures false lineAndFigure = true := by decide
  have run : (advance {} 0 18 (.ofTokens lineAndFigure, initial)).map (fun c =>
      (c.2.path.isEmpty, isSettled c.2.path.segments.toList, operatorAt? c, c.2.point))
      = some (false, true, some .moveBy, (8, 9)) := by decide +kernel
  obtain ⟨c, steps, seen⟩ := Steps.of_advance_map run
  obtain ⟨drawn, seen⟩ := Prod.mk.inj seen
  obtain ⟨settled, seen⟩ := Prod.mk.inj seen
  obtain ⟨moves, point⟩ := Prod.mk.inj seen
  obtain ⟨same, text⟩ := (point_follows_path draws steps drawn).1 settled
  exact ⟨draws, c, steps, drawn, settled, moves, same.symm.trans point, fun c' => text c' moves⟩

/-- A figure that is closed at its start. -/
def closedFigure : List Token :=
  [.number "0", .number "0", .operator "moveto", .number "10", .number "0", .operator "lineto",
    .number "10", .number "10", .operator "lineto", .operator "closepath"]

/-- A line that is painted at once, and a move on from its end. -/
def lineAndMove : List Token :=
  [.number "1", .number "2", .operator "moveto", .number "5", .number "5", .operator "lineto",
    .number "3", .number "3", .operator "rmoveto"]

/-- **The point of a machine may be off its path.** After a close the path ends at
the start of the figure, and the point stays at the last corner; so a text that is
moved by `5 5` from there begins at `15 15`, while the path goes on to `5 5`. After a
line that was painted at once, a move by a displacement is the first command of new
data, in which it leads away from the origin. -/
theorem point_leaves_path :
    (drawsFigures false closedFigure = true
      ∧ ∃ c, Steps {} 0 (.ofTokens closedFigure, initial) c ∧ c.2.path.isEmpty = false
        ∧ c.2.point = (10, 10) ∧ endPoint c.2.path.segments.toList = (0, 0))
    ∧ (initial.run {} 16 (closedFigure ++ [.number "5", .number "5", .operator "rmoveto",
          .string "x", .operator "show"])).map
          (fun m => m.picture.texts.toList.map fun text => (text.x, text.y)) = some [(15, 15)]
    ∧ drawsFigures false lineAndMove = true
    ∧ ∃ c, Steps {} 0 (.ofTokens lineAndMove, initial) c ∧ c.2.path.isEmpty = false
        ∧ c.2.point = (8, 8) ∧ endPoint c.2.path.segments.toList = (3, 3) := by
  have closed : (advance {} 0 10 (.ofTokens closedFigure, initial)).map (fun c =>
      (c.2.path.isEmpty, c.2.point, endPoint c.2.path.segments.toList))
      = some (false, (10, 10), (0, 0)) := by decide +kernel
  have moved : (advance {} 0 9 (.ofTokens lineAndMove, initial)).map (fun c =>
      (c.2.path.isEmpty, c.2.point, endPoint c.2.path.segments.toList))
      = some (false, (8, 8), (3, 3)) := by decide +kernel
  obtain ⟨c₁, steps₁, seen₁⟩ := Steps.of_advance_map closed
  obtain ⟨c₂, steps₂, seen₂⟩ := Steps.of_advance_map moved
  obtain ⟨drawn₁, seen₁⟩ := Prod.mk.inj seen₁
  obtain ⟨drawn₂, seen₂⟩ := Prod.mk.inj seen₂
  exact ⟨⟨by decide, c₁, steps₁, drawn₁, Prod.mk.inj seen₁⟩, by decide +kernel, by decide, c₂,
    steps₂, drawn₂, Prod.mk.inj seen₂⟩

end Machine

end VectorPage
