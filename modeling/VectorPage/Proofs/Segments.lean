/-
No segment of a path is lost, and none is shown twice.

Segments are appended to the path under construction and wait there until the
path is painted or becomes a clip. Six operators empty the path, one of them
after a look at the tokens ahead, and the end of a run empties it once more. So
the account is kept by the step: what a step appends, what it strikes out
without showing it, and what it adds to the picture (`Balance`). What was
appended and not struck out is then, at every moment, what the picture has been
given, in the order in which it was given, followed by the path under
construction; and at the end of a run there is no such path.
-/
import VectorPage.Proofs.Identifiers

set_option autoImplicit false

namespace VectorPage

/-! ## What a picture shows -/

/-- The segments that were drawn. -/
def PathData.segments : PathData → List Segment
  | drawn segments => segments
  | verbatim _ => []

/-- The segments of a path under construction that a shape shows. The outline
of a shading never was one. -/
def Shape.segments : Shape → List Segment
  | path data _ _ none => data.segments
  | path _ _ _ (some _) | comment _ | placeholder => []

/-- The segments of a path under construction that a definition shows. -/
def Definition.segments : Definition → List Segment
  | clipPath _ data => data.segments
  | linearGradient .. | radialGradient .. | pattern .. => []

theorem Definition.segments_of_isGradient {d : Definition} (h : d.isGradient = true) :
    d.segments = [] :=
  gradient_cases h (fun _ _ _ _ _ _ _ => rfl) fun _ _ _ => rfl

namespace Picture

/-- The segments of all clips and paths of a picture. -/
def segments (p : Picture) : List Segment :=
  p.definitions.toList.flatMap Definition.segments ++ p.shapes.toList.flatMap Shape.segments

/-- **The segments of the clips and paths that were added** to an earlier
picture. -/
def segmentsSince (p earlier : Picture) : List Segment :=
  (p.definitions.toList.drop earlier.definitions.size).flatMap Definition.segments
    ++ (p.shapes.toList.drop earlier.shapes.size).flatMap Shape.segments

/-- The picture goes on from an earlier one. -/
structure Extends (p earlier : Picture) : Prop where
  definitions : earlier.definitions.toList <+: p.definitions.toList
  shapes : earlier.shapes.toList <+: p.shapes.toList

/-- What has come in since is what was appended: pictures only grow. -/
theorem segmentsSince_of_append {p earlier : Picture} {definitions : List Definition}
    {shapes : List Shape}
    (defined : p.definitions.toList = earlier.definitions.toList ++ definitions)
    (drawn : p.shapes.toList = earlier.shapes.toList ++ shapes) :
    p.segmentsSince earlier
      = definitions.flatMap Definition.segments ++ shapes.flatMap Shape.segments := by
  rw [segmentsSince, defined, drawn, ← Array.length_toList, ← Array.length_toList,
    List.drop_left, List.drop_left]

@[simp] theorem segmentsSince_self (p : Picture) : p.segmentsSince p = [] :=
  segmentsSince_of_append (List.append_nil _).symm (List.append_nil _).symm

@[simp] theorem segmentsSince_draw (p : Picture) (s : Shape) :
    (p.draw s).segmentsSince p = s.segments := by
  have defined : (p.draw s).definitions.toList = p.definitions.toList ++ [] :=
    (List.append_nil _).symm
  have drawn : (p.draw s).shapes.toList = p.shapes.toList ++ [s] := Array.toList_push
  rw [segmentsSince_of_append defined drawn, List.flatMap_nil, List.flatMap_singleton,
    List.nil_append]

/-- A definition brings in the outline of a clip; gradients and patterns have no
segments of their own. -/
@[simp] theorem segmentsSince_define (p : Picture) (d : Definition) :
    (p.define d).segmentsSince p = d.segments := by
  have defined : (p.define d).definitions.toList = p.definitions.toList ++ [d] :=
    Array.toList_push
  have drawn : (p.define d).shapes.toList = p.shapes.toList ++ [] := (List.append_nil _).symm
  rw [segmentsSince_of_append defined drawn, List.flatMap_nil, List.flatMap_singleton,
    List.append_nil]

theorem Extends.trans {p later earlier : Picture} (h : later.Extends p) (h' : p.Extends earlier) :
    later.Extends earlier :=
  ⟨h'.definitions.trans h.definitions, h'.shapes.trans h.shapes⟩

/-- What a picture shows is what the earlier one showed and what was added. -/
theorem Extends.perm {p earlier : Picture} (h : p.Extends earlier) :
    p.segments.Perm (earlier.segments ++ p.segmentsSince earlier) := by
  obtain ⟨⟨definitions, defined⟩, shapes, drawn⟩ := h
  rw [segmentsSince_of_append defined.symm drawn.symm, segments, segments, ← defined, ← drawn,
    List.flatMap_append, List.flatMap_append]
  simp only [List.append_assoc]
  refine .append_left _ ?_
  -- the new definitions change places with the old shapes
  simp only [← List.append_assoc]
  exact .append_right _ List.perm_append_comm

end Picture

/-! ## What operators append and strike out -/

namespace Machine

/-- The move to a given point at the end of a path. -/
def lastMoveTo (path : Path) (p : Point) : List Segment :=
  match path.last? with
  | some (.moveTo x y) => if isClose x p.1 && isClose y p.2 then [.moveTo x y] else []
  | _ => []

/-- An arc takes back the move in front of it, if that move goes to its centre;
otherwise nothing is taken back. -/
theorem withoutMoveTo_segments (path : Path) (p : Point) :
    path.segments.toList = (withoutMoveTo path p).segments.toList ++ lastMoveTo path p := by
  unfold withoutMoveTo lastMoveTo
  cases last : path.last? with
  | none => exact (List.append_nil _).symm
  | some segment =>
    cases segment with
    | moveTo x y =>
      dsimp only
      split
      · rw [Path.last?, ← Array.getLast?_toList] at last
        rw [Path.dropLast, Array.toList_pop, List.dropLast_append_getLast? _ last]
      · exact (List.append_nil _).symm
    | _ => exact (List.append_nil _).symm

/-- What is taken back is a segment, so a fresh path is the same with it and without. -/
theorem withoutMoveTo_reset (path : Path) (p : Point) :
    (withoutMoveTo path p).reset = path.reset := by
  unfold withoutMoveTo
  split
  · split <;> rfl
  · rfl

/-- What an arc adds does not depend on the segments that are there. -/
theorem withArc_segments (path : Path) (rx ry : Float) (pointAt : Float → Point)
    (angle₁ angle₂ : Float) :
    (withArc path rx ry pointAt angle₁ angle₂).segments.toList = path.segments.toList
      ++ (withArc path.reset rx ry pointAt angle₁ angle₂).segments.toList := by
  unfold withArc
  split <;> simp [Path.moveTo, Path.arcTo, Path.close, Path.push, Path.reset]

/-- The centre, the radius and the two angles that an arc takes. -/
def arcOperands (m : Machine) : Point × Float × Float × Float :=
  let (angle₂, m) := m.popNumber 0
  let (angle₁, m) := m.popNumber 0
  let (r, m) := m.popNumber 0
  (m.popPoint.1, r, angle₁, angle₂)

/-- The centre of an arc, where the path places it. -/
def arcCentre (m : Machine) : Point :=
  m.path.placement.point m.arcOperands.1.1 m.arcOperands.1.2

/-- A path with the arc added. -/
def arcOn (m : Machine) (path : Path) : Path :=
  let ((x, y), r, angle₁, angle₂) := m.arcOperands
  let (rx, ry) := arcRadii m.graphics r
  withArc path rx ry (circlePoint x y r) angle₁ angle₂

/-- The path of an arc is built on the path without the move to its centre. -/
theorem arc_path (m : Machine) : m.arc.path = m.arcOn (withoutMoveTo m.path m.arcCentre) := by
  simp only [arc, arcOn, arcCentre, arcOperands, popNumber_eq, popPoint_eq]
  rfl

/-- **The segments that an operator appends** to the path. -/
def appended (m : Machine) : Operator → List Segment
  | .moveTo =>
    let p := m.popPoint.1
    let (x, y) := m.path.placement.point p.1 p.2
    [.moveTo x y]
  | .moveBy =>
    let d := m.popPoint.1
    let (dx, dy) := m.path.placement.vector d.1 d.2
    [.moveBy dx dy]
  | .lineTo =>
    let p := m.popPoint.1
    let (x, y) := m.path.placement.point p.1 p.2
    [.lineTo x y]
  | .lineBy =>
    let d := m.popPoint.1
    let (dx, dy) := m.path.placement.vector d.1 d.2
    [.lineBy dx dy]
  | .curveTo =>
    let (p, m₁) := m.popPoint
    let (p₂, m₂) := m₁.popPoint
    let p₁ := m₂.popPoint.1
    let (x₁, y₁) := m.path.placement.point p₁.1 p₁.2
    let (x₂, y₂) := m.path.placement.point p₂.1 p₂.2
    let (x, y) := m.path.placement.point p.1 p.2
    [.curveTo x₁ y₁ x₂ y₂ x y]
  | .curveBy =>
    let (d, m₁) := m.popPoint
    let (d₂, m₂) := m₁.popPoint
    let d₁ := m₂.popPoint.1
    let (dx₁, dy₁) := m.path.placement.vector d₁.1 d₁.2
    let (dx₂, dy₂) := m.path.placement.vector d₂.1 d₂.2
    let (dx, dy) := m.path.placement.vector d.1 d.2
    [.curveBy dx₁ dy₁ dx₂ dy₂ dx dy]
  | .closePath => if m.path.isEmpty || m.path.isClosed then [] else [.close]
  -- an arc is the same whatever path it is added to
  | .arc => (m.arcOn m.path.reset).segments.toList
  | _ => []

/-- **The segments that an operator strikes out** without showing them: the
whole path, or the move to the centre of an arc. -/
def struck (m : Machine) : Operator → List Segment
  | .newPath | .showText => m.path.segments.toList
  | .shadingFill =>
    match m.shading? with
    | some (some _) => m.path.segments.toList
    | _ => []
  | .arc => lastMoveTo m.path m.arcCentre
  | _ => []

/-- **The account of one move**: segments are struck off the end of the path
and others appended, and what is then there has been added to the picture or is
still the path. -/
def Balance (m m' : Machine) (struck appended : List Segment) : Prop :=
  ∃ front, m.path.segments.toList = front ++ struck
    ∧ m'.picture.segmentsSince m.picture ++ m'.path.segments.toList = front ++ appended

/-! ## One step -/

section Operators

variable {m m' : Machine} {added : List Segment}

/-- Segments that are appended to the path while the picture stays are on the books. -/
theorem Balance.of_append (picture : m'.picture.segmentsSince m.picture = [])
    (path : m'.path.segments.toList = m.path.segments.toList ++ added) : Balance m m' [] added :=
  ⟨m.path.segments.toList, (List.append_nil _).symm, by rw [picture, List.nil_append, path]⟩

/-- Nothing happens to the path, and no path is added to the picture. -/
theorem Balance.of_same (picture : m'.picture.segmentsSince m.picture = [])
    (path : m'.path.segments = m.path.segments) : Balance m m' [] [] :=
  .of_append picture (by rw [path, List.append_nil])

/-- The path is dropped, and no path is added to the picture. -/
theorem Balance.of_drop (picture : m'.picture.segmentsSince m.picture = [])
    (path : m'.path.segments = #[]) : Balance m m' m.path.segments.toList [] :=
  ⟨[], rfl, by rw [picture, path]⟩

/-- The path as it stands is added to the picture. -/
theorem Balance.of_shown (picture : m'.picture.segmentsSince m.picture = m.path.segments.toList)
    (path : m'.path.segments = #[]) : Balance m m' [] [] :=
  ⟨m.path.segments.toList, (List.append_nil _).symm, by rw [picture, path]⟩

/-- What is appended may be shown at once. -/
theorem Balance.trans {m₁ : Machine} (first : Balance m m₁ [] added) (same : m₁.picture = m.picture)
    (next : Balance m₁ m' [] []) : Balance m m' [] added := by
  obtain ⟨front, before, drawn⟩ := first
  obtain ⟨front', between, shown⟩ := next
  rw [same, Picture.segmentsSince_self, List.nil_append] at drawn
  refine ⟨front, before, ?_⟩
  rw [← same, shown, ← between, drawn]

/-- **Painting moves segments from the path to the picture**: none is struck and none is
new. -/
theorem paintPath_balance (m : Machine) (mode : PaintMode) :
    Balance m (m.paintPath mode) [] [] := by
  by_cases empty : m.path.isEmpty
  · rw [paintPath, if_pos empty]
    exact .of_same (Picture.segmentsSince_self _) rfl
  · rw [paintPath, if_neg empty]
    exact .of_shown (Picture.segmentsSince_draw _ _) rfl

/-- A line adds itself, and is on the page or in the path afterwards. -/
theorem lineTo_balance (m : Machine) (s : TokenStream) :
    Balance m (m.lineTo s) [] (m.appended .lineTo) := by
  have drawn : Balance m m.drawLine [] (m.appended .lineTo) :=
    .of_append (Picture.segmentsSince_self _) Array.toList_push
  rw [lineTo_eq]
  split
  -- a single line that is complete is appended and shown in one step
  · exact drawn.trans rfl (paintPath_balance m.drawLine .lines)
  · exact drawn

/-- Closing adds one mark, or nothing. -/
theorem closePath_balance (m : Machine) : Balance m m.closePath [] (m.appended .closePath) := by
  unfold closePath appended
  split
  · exact .of_same (Picture.segmentsSince_self _) rfl
  · exact .of_append (Picture.segmentsSince_self _) Array.toList_push

/-- What an arc adds to a path is what it adds to a fresh one. -/
theorem arcOn_segments (m : Machine) (path : Path) :
    (m.arcOn path).segments.toList
      = path.segments.toList ++ (m.arcOn path.reset).segments.toList :=
  withArc_segments path _ _ _ _ _

/-- An arc strikes the move to its centre and adds its own segments. -/
theorem arc_balance (m : Machine) : Balance m m.arc (m.struck .arc) (m.appended .arc) := by
  have idle : SamePicture m (m.operate (.ofTokens []) .arc) := operate_idle m _ rfl (by decide)
  have picture : m.arc.picture = m.picture := idle.picture
  refine ⟨(withoutMoveTo m.path m.arcCentre).segments.toList, withoutMoveTo_segments _ _, ?_⟩
  rw [picture, Picture.segmentsSince_self, List.nil_append, arc_path, arcOn_segments,
    withoutMoveTo_reset, appended]

/-- A clip moves the segments of the path to a definition. -/
theorem clip_balance (m : Machine) : Balance m m.clip [] [] := by
  rw [clip_eq]
  split
  · exact .of_same (Picture.segmentsSince_self _) rfl
  · exact .of_shown (Picture.segmentsSince_define _ _) rfl

/-- A shading that is drawn strikes out the path under construction. The outline that it
paints was never part of that path. -/
theorem shadingFill_balance (m : Machine) : Balance m m.shadingFill (m.struck .shadingFill) [] := by
  rw [shadingFill_eq, struck]
  rcases drawn : m.shading? with _ | _ | ⟨gradient, outline⟩
  · exact .of_same (Picture.segmentsSince_self _) rfl
  · exact .of_same (Picture.segmentsSince_draw _ _) rfl
  · refine .of_drop ?_ rfl
    obtain ⟨-, kind⟩ := gradient_of_shading drawn
    rw [Picture.segmentsSince_of_append Array.toList_push Array.toList_push,
      List.flatMap_singleton, List.flatMap_singleton, Definition.segments_of_isGradient kind]
    rfl

/-- A text drops the path, and all its segments are struck. -/
theorem showText_balance (m : Machine) :
    Balance m m.showText m.path.segments.toList [] := by
  rw [showText_eq]
  refine .of_drop ?_ rfl
  dsimp only
  split
  · exact Picture.segmentsSince_self _
  · exact Picture.segmentsSince_self _

/-- Restoring a state leaves path and picture alone, as clips are nested. -/
theorem restoreGraphics_balance (nested : m.ClipsNested) : Balance m m.restoreGraphics [] [] := by
  have picture : m.restoreGraphics.picture = m.picture := (restoreGraphics_page nested).2.picture
  refine .of_same (by rw [picture, Picture.segmentsSince_self]) ?_
  rcases saved : m.saved with _ | ⟨g, rest⟩
  · rw [restoreGraphics, saved]
  · rw [restoreGraphics_of_le saved (nested.length_le saved)]
    rfl

theorem showImage_balance (m : Machine) : Balance m m.showImage [] [] := by
  have definitions : m.showImage.picture.definitions.toList
      = m.picture.definitions.toList ++ [] := (List.append_nil _).symm
  have shapes : m.showImage.picture.shapes.toList = m.picture.shapes.toList
      ++ [.comment "image/imagemask not implemented", .placeholder] := by
    simp [showImage, remark, draw, Picture.remark, Picture.draw]
  refine .of_same ?_ rfl
  rw [Picture.segmentsSince_of_append definitions shapes]
  rfl

/-- **Every operator keeps the account.** -/
theorem operate_balance (nested : m.ClipsNested) (s : TokenStream) (op : Operator) :
    Balance m (m.operate s op) (m.struck op) (m.appended op) := by
  cases op with
  | moveTo | moveBy | lineBy | curveTo | curveBy =>
    simp only [operate, moveTo, moveBy, lineBy, curveTo, curveBy, appended, popPoint_eq]
    exact .of_append (Picture.segmentsSince_self _) Array.toList_push
  | lineTo => exact lineTo_balance m s
  | closePath => exact closePath_balance m
  | arc => exact arc_balance m
  | stroke => exact paintPath_balance m .lines
  | fill => exact paintPath_balance m .areas
  | clip => exact clip_balance m
  | shadingFill => exact shadingFill_balance m
  | newPath => exact .of_drop (Picture.segmentsSince_self _) rfl
  | showText => exact showText_balance m
  | restoreGraphics => exact restoreGraphics_balance nested
  | image => exact showImage_balance m
  | _ =>
    simp only [operate, negate, combine, exchange_eq, duplicate_eq, newDict, beginDict_eq, endDict,
      bindName_eq, saveGraphics, translate, scale, rotate, setLineWidth, setLineCap_eq,
      setLineJoin_eq, setDash, setRgbColor, setGray, setCmykColor, setPattern_eq, findFont,
      scaleFont, setFont_eq, pop_eq, popNumber_eq, popDisplay_eq]
    exact .of_same (Picture.segmentsSince_self _) rfl

end Operators

/-- The segments that the next token strikes out. -/
def struckAt (c : TokenStream × Machine) : List Segment :=
  ((operatorAt? c).map c.2.struck).getD []

/-- The segments that the next token appends. -/
def appendedAt (c : TokenStream × Machine) : List Segment :=
  ((operatorAt? c).map c.2.appended).getD []

section Steps

variable {limits : Limits} {level : Nat}

/-- Tokens that stand for no operator have no segments to book. -/
theorem Aside.balance {m m' : Machine} (aside : Aside limits m m') : Balance m m' [] [] := by
  cases aside with
  | nothing same =>
    subst same
    exact .of_same (Picture.segmentsSince_self _) rfl
  | operand v _ pushed =>
    subst pushed
    exact .of_same (Picture.segmentsSince_self _) rfl
  | bound name v _ pushed =>
    subst pushed
    exact .of_same (Picture.segmentsSince_self _) rfl
  | literal kind s pushed =>
    subst pushed
    simp only [pushLiteral]
    split
    · exact .of_same (Picture.segmentsSince_draw _ _) rfl
    · exact .of_same (Picture.segmentsSince_self _) rfl
  | unknown message remarked =>
    subst remarked
    exact .of_same (Picture.segmentsSince_draw _ _) rfl
  | refused message hit remarked =>
    subst remarked
    exact .of_same (Picture.segmentsSince_draw _ _) rfl

/-- **Every token keeps the account.** -/
theorem Step.balance {c c' : TokenStream × Machine} (step : Step limits level c c')
    (nested : c.2.ClipsNested) : Balance c.2 c'.2 (struckAt c) (appendedAt c) := by
  cases step.effect with
  | operate op rest stands result =>
    rw [struckAt, appendedAt, stands, result, operate_counted]
    exact operate_balance nested rest op
  | makePattern fuel stands made =>
    rw [struckAt, appendedAt, stands]
    obtain ⟨ref, tile, hits, -, -, result⟩ | result := makePattern_cases made
    · rw [result]
      cases tile with
      | none => exact .of_same (Picture.segmentsSince_self _) rfl
      | some tile => exact .of_same (Picture.segmentsSince_define _ _) rfl
    · rw [result]
      exact .of_same (Picture.segmentsSince_self _) rfl
  | aside stands result =>
    rw [struckAt, appendedAt, stands]
    exact result.balance

end Steps

/-! ## Ledgers -/

/-- **A ledger of segments**, both columns in the order of execution: those
appended and not struck out since, and those of the paths and clips that came
into the picture. -/
structure Ledger where
  kept : List Segment := []
  shown : List Segment := []

/-- **The ledger of a run so far.** A step strikes its segments off the end of
those kept and enters what it appends; what it adds to the picture is shown. -/
inductive Booked (limits : Limits) (level : Nat) (program : List Token) :
    TokenStream × Machine → Ledger → Prop where
  | start : Booked limits level program (.ofTokens program, initial) {}
  | step {c c' : TokenStream × Machine} {front shown : List Segment} :
      Booked limits level program c ⟨front ++ struckAt c, shown⟩ → Step limits level c c' →
      Booked limits level program c'
        ⟨front ++ appendedAt c, shown ++ c'.2.picture.segmentsSince c.2.picture⟩

/-- The execution of a stream halts: it has used up its tokens, or it may not
execute the next one. -/
def Halts (limits : Limits) (c : TokenStream × Machine) (stopped : Machine) : Prop :=
  c.1.next.1 = none ∧ stopped = c.2 ∨ c.2.isSpent limits = true ∧ stopped = c.2.stopAtLimit

/-- **The ledger of a whole run**, with what its end adds to the picture. -/
def BookedAll (limits : Limits) (level : Nat) (program : List Token) (m : Machine)
    (ledger : Ledger) : Prop :=
  ∃ c stopped shown, Booked limits level program c ⟨ledger.kept, shown⟩
    ∧ Halts limits c stopped ∧ m = stopped.finish
    ∧ ledger.shown = shown ++ m.picture.segmentsSince c.2.picture

section Runs

variable {limits : Limits} {level : Nat} {program : List Token} {c : TokenStream × Machine}
  {ledger : Ledger} {m : Machine}

/-- The books are kept of runs, so what they are about is reachable. -/
theorem Booked.reachable (h : Booked limits level program c ledger) :
    Reachable limits level c.2 := by
  have steps : Steps limits level (.ofTokens program, initial) c := by
    induction h with
    | start => exact .refl
    | step _ last ih => exact ih.tail last
  exact ⟨initial, program, c.1, .fresh, steps⟩

/-- **The books balance**: what is kept has been shown or is the path under
construction. -/
theorem Booked.balance (h : Booked limits level program c ledger) :
    ledger.kept = ledger.shown ++ c.2.path.segments.toList := by
  induction h with
  | start => rfl
  | @step c c' front shown before step ih =>
    obtain ⟨front', path, account⟩ := step.balance before.reachable.clipsNested
    -- what is struck off the ledger is the end of the path
    have kept : front = shown ++ front' := by
      rw [path, ← List.append_assoc] at ih
      exact List.append_cancel_right ih
    rw [kept, List.append_assoc, ← account, List.append_assoc]

/-- Every run has a ledger. -/
theorem exists_booked (steps : Steps limits level (.ofTokens program, initial) c) :
    ∃ ledger, Booked limits level program c ledger := by
  induction steps with
  | refl => exact ⟨{}, .start⟩
  | @tail c c' _ step ih =>
    obtain ⟨⟨kept, shown⟩, booked⟩ := ih
    obtain ⟨front, path, -⟩ := step.balance booked.reachable.clipsNested
    -- what the step strikes out is there to be struck out
    have entry : kept = (shown ++ front) ++ struckAt c := by
      rw [List.append_assoc, ← path]
      exact booked.balance
    rw [entry] at booked
    exact ⟨_, .step booked step⟩

/-- A move takes nothing back from the picture. -/
theorem PageMove.extends {m' : Machine} (nested : m.ClipsNested)
    (page : PageMove limits level m m') : m'.picture.Extends m.picture := by
  have definitions : m.picture.definitions.toList <+: m'.picture.definitions.toList := by
    rcases page.definitions nested with ⟨same, -⟩ | ⟨d, more, -⟩
    · exact same ▸ List.prefix_rfl
    · exact more ▸ List.prefix_append _ _
  refine ⟨definitions, ?_⟩
  cases page with
  | quiet _ _ extra _ shapes _ => exact shapes ▸ List.prefix_append _ _
  | save _ _ picture _ => exact picture ▸ List.prefix_rfl
  | restore restored =>
    have picture : m'.picture = m.picture := restored ▸ (restoreGraphics_page nested).2.picture
    exact picture ▸ List.prefix_rfl
  | paint _ _ _ picture _ =>
    rw [picture, Picture.draw, Array.toList_push]
    exact List.prefix_append _ _
  | clip _ _ _ picture _ =>
    -- a clip is defined, and nothing is drawn for it
    have shapes : m'.picture.shapes = m.picture.shapes := by rw [picture]; rfl
    exact shapes ▸ List.prefix_rfl
  | shade _ _ _ _ _ picture _ =>
    rw [picture, Picture.draw, Array.toList_push]
    exact List.prefix_append _ _
  | pattern ref tile hits _ _ result =>
    subst result
    cases tile with
    | none => exact List.prefix_rfl
    | some tile => exact List.prefix_rfl

theorem Move.extends {m' : Machine} (moves : Moves limits level initial m)
    (move : Move limits level m m') : m'.picture.Extends m.picture := by
  have grown := move.page.extends (Identified.counted_of_moves moves).2
  exact grown

/-- What is shown is what the picture has. -/
theorem Booked.perm (h : Booked limits level program c ledger) :
    ledger.shown.Perm c.2.picture.segments := by
  induction h with
  | start => exact .refl _
  | @step c c' front shown before step ih =>
    have grown : c'.2.picture.Extends c.2.picture := (Move.step step).extends before.reachable.moves
    exact (ih.append_right _).trans grown.perm.symm

/-- At the end of a run no segment is left in the path. -/
theorem finish_path (m : Machine) : m.finish.path.segments = #[] := by
  by_cases empty : m.path.isEmpty
  · rw [finish, paintPath, if_pos empty]
    exact Array.isEmpty_iff.mp empty
  · rw [finish, paintPath, if_neg empty]
    rfl

/-- At the limit on operations a remark comes before the path. -/
theorem finish_stopAtLimit_balance (m : Machine) : Balance m m.stopAtLimit.finish [] [] := by
  by_cases empty : m.path.isEmpty
  · have same : m.stopAtLimit.finish = m.stopAtLimit := if_pos empty
    rw [same]
    exact .of_same (Picture.segmentsSince_draw _ _) rfl
  · have painted : m.stopAtLimit.finish
        = (m.stopAtLimit.draw (.path m.path.data m.graphics .lines none)).dropPath := if_neg empty
    rw [painted]
    refine .of_shown ?_ rfl
    have definitions : (m.stopAtLimit.draw (.path m.path.data m.graphics .lines
        none)).dropPath.picture.definitions.toList = m.picture.definitions.toList ++ [] :=
      (List.append_nil _).symm
    have shapes : (m.stopAtLimit.draw (.path m.path.data m.graphics .lines
        none)).dropPath.picture.shapes.toList = m.picture.shapes.toList
          ++ [.comment "execution limit reached", .path m.path.data m.graphics .lines none] := by
      simp [stopAtLimit, note, remark, draw, dropPath, Picture.remark, Picture.draw]
    rw [Picture.segmentsSince_of_append definitions shapes]
    simp [Shape.segments, PathData.segments, Path.data]

/-- The end of a run adds the path under construction to the picture. -/
theorem Halts.balance {stopped : Machine} (h : Halts limits c stopped) :
    stopped.finish.picture.segmentsSince c.2.picture = c.2.path.segments.toList := by
  have account : Balance c.2 stopped.finish [] [] := by
    rcases h with ⟨-, rfl⟩ | ⟨-, rfl⟩
    · exact paintPath_balance c.2 .lines
    · exact finish_stopAtLimit_balance c.2
  obtain ⟨front, path, shown⟩ := account
  rw [path, ← shown, finish_path, List.append_nil]

/-- Halting leaves a remark and paints what is left, on top of what is there. -/
theorem Halts.extends {stopped : Machine} (h : Halts limits c stopped)
    (moves : Moves limits level initial c.2) : stopped.finish.picture.Extends c.2.picture := by
  rcases h with ⟨-, rfl⟩ | ⟨-, rfl⟩
  · exact (Move.finish c.2).extends moves
  · have stop : Move limits level c.2 c.2.stopAtLimit := .stop c.2
    exact ((Move.finish c.2.stopAtLimit).extends (moves.tail stop)).trans (stop.extends moves)

/-- **No segment is lost, and none is shown twice.** When a run of a program
on a fresh machine ends, the path under construction is empty, and in the
ledger of the run the segments of the paths and clips that came into the
picture, in the order in which they came, are exactly the segments that were
appended and not struck out. All that the picture has is in the ledger. -/
theorem segments_shown_once (ended : Ends limits level (.ofTokens program) initial m) :
    m.finish.path.isEmpty = true
    ∧ (∃ ledger, BookedAll limits level program m.finish ledger)
    ∧ ∀ ledger, BookedAll limits level program m.finish ledger →
        ledger.shown = ledger.kept ∧ ledger.shown.Perm m.finish.picture.segments := by
  refine ⟨by rw [Path.isEmpty, finish_path]; rfl, ?_, ?_⟩
  · obtain ⟨s, m₁, steps, halted⟩ := ended.steps
    obtain ⟨⟨kept, shown⟩, booked⟩ := exists_booked steps
    exact ⟨⟨kept, _⟩, (s, m₁), m, shown, booked, halted, rfl, rfl⟩
  · rintro ⟨kept, all⟩ ⟨c, stopped, shown, booked, halted, finished, closing⟩
    obtain rfl : all = shown ++ m.finish.picture.segmentsSince c.2.picture := closing
    rw [finished]
    constructor
    · rw [halted.balance]
      exact booked.balance.symm
    · have grown := halted.extends booked.reachable.moves
      exact (booked.perm.append_right _).trans grown.perm.symm

/-- A program with a move that an arc strikes out, a clip, a move dropped with
its path, a line painted at once and one painted at the end. -/
theorem segments_shown_once_arc :
    ∃ program m, Ends {} 0 (.ofTokens program) initial m
      ∧ m.finish.picture.definitions.toList.map (·.segments.length) = [4]
      ∧ m.finish.picture.shapes.toList.map (·.segments.length) = [2, 2]
      ∧ m.finish.path.isEmpty = true
      ∧ (∃ ledger, BookedAll {} 0 program m.finish ledger)
      ∧ ∀ ledger, BookedAll {} 0 program m.finish ledger →
          ledger.shown = ledger.kept ∧ ledger.shown.Perm m.finish.picture.segments := by
  have ran : (execute {} 40 0 (.ofTokens [.operator "moveto", .operator "arc", .operator "clip",
      .operator "moveto", .operator "newpath", .operator "moveto", .number "9", .number "9",
      .operator "lineto", .operator "moveto", .operator "rlineto"]) initial).map
        (fun m => (m.finish.picture.definitions.toList.map (·.segments.length),
          m.finish.picture.shapes.toList.map (·.segments.length)))
      = some ([4], [2, 2]) := by decide +kernel
  obtain ⟨m, ran, facts⟩ := Option.map_eq_some_iff.mp ran
  obtain ⟨definitions, shapes⟩ := Prod.mk.inj facts
  have ended : Ends {} 0 _ initial m := ⟨40, ran⟩
  exact ⟨_, m, ended, definitions, shapes, segments_shown_once ended⟩

end Runs

end Machine

end VectorPage
