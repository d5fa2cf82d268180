/-
What a move does to the page: the picture, the ids given out, the clips in
force and the saved states.

Few operators draw. Of the others it is shown here once that they leave the
picture and the ids alone (`operate_idle`), and of those that draw, what they
add: a path painted, a clip, a shading with its gradient, a pattern. `PageMove`
collects the cases. What is true of every picture a program can produce is
then a matter of these seven cases, and no longer of forty operators.
-/
import VectorPage.Proofs.Moves

set_option autoImplicit false

namespace VectorPage

/-- Whether the operator may add to the picture. -/
def Operator.draws : Operator → Bool
  | lineTo | stroke | fill | clip | shadingFill | makePattern | image | showText => true
  | _ => false

/-- Whether a shape is a path. -/
def Shape.isPath : Shape → Bool
  | path .. => true
  | comment _ | placeholder => false

/-- Whether a definition is a gradient. -/
def Definition.isGradient : Definition → Bool
  | linearGradient .. | radialGradient .. => true
  | clipPath .. | pattern .. => false

/-- What holds of both kinds of gradients holds of every gradient. -/
@[elab_as_elim]
theorem Definition.gradient_cases {motive : Definition → Prop} {d : Definition}
    (h : d.isGradient = true)
    (linear : ∀ id x₁ y₁ x₂ y₂ start stop, motive (.linearGradient id x₁ y₁ x₂ y₂ start stop))
    (radial : ∀ id start stop, motive (.radialGradient id start stop)) : motive d := by
  cases d with
  | linearGradient id x₁ y₁ x₂ y₂ start stop => exact linear id x₁ y₁ x₂ y₂ start stop
  | radialGradient id start stop => exact radial id start stop
  | clipPath => cases h
  | pattern => cases h

namespace Machine

/-! ## Operators that do not draw -/

/-- The picture and the ids given out are the same. -/
structure SamePicture (m m' : Machine) : Prop where
  picture : m'.picture = m.picture
  nextId : m'.nextId = m.nextId

/-- **An operator that does not draw** leaves the picture and the ids alone,
unless it restores a graphics state. -/
theorem operate_idle (m : Machine) (s : TokenStream) {op : Operator} (idle : op.draws = false)
    (restore : op ≠ .restoreGraphics) : SamePicture m (m.operate s op) := by
  cases op with
  | restoreGraphics => exact absurd rfl restore
  | lineTo | stroke | fill | clip | shadingFill | makePattern | image | showText => cases idle
  | _ =>
    simp only [operate, negate, combine, exchange_eq, duplicate_eq, newDict, beginDict_eq, endDict,
      bindName_eq, saveGraphics, translate, scale, rotate, setLineWidth, setLineCap_eq,
      setLineJoin_eq, setDash, setRgbColor, setGray, setCmykColor, setPattern_eq, moveTo, moveBy,
      lineBy, curveTo, curveBy, closePath_eq, arc, findFont, scaleFont, setFont_eq, pop_eq,
      popNumber_eq, popPoint_eq, popDisplay_eq]
    exact ⟨rfl, rfl⟩

/-! ## Gradients and tiles -/

/-- The gradient of a shading is a gradient, and has the id asked for. -/
theorem gradient_of_shadingParts {heap : Heap} {shading : DictRef} {id : String}
    {gradient : Definition} {outline : List Segment}
    (h : shadingParts? heap shading id = some (gradient, outline)) :
    gradient.id = id ∧ gradient.isGradient = true := by
  simp only [shadingParts?] at h
  split at h
  · cases h
  · split at h
    · cases h
      exact ⟨rfl, rfl⟩
    · split at h
      · cases h
        exact ⟨rfl, rfl⟩
      · cases h

/-- The gradient of a shading is defined under the id that was drawn for it, and the
area painted with it refers to that id. -/
theorem gradient_of_shading {m : Machine} {gradient : Definition} {outline : List Segment}
    (drawn : m.shading? = some (some (gradient, outline))) :
    gradient.id = (m.freshId "grad").1 ∧ gradient.isGradient = true := by
  unfold shading? at drawn
  split at drawn
  · exact gradient_of_shadingParts (Option.some.inj drawn)
  · cases drawn

/-- **The tile of a pattern** made of a dictionary: none without a paint
procedure, an empty one beyond the limit, and otherwise what the paint
procedure leaves when it has run on a machine of its own. -/
inductive Tile (limits : Limits) (level : Nat) (heap : Heap) (ref : DictRef) :
    Option (List Shape) → Prop where
  | missing (unpainted : ∀ body, heap.get? ref "PaintProc" ≠ some (.procedure body)) :
      Tile limits level heap ref none
  | empty (body : List Token) (paint : heap.get? ref "PaintProc" = some (.procedure body))
      (deep : limits.patterns ≤ level) : Tile limits level heap ref (some [])
  | painted (body : List Token) (paint : heap.get? ref "PaintProc" = some (.procedure body))
      (painted : Machine) (ran : Ends limits (level + 1) (.ofTokens body) initial painted) :
      Tile limits level heap ref (some (tileOf painted.finish))

/-- **Making a pattern** puts one in the place of a dictionary, and only takes
any other operand. -/
theorem makePattern_cases {m m' : Machine} {limits : Limits} {level fuel : Nat}
    (made : m.makePattern limits level (paintWith limits fuel level) = some m') :
    (∃ ref tile hits, m.operands.head? = some (.dict ref) ∧ Tile limits level m.heap ref tile
      ∧ m' = m.withPattern ref tile hits)
    ∨ m' = { m with operands := m.operands.tail } := by
  rw [makePattern_eq] at made
  split at made
  · rename_i ref source
    refine .inl ?_
    split at made
    · rename_i body paint
      split at made
      · rename_i deep
        exact ⟨ref, _, _, source, .empty body paint deep, (Option.some.inj made).symm⟩
      · obtain ⟨painted, answer, rfl⟩ := Option.map_eq_some_iff.mp made
        obtain ⟨done, ran, rfl⟩ := Option.map_eq_some_iff.mp answer
        exact ⟨ref, _, _, source, .painted body paint done ⟨fuel, ran⟩, rfl⟩
    · rename_i unpainted
      exact ⟨ref, _, _, source, .missing unpainted, (Option.some.inj made).symm⟩
  · exact .inr (Option.some.inj made).symm

/-! ## The cases -/

/-- **What can become of the page in one move.** -/
inductive PageMove (limits : Limits) (level : Nat) (m m' : Machine) : Prop where
  /-- Nothing that is defined or painted: remarks at most, and a text. -/
  | quiet (layers : SameLayers m m')
      (definitions : m'.picture.definitions = m.picture.definitions) (extra : List Shape)
      (pathless : ∀ s ∈ extra, s.isPath = false)
      (shapes : m'.picture.shapes.toList = m.picture.shapes.toList ++ extra)
      (nextId : m.nextId ≤ m'.nextId)
  | save (graphics : m'.graphics = m.graphics) (saved : m'.saved = m.graphics :: m.saved)
      (picture : m'.picture = m.picture) (nextId : m'.nextId = m.nextId)
  | restore (restored : m' = m.restoreGraphics)
  | paint (data : PathData) (mode : PaintMode) (layers : SameLayers m m')
      (picture : m'.picture = m.picture.draw (.path data m.graphics mode none))
      (nextId : m'.nextId = m.nextId)
  | clip (data : PathData)
      (clips : m'.graphics.clips = ⟨(m.freshId "clip").1, data⟩ :: m.graphics.clips)
      (saved : m'.saved = m.saved)
      (picture : m'.picture = m.picture.define (.clipPath (m.freshId "clip").1 data))
      (nextId : m'.nextId = m.nextId + 1)
  | shade (gradient : Definition) (outline : List Segment)
      (id : gradient.id = (m.freshId "grad").1) (kind : gradient.isGradient = true)
      (layers : SameLayers m m')
      (picture : m'.picture = (m.picture.define gradient).draw
        (.path (.drawn outline) m.graphics .areas (some (m.freshId "grad").1)))
      (nextId : m'.nextId = m.nextId + 1)
  | pattern (ref : DictRef) (tile : Option (List Shape)) (hits : List LimitHit)
      (source : m.operands.head? = some (.dict ref)) (made : Tile limits level m.heap ref tile)
      (result : m' = m.withPattern ref tile hits)

section Pages

variable {limits : Limits} {level : Nat} {m m' : Machine}

/-- What leaves picture, clips and saved states alone is a quiet move. -/
theorem PageMove.of_same (layers : SameLayers m m') (same : SamePicture m m') :
    PageMove limits level m m' :=
  .quiet layers (by rw [same.picture]) [] (by simp) (by simp [same.picture]) same.nextId.ge

/-- A remark adds a comment and no path; it is a quiet move as well. -/
theorem PageMove.of_remark (layers : SameLayers m m') (message : String)
    (picture : m'.picture = m.picture.remark message) (nextId : m.nextId ≤ m'.nextId) :
    PageMove limits level m m' :=
  .quiet layers (by rw [picture]; rfl) [.comment message] (by simp [Shape.isPath])
    (by simp [picture, Picture.remark, Picture.draw]) nextId

/-- Painting a path, perhaps after it was changed or a token was counted. -/
theorem paintPath_page (m₀ m : Machine) (graphics : m.graphics = m₀.graphics)
    (saved : m.saved = m₀.saved) (same : SamePicture m₀ m) (mode : PaintMode) :
    PageMove limits level m₀ (m.paintPath mode) := by
  have layers : SameLayers m₀ m := ⟨by rw [graphics], saved⟩
  by_cases empty : m.path.isEmpty
  · rw [paintPath, if_pos empty]
    exact .of_same layers same
  · rw [paintPath, if_neg empty]
    refine .paint m.path.data mode ⟨layers.clips, layers.saved⟩ ?_ same.nextId
    rw [← graphics, ← same.picture]
    rfl

theorem lineTo_page (m : Machine) (s : TokenStream) : PageMove limits level m (m.lineTo s) := by
  rw [lineTo_eq]
  split
  · exact paintPath_page m m.drawLine rfl rfl ⟨rfl, rfl⟩ .lines
  · exact .of_same ⟨rfl, rfl⟩ ⟨rfl, rfl⟩

/-- A clip defines an outline and paints nothing. -/
theorem clip_page (m : Machine) : PageMove limits level m m.clip := by
  rw [clip_eq]
  split
  · exact .of_same ⟨rfl, rfl⟩ ⟨rfl, rfl⟩
  · exact .clip m.path.data rfl rfl rfl rfl

/-- A shading that is drawn defines a gradient and paints a path with it, in one move.
One that is not drawn leaves a remark, though it has used up an id. -/
theorem shadingFill_page (m : Machine) : PageMove limits level m m.shadingFill := by
  rw [shadingFill_eq]
  rcases drawn : m.shading? with _ | _ | ⟨gradient, outline⟩
  · exact .of_same ⟨rfl, rfl⟩ ⟨rfl, rfl⟩
  · exact .of_remark ⟨rfl, rfl⟩ _ rfl (Nat.le_succ _)
  · obtain ⟨id, kind⟩ := gradient_of_shading drawn
    exact .shade gradient outline id kind ⟨rfl, rfl⟩ rfl rfl

/-- A text is written beside the shapes, which stay as they are. -/
theorem showText_page (m : Machine) : PageMove limits level m m.showText := by
  rw [showText_eq]
  cases m.graphics.textPosition with
  | none => exact .of_same ⟨rfl, rfl⟩ ⟨rfl, rfl⟩
  | some p => exact .quiet ⟨rfl, rfl⟩ rfl [] (by simp) (by simp [Picture.write]) (Nat.le_refl _)

/-- An image leaves a remark and a placeholder, neither of which is a path. -/
theorem showImage_page (m : Machine) : PageMove limits level m m.showImage :=
  .quiet ⟨rfl, rfl⟩ rfl [.comment "image/imagemask not implemented", .placeholder]
    (by simp [Shape.isPath]) (by simp [showImage, remark, draw, Picture.remark, Picture.draw])
    (Nat.le_refl _)

/-- **What an operator does to the page** is one of the things listed in `PageMove`.
The cases are those of the operators that draw; the rest change other parts of the
machine. -/
theorem operate_page (m : Machine) (s : TokenStream) (op : Operator) :
    PageMove limits level m (m.operate s op) := by
  by_cases draws : op.draws = false
  · by_cases save : op = .saveGraphics
    · subst save
      exact .save rfl rfl rfl rfl
    by_cases restore : op = .restoreGraphics
    · subst restore
      exact .restore rfl
    refine .of_same (operate_layers m s ?_ save restore) (operate_idle m s draws restore)
    -- a clip draws, so it is none of these
    rintro rfl
    cases draws
  · cases op with
    | lineTo => exact lineTo_page m s
    | stroke => exact paintPath_page m m rfl rfl ⟨rfl, rfl⟩ .lines
    | fill => exact paintPath_page m m rfl rfl ⟨rfl, rfl⟩ .areas
    | clip => exact clip_page m
    | shadingFill => exact shadingFill_page m
    | makePattern => exact .of_same ⟨rfl, rfl⟩ ⟨rfl, rfl⟩
    | image => exact showImage_page m
    | showText => exact showText_page m
    | _ => exact absurd rfl draws

/-- A token that stands for no operator leaves at most a remark. -/
theorem Aside.page (h : Aside limits m m') : PageMove limits level m m' := by
  cases h with
  | nothing same =>
    subst same
    exact .of_same ⟨rfl, rfl⟩ ⟨rfl, rfl⟩
  | operand v _ pushed =>
    subst pushed
    exact .of_same ⟨rfl, rfl⟩ ⟨rfl, rfl⟩
  | bound name v _ pushed =>
    subst pushed
    exact .of_same ⟨rfl, rfl⟩ ⟨rfl, rfl⟩
  | literal kind s pushed =>
    subst pushed
    simp only [pushLiteral]
    split
    · exact .of_remark ⟨rfl, rfl⟩ _ rfl (Nat.le_refl _)
    · exact .of_same ⟨rfl, rfl⟩ ⟨rfl, rfl⟩
  | unknown message remarked =>
    subst remarked
    exact .of_remark ⟨rfl, rfl⟩ message rfl (Nat.le_refl _)
  | refused message hit remarked =>
    subst remarked
    exact .of_remark ⟨rfl, rfl⟩ message rfl (Nat.le_refl _)

/-- **Every move is one of these**, from the machine that has counted its
token. -/
theorem Move.page (h : Move limits level m m') : PageMove limits level m.counted m' := by
  cases h with
  | step step =>
    cases step.effect with
    | operate op rest _ result =>
      dsimp only at result
      subst result
      exact operate_page _ rest op
    | makePattern fuel _ made =>
      obtain ⟨ref, tile, hits, source, tiled, rfl⟩ | rfl := makePattern_cases made
      · exact .pattern ref tile hits source tiled rfl
      · exact .of_same ⟨rfl, rfl⟩ ⟨rfl, rfl⟩
    | aside _ result => exact result.page
  | stop => exact .of_remark ⟨rfl, rfl⟩ _ rfl (Nat.le_refl _)
  | finish => exact paintPath_page m.counted m rfl rfl ⟨rfl, rfl⟩ .lines

end Pages

end Machine

end VectorPage
