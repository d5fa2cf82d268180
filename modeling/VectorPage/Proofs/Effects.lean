/-
What the operators do to a machine, as single updates.

The operators are written as chains of small moves, many of which take
operands on the way. Here each move that branches is brought into one form:
the machine with some of its parts replaced. What an operator does to a part
can then be read off, and that it leaves the others alone needs no argument.

The first use is that no operator looks at the count of executed tokens: the
count is for the loop alone.
-/
import VectorPage.Proofs.Runs

set_option autoImplicit false

namespace VectorPage.Machine

/-! ## Operands -/

/-- Taking an operand takes the top of the stack, if there is one, and never fails: on
an empty stack the machine stays as it is. -/
theorem pop_eq (m : Machine) :
    m.pop = (m.operands.head?, { m with operands := m.operands.tail }) := by
  obtain ⟨operands⟩ := m
  cases operands <;> rfl

/-- An operand that is no number, or is missing, counts as the default. The operand is
taken all the same, so what was meant for it shifts to no other. -/
theorem popNumber_eq (m : Machine) (default : Float) :
    m.popNumber default = ((m.operands.head?.bind Value.number?).getD default,
      { m with operands := m.operands.tail }) := by
  rw [popNumber, pop_eq]

/-- A point is two numbers, the vertical one on top; each counts as zero where it is
missing. -/
theorem popPoint_eq (m : Machine) :
    m.popPoint = (((m.operands.tail.head?.bind Value.number?).getD 0,
        (m.operands.head?.bind Value.number?).getD 0),
      { m with operands := m.operands.tail.tail }) := by
  simp only [popPoint, popNumber_eq]

/-- An operand as `show` prints it. A missing one is the empty text. -/
theorem popDisplay_eq (m : Machine) :
    m.popDisplay = ((m.operands.head?.map Value.display).getD "",
      { m with operands := m.operands.tail }) := by
  rw [popDisplay, pop_eq]

/-- Two operands change places; a single one stays. -/
theorem exchange_eq (m : Machine) :
    m.exchange = { m with
      operands := match m.operands with
        | u :: v :: rest => v :: u :: rest
        | other => other } := by
  obtain ⟨operands⟩ := m
  rcases operands with _ | ⟨u, _ | ⟨v, rest⟩⟩ <;> rfl

/-- The top operand is put on the stack once more, if there is one. -/
theorem duplicate_eq (m : Machine) :
    m.duplicate = { m with operands := m.operands.head?.toList ++ m.operands } := by
  obtain ⟨operands⟩ := m
  cases operands <;> rfl

/-! ## Dictionaries -/

/-- The dictionary on top becomes the innermost scope. Anything else is taken off as
well, and a new dictionary stands in for it: a scope is opened in any case, which is
what a later `end` relies on. -/
theorem beginDict_eq (m : Machine) :
    m.beginDict = { m with
      operands := m.operands.tail
      heap := match m.operands.head? with
        | some (.dict _) => m.heap
        | _ => (m.heap.alloc []).2
      scopes := (match m.operands.head? with
        | some (.dict ref) => ref
        | _ => (m.heap.alloc []).1) :: m.scopes } := by
  obtain ⟨operands⟩ := m
  rcases operands with _ | ⟨v, rest⟩
  · rfl
  · cases v <;> rfl

/-- A key and a value are taken, even if one of them is missing, and then nothing is
bound. The key is bound in the innermost dictionary, by the text that `show` would print
for it. -/
theorem bindName_eq (m : Machine) :
    m.bindName = { m with
      operands := m.operands.tail.tail
      heap := match m.operands.tail.head?, m.operands.head? with
        | some key, some value => m.heap.set m.innermost key.display value
        | _, _ => m.heap } := by
  obtain ⟨operands⟩ := m
  rcases operands with _ | ⟨v, _ | ⟨key, rest⟩⟩ <;> rfl

/-! ## Appearance -/

/-- The cap of lines is set if the operand names one, by a code or by itself; the
operand is taken in any case. -/
theorem setLineCap_eq (m : Machine) :
    m.setLineCap = { m with
      operands := m.operands.tail
      graphics := match styleName? lineCapName m.operands.head? with
        | some cap => { m.graphics with lineCap := cap }
        | none => m.graphics } := by
  simp only [setLineCap, pop_eq]
  cases styleName? lineCapName m.operands.head? <;> rfl

/-- The join of lines, in the way of the cap. -/
theorem setLineJoin_eq (m : Machine) :
    m.setLineJoin = { m with
      operands := m.operands.tail
      graphics := match styleName? lineJoinName m.operands.head? with
        | some join => { m.graphics with lineJoin := join }
        | none => m.graphics } := by
  simp only [setLineJoin, pop_eq]
  cases styleName? lineJoinName m.operands.head? <;> rfl

/-- Defining clips anew takes ids and changes the picture, and nothing else. -/
theorem exists_renewClips_eq (m : Machine) (layers : List ClipLayer) :
    ∃ nextId picture,
      (m.renewClips layers).2 = { m with nextId := nextId, picture := picture } := by
  unfold renewClips
  generalize ([] : List ClipLayer) = done
  induction layers generalizing done m with
  | nil => exact ⟨m.nextId, m.picture, rfl⟩
  | cons layer rest ih =>
    exact ih ((m.freshId "clip").2.define (.clipPath (m.freshId "clip").1 layer.data))
      (⟨(m.freshId "clip").1, layer.data⟩ :: done)

/-- Restoring a graphics state leaves operands, dictionaries and counts alone. -/
theorem exists_restoreGraphics_eq (m : Machine) :
    ∃ graphics saved path nextId picture, m.restoreGraphics = { m with
      graphics := graphics
      saved := saved
      path := path
      nextId := nextId
      picture := picture } := by
  rcases saved : m.saved with _ | ⟨g, rest⟩
  · have unchanged : m.restoreGraphics = m := by simp only [restoreGraphics, saved]
    exact ⟨m.graphics, m.saved, m.path, m.nextId, m.picture, unchanged⟩
  · obtain ⟨nextId, picture, renewed⟩ := exists_renewClips_eq m
      (g.clips.take (g.clips.length - m.graphics.clips.length)).reverse
    simp only [restoreGraphics, saved, renewed]
    exact ⟨_, _, _, _, _, rfl⟩

/-- Areas are filled with the pattern on top of the stack. Whatever else is there is
taken off and leaves areas unpainted, rather than painted as before. -/
theorem setPattern_eq (m : Machine) :
    m.setPattern = { m with
      operands := m.operands.tail
      graphics := match m.operands.head? with
        | some (.pattern p) => m.graphics.withPattern p
        | _ => m.graphics.withoutFill } := by
  obtain ⟨operands⟩ := m
  rcases operands with _ | ⟨v, rest⟩
  · rfl
  · cases v <;> rfl

/-- A font dictionary sets the name and the size that it has, and what it lacks stays as
it was. A text or a name sets the name alone. -/
theorem setFont_eq (m : Machine) :
    m.setFont = { m with
      operands := m.operands.tail
      graphics := match m.operands.head? with
        | some (.dict ref) =>
          { m.graphics with
            font := ((m.heap.get? ref fontNameKey).map Value.display).getD m.graphics.font
            fontSize := ((m.heap.get? ref fontSizeKey).bind Value.number?).getD
              m.graphics.fontSize }
        | some (.text s) | some (.name s) => { m.graphics with font := s }
        | _ => m.graphics } := by
  obtain ⟨operands⟩ := m
  rcases operands with _ | ⟨v, rest⟩
  · rfl
  · cases v <;> rfl

/-! ## Paths and painting -/

/-- A path is closed unless it is empty or closed already, so no two marks of closing
stand side by side. -/
theorem closePath_eq (m : Machine) :
    m.closePath = { m with
      path := if m.path.isEmpty || m.path.isClosed then m.path else m.path.close } := by
  unfold closePath
  split <;> rfl

/-- A path that has segments is drawn and gives way to a fresh one; an empty path leaves
no element behind. -/
theorem paintPath_eq (m : Machine) (mode : PaintMode) :
    m.paintPath mode = { m with
      picture := if m.path.isEmpty then m.picture
        else m.picture.draw (.path m.path.data m.graphics mode none)
      path := if m.path.isEmpty then m.path else m.path.reset } := by
  unfold paintPath
  split <;> rfl

/-- A line drawn and not yet painted. -/
def drawLine (m : Machine) : Machine :=
  { m with
    operands := m.operands.tail.tail
    path := m.path.lineTo m.popPoint.1.1 m.popPoint.1.2
    point := m.popPoint.1 }

/-- **A line may be painted as soon as it is drawn**: if it is the only one of its path,
and the operator ahead would neither go on from its end nor change how it looks. -/
theorem lineTo_eq (m : Machine) (s : TokenStream) :
    m.lineTo s = if m.drawLine.path.isSingleLine && endsLine s then m.drawLine.paintPath .lines
      else m.drawLine := by
  simp only [lineTo, drawLine, build, reach, popPoint_eq]

/-- The outline becomes a clip under a fresh id, and the path is told of it. Without
segments nothing happens, and no id is used up. -/
theorem clip_eq (m : Machine) :
    m.clip = if m.path.isEmpty then m
      else place { m with
        nextId := m.nextId + 1
        picture := m.picture.define (.clipPath (m.freshId "clip").1 m.path.data)
        graphics := { m.graphics with
          clips := ⟨(m.freshId "clip").1, m.path.data⟩ :: m.graphics.clips }
        path := m.path.reset } := by
  rfl

/-- A text is written at the text position, and the position is used up. If there is
none nothing is written, but the operand is taken and the path dropped all the same. -/
theorem showText_eq (m : Machine) :
    m.showText = { m with
      operands := m.operands.tail
      picture := match m.graphics.textPosition with
        | some (x, y) => m.picture.write
          ⟨(m.graphics.transform.apply x y).1, (m.graphics.transform.apply x y).2,
            m.graphics.font, m.graphics.fontSize, m.graphics.areaPaint,
            (m.operands.head?.map Value.display).getD ""⟩
        | none => m.picture
      path := m.path.reset
      graphics := { m.graphics with textPosition := none } } := by
  simp only [showText, popDisplay_eq]
  cases m.graphics.textPosition <;> rfl

/-- The gradient and the outline of the dictionary on top of the stack: `none`
if there is no dictionary, `some none` if its shading is not drawn. -/
def shading? (m : Machine) : Option (Option (Definition × List Segment)) :=
  match m.operands.head? with
  | some (.dict ref) => some (shadingParts? m.heap ref (m.freshId "grad").1)
  | _ => none

/-- **A shading** takes a dictionary, and an id as soon as there is one, whether it can
be drawn or not. If it can, a gradient is defined and an area painted with it; if it
cannot, a remark is left. -/
theorem shadingFill_eq (m : Machine) :
    m.shadingFill = { m with
      operands := m.operands.tail
      nextId := if m.shading?.isSome then m.nextId + 1 else m.nextId
      picture := match m.shading? with
        | some (some (gradient, outline)) => (m.picture.define gradient).draw
          (.path (.drawn outline) m.graphics .areas (some (m.freshId "grad").1))
        | some none => m.picture.remark "shfill not fully implemented"
        | none => m.picture
      path := match m.shading? with
        | some (some _) => m.path.reset
        | _ => m.path } := by
  obtain ⟨operands⟩ := m
  rcases operands with _ | ⟨v, rest⟩
  · rfl
  · cases v with
    | dict ref =>
      simp only [shadingFill, pop, shading?, List.head?_cons]
      -- the shading is read under the id that was drawn for it
      split
      · rename_i drawn
        simp only [freshId] at drawn ⊢
        simp only [drawn]
        rfl
      · rename_i notDrawn
        simp only [freshId] at notDrawn ⊢
        simp only [notDrawn]
        rfl
    | _ => rfl

/-- The machine with a pattern of a dictionary in the place of the top
operand. Without a tile nothing is defined. -/
def withPattern (m : Machine) (ref : DictRef) (tile : Option (List Shape))
    (hits : List LimitHit) : Machine :=
  { m with
    operands := .pattern ⟨(m.freshId "pattern").1, ref⟩ :: m.operands.tail
    nextId := m.nextId + 1
    picture := match tile with
      | some tile => m.picture.define (patternDefinition m.heap ref (m.freshId "pattern").1 tile)
      | none => m.picture
    hits := hits ++ m.hits }

/-- **A pattern by its dictionary.** There is a tile only if the dictionary has a paint
procedure. Beyond the limit on nested patterns the tile is empty and the limit is noted;
otherwise the procedure is run, and if that run does not come to an end in the fuel,
neither does this step. -/
theorem makePattern_eq (m : Machine) (limits : Limits) (level : Nat)
    (paint : List Token → Option Machine) :
    m.makePattern limits level paint = match m.operands.head? with
      | some (.dict ref) =>
        match m.heap.get? ref "PaintProc" with
        | some (.procedure body) =>
          if limits.patterns ≤ level then
            some (m.withPattern ref (some []) [.pattern (m.freshId "pattern").1])
          else (paint body).map fun painted => m.withPattern ref (some (tileOf painted)) painted.hits
        | _ => some (m.withPattern ref none [])
      | _ => some { m with operands := m.operands.tail } := by
  obtain ⟨operands⟩ := m
  rcases operands with _ | ⟨v, rest⟩
  · rfl
  · cases v <;> rfl

/-! ## The count of executed tokens -/

/-- Counting a token leaves the operands alone. -/
@[simp] theorem counted_operands (m : Machine) : m.counted.operands = m.operands := rfl

@[simp] theorem counted_heap (m : Machine) : m.counted.heap = m.heap := rfl

@[simp] theorem counted_lookup (m : Machine) (name : String) :
    m.counted.lookup name = m.lookup name := rfl

/-- Clips defined anew get the same ids whatever the count is. -/
theorem renewClips_counted (m : Machine) (layers : List ClipLayer) :
    m.counted.renewClips layers
      = ((m.renewClips layers).1, (m.renewClips layers).2.counted) := by
  unfold renewClips
  generalize ([] : List ClipLayer) = done
  induction layers generalizing done m with
  | nil => rfl
  | cons layer rest ih =>
    rw [List.foldl_cons, List.foldl_cons]
    exact ih ((m.freshId "clip").2.define (.clipPath (m.freshId "clip").1 layer.data)) _

/-- The states saved do not depend on the count. -/
theorem restoreGraphics_counted (m : Machine) :
    m.counted.restoreGraphics = m.restoreGraphics.counted := by
  rcases saved : m.saved with _ | ⟨g, rest⟩
  · have saved' : m.counted.saved = [] := saved
    simp only [restoreGraphics, saved, saved']
  · have saved' : m.counted.saved = g :: rest := saved
    simp only [restoreGraphics, saved, saved', renewClips_counted]
    rfl

/-- Whether a line is painted at once depends on the tokens ahead, not on those
before. -/
theorem lineTo_counted (m : Machine) (s : TokenStream) :
    m.counted.lineTo s = (m.lineTo s).counted := by
  have drawn : m.counted.drawLine = m.drawLine.counted := by
    simp only [drawLine, popPoint_eq]
    rfl
  rw [lineTo_eq, lineTo_eq, drawn, paintPath_eq, paintPath_eq]
  change (if m.drawLine.path.isSingleLine && endsLine s then _ else _) = _
  split <;> rfl

/-- **No operator looks at the count.** -/
theorem operate_counted (m : Machine) (s : TokenStream) (op : Operator) :
    m.counted.operate s op = (m.operate s op).counted := by
  cases op with
  | restoreGraphics => exact restoreGraphics_counted m
  | lineTo => exact lineTo_counted m s
  | clip =>
    simp only [operate, clip_eq]
    change (if m.path.isEmpty then _ else _) = _
    split <;> rfl
  | _ =>
    simp only [operate, negate, combine, exchange_eq, duplicate_eq, newDict, beginDict_eq, endDict,
      bindName_eq, saveGraphics, translate, scale, rotate, setLineWidth, setLineCap_eq,
      setLineJoin_eq, setDash, setRgbColor, setGray, setCmykColor, setPattern_eq, moveTo, moveBy,
      lineBy, curveTo, curveBy, closePath_eq, arc, paintPath_eq, shadingFill_eq, findFont, scaleFont, setFont_eq,
      showText_eq, pop_eq, popNumber_eq, popPoint_eq, popDisplay_eq] <;> rfl

/-- A pattern is the same whatever the count, since its paint procedure runs on a
machine of its own, with a count of its own. -/
theorem makePattern_counted (m : Machine) (limits : Limits) (level : Nat)
    (paint : List Token → Option Machine) :
    m.counted.makePattern limits level paint
      = (m.makePattern limits level paint).map counted := by
  rw [makePattern_eq, makePattern_eq, counted_operands, counted_heap]
  rcases m.operands.head? with _ | v
  · rfl
  · cases v with
    | dict ref =>
      dsimp only
      split
      · split
        · rfl
        · rw [Option.map_map]
          rfl
      · rfl
    | _ => rfl

/-- A call depends on the room in the stream, not on the tokens executed so far. -/
theorem callProcedure_counted (m : Machine) (limits : Limits) (name : String)
    (body : List Token) (s : TokenStream) :
    m.counted.callProcedure limits name body s
      = ((m.callProcedure limits name body s).1, (m.callProcedure limits name body s).2.counted) := by
  simp only [callProcedure]
  rcases s.call body limits.calls with ⟨_ | _, rest⟩ <;> rfl

/-- A name is executed alike at any count: bound names come first, then operators, and
neither asks for it. -/
theorem executeName_counted (m : Machine) (limits : Limits) (level : Nat)
    (paint : List Token → Option Machine) (name : String) (s : TokenStream) :
    m.counted.executeName limits level paint name s
      = (m.executeName limits level paint name s).map fun c => (c.1, c.2.counted) := by
  simp only [executeName, counted_lookup]
  rcases m.lookup name with _ | value
  · rcases Operator.ofName? name with _ | op
    · rfl
    · cases op with
      | makePattern => simp only [makePattern_counted, Option.map_map, Function.comp_def]
      | _ => simp only [operate_counted, Option.map_some]
  · cases value with
    | procedure body => simp only [callProcedure_counted, Option.map_some]
    | _ => rfl

/-- A literal is read off the stream, and only the stream decides what it is. -/
theorem pushLiteral_counted (m : Machine) (limits : Limits) (kind : OpenLiteral)
    (s : TokenStream) :
    m.counted.pushLiteral limits kind s
      = ((m.pushLiteral limits kind s).1, (m.pushLiteral limits kind s).2.counted) := by
  simp only [pushLiteral]
  split <;> rfl

/-- **No step looks at the count.** -/
theorem step_counted (m : Machine) (limits : Limits) (level : Nat)
    (paint : List Token → Option Machine) (token : Token) (s : TokenStream) :
    m.counted.step limits level paint token s
      = (m.step limits level paint token s).map fun c => (c.1, c.2.counted) := by
  cases token with
  | operator name => exact executeName_counted m limits level paint name s
  | openBracket => simp only [step, pushLiteral_counted, Option.map_some]
  | openDict => simp only [step, pushLiteral_counted, Option.map_some]
  | _ => rfl

end VectorPage.Machine
