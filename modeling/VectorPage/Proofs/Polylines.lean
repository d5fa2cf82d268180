/-
Programs that draw polylines, figure by figure.

A figure sets colours and widths, moves to its start, draws lines from there,
may close itself and is painted. Two rules of the machine meet here. A figure of
a single line is painted by a look at the tokens ahead, before its paint
operator, which then finds no path; a longer figure waits for the operator. By
either rule a figure is painted once, as a whole, and in the style set so far.

What matters of a machine between two tokens is collected in a `Sketch`. A list
of tokens leads from one sketch to another (`Leads`), whatever tokens come after
it, except that the end of a line depends on them.
-/
import VectorPage.Proofs.Effects
import VectorPage.Token.Lexer

set_option autoImplicit false

namespace VectorPage

/-! ## Figures and their tokens -/

/-- A point as it is written in a program. -/
structure WrittenPoint where
  x : String
  y : String

namespace WrittenPoint

def tokens (p : WrittenPoint) : List Token :=
  [.number p.x, .number p.y]

def moveTo (p : WrittenPoint) : Segment :=
  .moveTo (numeralValue p.x) (numeralValue p.y)

def lineTo (p : WrittenPoint) : Segment :=
  .lineTo (numeralValue p.x) (numeralValue p.y)

end WrittenPoint

/-- A change of the style, as it is written in a program. -/
inductive Setting where
  | rgb (r g b : String)
  | gray (level : String)
  | cmyk (c g y k : String)
  | lineWidth (width : String)

namespace Setting

def numerals : Setting → List String
  | rgb r g b => [r, g, b]
  | gray level => [level]
  | cmyk c g y k => [c, g, y, k]
  | lineWidth width => [width]

def operator : Setting → Operator
  | rgb .. => .setRgbColor
  | gray _ => .setGray
  | cmyk .. => .setCmykColor
  | lineWidth _ => .setLineWidth

def name : Setting → String
  | rgb .. => "setrgbcolor"
  | gray _ => "setgray"
  | cmyk .. => "setcmykcolor"
  | lineWidth _ => "setlinewidth"

def tokens (s : Setting) : List Token :=
  s.numerals.map Token.number ++ [.operator s.name]

/-- The style after the change. -/
def apply (style : GraphicsState) : Setting → GraphicsState
  | rgb r g b => style.withColor (.ofRgb (numeralValue r) (numeralValue g) (numeralValue b))
  | gray level => style.withColor (.ofGray (numeralValue level))
  | cmyk c g y k =>
    style.withColor (.ofCmyk (numeralValue c) (numeralValue g) (numeralValue y) (numeralValue k))
  | lineWidth width => { style with lineWidth := numeralValue width }

/-- The place of a text is no matter of style. -/
theorem apply_textPosition (s : Setting) (style : GraphicsState) (p : Option Point) :
    s.apply { style with textPosition := p } = { s.apply style with textPosition := p } := by
  cases s <;> rfl

end Setting

/-- **A figure of straight lines.** A single line is open and is not filled. -/
structure Polyline where
  settings : List Setting := []
  start : WrittenPoint
  second : WrittenPoint
  more : List WrittenPoint := []
  closed : Bool := false
  filled : Bool := false
  single : more = [] → closed = false ∧ filled = false := by simp

namespace Polyline

/-- The tokens of lines to points. -/
def lineTokens (points : List WrittenPoint) : List Token :=
  points.flatMap fun p => p.tokens ++ [.operator "lineto"]

theorem lineTokens_cons (p : WrittenPoint) (points : List WrittenPoint) :
    lineTokens (p :: points) = p.tokens ++ [.operator "lineto"] ++ lineTokens points :=
  List.flatMap_cons

/-- The tokens that come after the lines. -/
def lastTokens (f : Polyline) : List Token :=
  (if f.closed then [.operator "closepath"] else [])
    ++ [.operator (if f.filled then "fill" else "stroke")]

/-- **The tokens of a figure.** -/
def tokens (f : Polyline) : List Token :=
  f.settings.flatMap Setting.tokens
    ++ (f.start.tokens ++ [.operator "moveto"]
    ++ (lineTokens (f.second :: f.more) ++ f.lastTokens))

/-- **The segments of a figure.** -/
def segments (f : Polyline) : List Segment :=
  f.start.moveTo :: (f.second :: f.more).map WrittenPoint.lineTo
    ++ if f.closed then [.close] else []

def mode (f : Polyline) : PaintMode :=
  if f.filled then .areas else .lines

/-- The style in which a figure is painted. -/
def styled (f : Polyline) (style : GraphicsState) : GraphicsState :=
  f.settings.foldl Setting.apply style

def markup (f : Polyline) (style : GraphicsState) : String :=
  pathMarkup (.drawn f.segments) style f.mode none

/-- **The tokens of figures**, one after the other. -/
def program (figures : List Polyline) : List Token :=
  figures.flatMap tokens

/-- **The markup of figures.** Each is painted in the style set so far. -/
def markups : GraphicsState → List Polyline → List String
  | _, [] => []
  | style, f :: rest => f.markup (f.styled style) :: markups (f.styled style) rest

end Polyline

/-! ## Sketches -/

/-- **What matters of a machine** while it draws polylines. -/
structure Sketch where
  stack : List Value := []
  style : GraphicsState := {}
  path : List Segment := []
  shapes : List String := []

/-- The sketch of a machine that has no name bound, has defined and written
nothing and places points where they are. Where a text would begin is of no
matter. -/
structure Sketch.Of (k : Sketch) (m : Machine) : Prop where
  stack : m.operands = k.stack
  unbound : ∀ name, m.lookup name = none
  style : m.graphics = { k.style with textPosition := m.graphics.textPosition }
  path : m.path = ⟨k.path.toArray, .plain⟩
  definitions : m.picture.definitions = #[]
  texts : m.picture.texts = #[]
  shapes : m.picture.shapes.toList.map Shape.markup = k.shapes

namespace Sketch.Of

variable {k : Sketch} {m : Machine}

theorem counted (h : k.Of m) : k.Of m.counted :=
  ⟨h.stack, h.unbound, h.style, h.path, h.definitions, h.texts, h.shapes⟩

theorem setting (h : k.Of m) (s : Setting) (stack : List Value) :
    Sketch.Of { k with stack := stack, style := s.apply k.style }
      { m with operands := stack, graphics := s.apply m.graphics } := by
  refine { h with stack := rfl, style := ?_, unbound := h.unbound }
  dsimp only
  rw [h.style, s.apply_textPosition]

/-- A point moved to. It is also where a text would begin. -/
theorem moveTo (h : k.Of m) {x y : Float} {stack : List Value}
    (operands : k.stack = .number y :: .number x :: stack) :
    Sketch.Of { k with stack := stack, path := k.path ++ [.moveTo x y] } m.moveTo := by
  have result : m.moveTo = { m with
      operands := stack
      path := m.path.moveTo x y
      point := (x, y)
      graphics := { m.graphics with textPosition := some (x, y) } } := by
    simp only [Machine.moveTo, Machine.popPoint_eq, h.stack, operands]
    rfl
  rw [result]
  refine { h with stack := rfl, style := ?_, path := ?_, unbound := h.unbound }
  · dsimp only
    rw [h.style]
  · dsimp only
    rw [h.path, ← List.push_toArray]
    rfl

/-- A line takes two numbers and adds itself to the path. -/
theorem drawLine (h : k.Of m) {x y : Float} {stack : List Value}
    (operands : k.stack = .number y :: .number x :: stack) :
    Sketch.Of { k with stack := stack, path := k.path ++ [.lineTo x y] } m.drawLine := by
  have result : m.drawLine = { m with
      operands := stack
      path := m.path.lineTo x y
      point := (x, y) } := by
    simp only [Machine.drawLine, Machine.popPoint_eq, h.stack, operands]
    rfl
  rw [result]
  refine { h with stack := rfl, path := ?_, unbound := h.unbound }
  dsimp only
  rw [h.path, ← List.push_toArray]
  rfl

theorem paintPath (h : k.Of m) (drawn : k.path ≠ []) (mode : PaintMode) :
    Sketch.Of
      { k with
        path := []
        shapes := k.shapes ++ [pathMarkup (.drawn k.path) k.style mode none] }
      (m.paintPath mode) := by
  have nonempty : m.path.isEmpty = false := by
    simpa [Path.isEmpty, h.path] using drawn
  -- no part of the markup depends on the place of a text
  have markup : pathMarkup m.path.data m.graphics mode none
      = pathMarkup (.drawn k.path) k.style mode none := by
    rw [h.style, h.path]
    rfl
  rw [Machine.paintPath_eq]
  simp only [nonempty, Bool.false_eq_true, if_false]
  refine { h with path := ?_, shapes := ?_, unbound := h.unbound }
  · rw [Path.reset, h.path]
  · dsimp only [Picture.draw]
    rw [Array.toList_push, List.map_append, h.shapes, ← markup]
    rfl

theorem paintPath_nothing (h : k.Of m) (empty : k.path = []) (mode : PaintMode) :
    k.Of (m.paintPath mode) := by
  have nothing : m.path.isEmpty = true := by simp [Path.isEmpty, h.path, empty]
  rw [Machine.paintPath, if_pos nothing]
  exact h

theorem closePath (h : k.Of m) {x y : Float} (last : k.path.getLast? = some (.lineTo x y)) :
    Sketch.Of { k with path := k.path ++ [.close] } m.closePath := by
  have drawn : k.path ≠ [] := by
    intro empty
    simp [empty] at last
  have unclosed : (m.path.isEmpty || m.path.isClosed) = false := by
    simp [Path.isEmpty, Path.isClosed, Path.last?, h.path, drawn, last]
  rw [Machine.closePath_eq]
  simp only [unclosed, Bool.false_eq_true, if_false]
  refine { h with path := ?_, unbound := h.unbound }
  dsimp only
  rw [h.path, ← List.push_toArray]
  rfl

end Sketch.Of

namespace Machine

/-- **Tokens lead from one sketch to another**, if so many units of fuel are
spent on them and `rest` is still to come. -/
def Leads (level : Nat) (k : Sketch) (tokens rest : List Token) (k' : Sketch) : Prop :=
  ∀ m, k.Of m → ∃ m', k'.Of m' ∧ ∀ fuel,
    execute {} (fuel + tokens.length) level (.ofTokens (tokens ++ rest)) m
      = execute {} fuel level (.ofTokens rest) m'

section Leading

variable {level : Nat} {k k₁ k₂ : Sketch} {first second rest : List Token}

theorem Leads.refl : Leads level k [] rest k :=
  fun m sketch => ⟨m, sketch, fun _ => rfl⟩

/-- **Tokens in a row** lead from the first sketch to the last. What comes behind the
second part is behind the first as well, since a line may ask for what is ahead. -/
theorem Leads.append (h : Leads level k first (second ++ rest) k₁)
    (h' : Leads level k₁ second rest k₂) : Leads level k (first ++ second) rest k₂ := by
  intro m sketch
  obtain ⟨m₁, sketch₁, ran⟩ := h m sketch
  obtain ⟨m₂, sketch₂, ran'⟩ := h' m₁ sketch₁
  refine ⟨m₂, sketch₂, fun fuel => ?_⟩
  calc execute {} (fuel + (first ++ second).length) level
        (.ofTokens (first ++ second ++ rest)) m
      = execute {} (fuel + second.length + first.length) level
          (.ofTokens (first ++ (second ++ rest))) m := by
        rw [List.length_append, List.append_assoc, Nat.add_comm first.length, Nat.add_assoc]
    _ = execute {} (fuel + second.length) level (.ofTokens (second ++ rest)) m₁ := ran _
    _ = execute {} fuel level (.ofTokens rest) m₂ := ran' fuel

/-- One token, which takes nothing else off the stream. -/
theorem Leads.token {token : Token} (steps : ∀ m, k.Of m → ∃ m', k₁.Of m' ∧ ∀ paint,
      m.counted.step {} level paint token (.ofTokens rest) = some (.ofTokens rest, m')) :
    Leads level k [token] rest k₁ := by
  intro m sketch
  obtain ⟨m', sketch', stepped⟩ := steps m sketch
  refine ⟨m', sketch', fun fuel => ?_⟩
  have next : (TokenStream.ofTokens (token :: rest)).next = (some token, .ofTokens rest) := rfl
  have live : m.isSpent {} = false := rfl
  rw [List.singleton_append, List.length_singleton, execute_of_next_some next, live,
    if_neg Bool.false_ne_true, stepped, Option.bind_some]

theorem Leads.number (k : Sketch) (text : String) :
    Leads level k [.number text] rest
      { k with stack := .number (numeralValue text) :: k.stack } := by
  refine .token fun m sketch => ⟨m.counted.push (.number (numeralValue text)), ?_, fun _ => rfl⟩
  exact { sketch.counted with stack := congrArg _ sketch.stack }

theorem Leads.numbers (k : Sketch) (texts : List String) :
    Leads level k (texts.map Token.number) rest
      { k with stack := (texts.map fun text => .number (numeralValue text)).reverse ++ k.stack } := by
  induction texts generalizing k with
  | nil => exact .refl
  | cons text texts ih =>
    have numbers := (Leads.number k text).append (ih _)
    simpa only [List.map_cons, List.reverse_cons, List.append_assoc, List.singleton_append]
      using numbers

/-- **An operator that is not bound** does what it does to every machine of the
sketch. -/
theorem Leads.operator {name : String} (op : Operator) (named : Operator.ofName? name = some op)
    (other : op ≠ .makePattern)
    (operates : ∀ m, k.Of m → k₁.Of (m.operate (.ofTokens rest) op)) :
    Leads level k [.operator name] rest k₁ := by
  refine .token fun m sketch => ⟨m.counted.operate (.ofTokens rest) op, ?_, fun paint => ?_⟩
  · exact operates m.counted sketch.counted
  · have unbound : m.counted.lookup name = none := sketch.counted.unbound name
    cases op with
    | makePattern => exact absurd rfl other
    | _ => simp only [step, executeName, unbound, named]

/-! ## The tokens of a figure -/

/-- An operator that sets a part of the style takes its numbers and changes that
part. -/
theorem operate_setting {m : Machine} (s : Setting) (stream : TokenStream) {stack : List Value}
    (operands : m.operands
      = (s.numerals.map fun text => Value.number (numeralValue text)).reverse ++ stack) :
    m.operate stream s.operator
      = { m with operands := stack, graphics := s.apply m.graphics } := by
  cases s <;>
    simp only [Setting.operator, operate, setRgbColor, setGray, setCmykColor, setLineWidth,
      popNumber_eq, restyle, operands] <;>
    rfl

/-- A setting as it is written: its numbers and its name. -/
theorem Leads.setting (k : Sketch) (s : Setting) :
    Leads level k s.tokens rest { k with style := s.apply k.style } := by
  have named : Operator.ofName? s.name = some s.operator := by cases s <;> rfl
  have other : s.operator ≠ .makePattern := by cases s <;> exact Operator.noConfusion
  refine (Leads.numbers k s.numerals).append (.operator s.operator named other fun m sketch => ?_)
  rw [operate_setting s _ sketch.stack]
  exact sketch.setting s k.stack

/-- Settings take effect in the order in which they are written. -/
theorem Leads.settings (k : Sketch) (settings : List Setting) :
    Leads level k (settings.flatMap Setting.tokens) rest
      { k with style := settings.foldl Setting.apply k.style } := by
  induction settings generalizing k with
  | nil => exact .refl
  | cons s settings ih => exact (Leads.setting k s).append (ih _)

theorem Leads.point (k : Sketch) (p : WrittenPoint) :
    Leads level k p.tokens rest
      { k with
        stack := .number (numeralValue p.y) :: .number (numeralValue p.x) :: k.stack } :=
  .numbers k [p.x, p.y]

theorem Leads.moveTo (k : Sketch) (p : WrittenPoint) :
    Leads level k (p.tokens ++ [.operator "moveto"]) rest
      { k with path := k.path ++ [p.moveTo] } := by
  refine (Leads.point k p).append (.operator .moveTo rfl (by decide) fun m sketch => ?_)
  exact sketch.moveTo rfl

/-- A line that is not painted at once. -/
theorem Leads.lineTo (k : Sketch) (p : WrittenPoint)
    (waits : 2 ≤ k.path.length ∨ endsLine (.ofTokens rest) = false) :
    Leads level k (p.tokens ++ [.operator "lineto"]) rest
      { k with path := k.path ++ [p.lineTo] } := by
  refine (Leads.point k p).append (.operator .lineTo rfl (by decide) fun m sketch => ?_)
  have drawn := sketch.drawLine rfl
  have later : (m.drawLine.path.isSingleLine && endsLine (.ofTokens rest)) = false := by
    rcases waits with long | goesOn
    · -- with this line there are three segments at least
      have size : m.drawLine.path.segments.size ≠ 2 := by
        simp only [drawn.path, List.size_toArray, List.length_append, List.length_singleton]
        omega
      simp [Path.isSingleLine, size]
    · rw [goesOn, Bool.and_false]
  rw [operate, lineTo_eq, later, if_neg Bool.false_ne_true]
  exact drawn

/-- **A single line that is complete** is painted at once. -/
theorem Leads.singleLine (k : Sketch) (start p : WrittenPoint) (path : k.path = [start.moveTo])
    (ends : endsLine (.ofTokens rest) = true) :
    Leads level k (p.tokens ++ [.operator "lineto"]) rest
      { k with
        path := []
        shapes := k.shapes
          ++ [pathMarkup (.drawn [start.moveTo, p.lineTo]) k.style .lines none] } := by
  refine (Leads.point k p).append (.operator .lineTo rfl (by decide) fun m sketch => ?_)
  have drawn := sketch.drawLine rfl
  simp only [path, List.singleton_append] at drawn
  have now : (m.drawLine.path.isSingleLine && endsLine (.ofTokens rest)) = true := by
    rw [drawn.path, ends]
    rfl
  rw [operate, lineTo_eq, now, if_pos rfl]
  exact drawn.paintPath (List.cons_ne_nil _ _) .lines

/-- Lines behind the first are not painted at once: the path is longer than a single
line by then. -/
theorem Leads.lines (k : Sketch) (points : List WrittenPoint) (long : 2 ≤ k.path.length) :
    Leads level k (Polyline.lineTokens points) rest
      { k with path := k.path ++ points.map WrittenPoint.lineTo } := by
  induction points generalizing k with
  | nil =>
    rw [List.map_nil, List.append_nil]
    exact .refl
  | cons p points ih =>
    have longer : 2 ≤ (k.path ++ [p.lineTo]).length := by
      rw [List.length_append]
      omega
    have lines := (Leads.lineTo k p (.inl long)).append (ih _ longer)
    rw [List.append_assoc k.path] at lines
    exact lines

theorem Leads.close (k : Sketch) {p : WrittenPoint} (last : k.path.getLast? = some p.lineTo) :
    Leads level k [.operator "closepath"] rest { k with path := k.path ++ [.close] } :=
  .operator .closePath rfl (by decide) fun _ sketch => sketch.closePath last

/-- The path is painted as it is, under the style that was set. -/
theorem Leads.paint (k : Sketch) (filled : Bool) (drawn : k.path ≠ []) :
    Leads level k [.operator (if filled then "fill" else "stroke")] rest
      { k with
        path := []
        shapes := k.shapes ++ [pathMarkup (.drawn k.path) k.style
          (if filled then .areas else .lines) none] } := by
  cases filled with
  | true =>
    exact .operator .fill rfl (by decide) fun _ sketch => sketch.paintPath drawn .areas
  | false =>
    exact .operator .stroke rfl (by decide) fun _ sketch => sketch.paintPath drawn .lines

/-- The stroke of a path that was painted already. -/
theorem Leads.strokeNothing (k : Sketch) (empty : k.path = []) :
    Leads level k [.operator "stroke"] rest k :=
  .operator .stroke rfl (by decide) fun _ sketch => sketch.paintPath_nothing empty .lines

/-- The tokens after the lines close the path or leave it open, and paint it. -/
theorem Leads.last (k : Sketch) (f : Polyline) {p : WrittenPoint}
    (last : k.path.getLast? = some p.lineTo) :
    Leads level k f.lastTokens rest
      { k with
        path := []
        shapes := k.shapes ++ [pathMarkup
          (.drawn (k.path ++ if f.closed then [.close] else [])) k.style f.mode none] } := by
  have drawn : k.path ≠ [] := by
    intro empty
    simp [empty] at last
  rw [Polyline.lastTokens, Polyline.mode]
  cases f.closed with
  | true => exact (Leads.close k last).append (.paint _ f.filled (by simp))
  | false =>
    simp only [Bool.false_eq_true, if_false, List.nil_append, List.append_nil]
    exact .paint k f.filled drawn

/-- **The lines of a figure are painted once and as a whole**, by the look ahead
or by the paint operator. -/
theorem Leads.outline (k : Sketch) (f : Polyline) (path : k.path = [f.start.moveTo]) :
    Leads level k (Polyline.lineTokens (f.second :: f.more) ++ f.lastTokens) rest
      { k with path := [], shapes := k.shapes ++ [f.markup k.style] } := by
  rcases f with ⟨settings, start, second, _ | ⟨third, points⟩, closed, filled, single⟩
  · -- a single line is painted at once, and the stroke finds nothing
    obtain ⟨rfl, rfl⟩ := single rfl
    exact (Leads.singleLine k start second path rfl).append (.strokeNothing _ rfl)
  · -- the first line sees another one ahead, and then the path is too long to be painted early
    have long : 2 ≤ (k.path ++ [second.lineTo]).length := by
      rw [path]
      exact Nat.le_refl 2
    have written : k.path ++ [second.lineTo] ++ (third :: points).map WrittenPoint.lineTo
        = start.moveTo :: (second :: third :: points).map WrittenPoint.lineTo := by
      rw [path]
      rfl
    obtain ⟨p, last⟩ : ∃ p : WrittenPoint,
        (start.moveTo :: (second :: third :: points).map WrittenPoint.lineTo).getLast?
          = some p.lineTo :=
      ⟨(third :: points).getLast (List.cons_ne_nil _ _), by
        simp [List.getLast?_cons, List.getLast_eq_getLastD]⟩
    rw [Polyline.lineTokens_cons, List.append_assoc]
    refine (Leads.lineTo k second (.inr rfl)).append
      ((Leads.lines _ (third :: points) long).append ?_)
    rw [written]
    exact .last _ _ last

/-- **A figure leads to its markup**, and leaves nothing but its style. -/
theorem Leads.polyline (k : Sketch) (f : Polyline) (fresh : k.path = []) :
    Leads level k f.tokens rest
      { k with
        style := f.styled k.style
        shapes := k.shapes ++ [f.markup (f.styled k.style)] } := by
  refine (Leads.settings k f.settings).append ((Leads.moveTo _ f.start).append ?_)
  rw [fresh]
  exact .outline _ f rfl

/-- **Figures lead to their markup**, one after the other. -/
theorem Leads.program (k : Sketch) (figures : List Polyline) (fresh : k.path = []) :
    Leads level k (Polyline.program figures) rest
      { k with
        style := figures.foldl (fun style f => f.styled style) k.style
        shapes := k.shapes ++ Polyline.markups k.style figures } := by
  induction figures generalizing k with
  | nil =>
    rw [Polyline.markups, List.append_nil]
    exact .refl
  | cons f figures ih =>
    have drawn := (Leads.polyline k f fresh).append (ih _ fresh)
    rw [List.append_assoc k.shapes] at drawn
    exact drawn

end Leading

/-- **Polylines are drawn figure by figure.** A program of figures, run on a
fresh machine without limits, ends when its tokens are used up. It leaves no
operand, definition or text, and for every figure one shape, in their order:
the figure's own segments, painted as the figure says in the style set so
far. -/
theorem polylines_drawn_in_order (figures : List Polyline) :
    ∃ m, (∀ fuel, (Polyline.program figures).length < fuel →
        initial.run {} fuel (Polyline.program figures) = some m)
      ∧ m.operands = []
      ∧ m.picture.fragments = ⟨[], Polyline.markups {} figures, []⟩ := by
  have blank : Sketch.Of {} initial :=
    ⟨rfl, fun _ => rfl, rfl, rfl, rfl, rfl, rfl⟩
  have leads : Leads 0 {} (Polyline.program figures) [] _ := .program {} figures rfl
  obtain ⟨m, sketch, ran⟩ := leads initial blank
  have finished := sketch.paintPath_nothing rfl .lines
  refine ⟨m.finish, fun fuel enough => ?_, finished.stack, ?_⟩
  · obtain ⟨extra, rfl⟩ : ∃ extra, fuel = extra + 1 + (Polyline.program figures).length :=
      ⟨fuel - (Polyline.program figures).length - 1, by omega⟩
    -- the last unit of fuel finds that no token is left
    have ended : execute {} (extra + 1) 0 (.ofTokens []) m = some m := execute_of_next_none rfl
    rw [← ran (extra + 1), List.append_nil] at ended
    rw [run, ended, Option.map_some]
  · rw [finish, Picture.fragments, finished.definitions, finished.shapes, finished.texts]
    rfl

/-- A red line, and a wide triangle that is still red. -/
example :
    let figures : List Polyline :=
      [{ settings := [.rgb "1" "0" "0"], start := ⟨"0", "0"⟩, second := ⟨"9", "9"⟩ },
        { settings := [.lineWidth "2"], start := ⟨"0", "0"⟩, second := ⟨"4", "0"⟩,
          more := [⟨"4", "4"⟩], closed := true }]
    tokenize ("1 0 0 setrgbcolor 0 0 moveto 9 9 lineto stroke "
        ++ "2 setlinewidth 0 0 moveto 4 0 lineto 4 4 lineto closepath stroke")
      = Polyline.program figures
    ∧ Polyline.markups {} figures
      = ["<path d=\"M 0 0 L 9 9\" fill=\"none\" stroke=\"rgb(255, 0, 0)\" />",
        "<path d=\"M 0 0 L 4 0 L 4 4 Z\" fill=\"none\" stroke=\"rgb(255, 0, 0)\" "
          ++ "stroke-width=\"2\" />"] := by
  decide +kernel

end Machine

end VectorPage
