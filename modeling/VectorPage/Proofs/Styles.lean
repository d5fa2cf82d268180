/-
Which path elements say what they mean.

A path element is written without escaping, so it is read as it was meant only
if no value in it holds a quote, an angle bracket or an ampersand. Most values
are made here, out of numbers, colours and ids, and hold none. Two are not: the
line cap and the line join may be given as a text, which is kept as it stands,
saved and restored with the graphics state, and written with every line that is
painted under it.

`Restyled` says what a move can do to the style of a graphics state, and
`Traced` where each part of a style comes from. The rest is putting the
two together with what is known of ids.
-/
import VectorPage.Proofs.Placing

set_option autoImplicit false

namespace VectorPage

/-- The part of a graphics state that has texts and paints in it. -/
structure Style where
  fill : Option Paint
  stroke : Option Paint
  lineCap : String
  lineJoin : String
  dash : Option String

def GraphicsState.style (g : GraphicsState) : Style :=
  ⟨g.fill, g.stroke, g.lineCap, g.lineJoin, g.dash⟩

/-- The names of line caps that have a code. -/
def lineCapNames : List String := ["butt", "round", "square"]

/-- The names of line joins that have a code. -/
def lineJoinNames : List String := ["miter", "round", "bevel", "arcs"]

/-- Any code has a cap; all but the first two stand for the last. -/
theorem lineCapName_mem (code : Float) : lineCapName code ∈ lineCapNames := by
  unfold lineCapName
  split
  · decide
  · split <;> decide

/-- Any code has a join; those without one of their own stand for the first. -/
theorem lineJoinName_mem (code : Float) : lineJoinName code ∈ lineJoinNames := by
  unfold lineJoinName
  split
  · decide
  · split
    · decide
    · split <;> decide

/-- The names behind codes are words of letters, so they are clean. -/
theorem isClean_of_styleNames {name : String} (mem : name ∈ lineCapNames ++ lineJoinNames) :
    isClean name = true := by
  have all : ∀ name ∈ lineCapNames ++ lineJoinNames, isClean name = true := by decide
  exact all name mem

namespace Machine

/-! ## What a move does to a style -/

/-- Dashes are numbers and blanks, however they were given. -/
theorem isClean_dashText {v : Option Value} {lengths : String} (h : dashText? v = some lengths) :
    isClean lengths = true := by
  unfold dashText? at h
  split at h
  · cases h
    refine isClean_intercalate (by decide) fun word mem => ?_
    obtain ⟨item, -, rfl⟩ := List.mem_map.mp mem
    exact isClean_numberText _
  · cases h
    exact isClean_numberText _
  · cases h

/-- The operand is a text, as a string or as a name. -/
def IsText (s : String) (v : Option Value) : Prop :=
  v = some (.text s) ∨ v = some (.name s)

/-- A style comes from a code, or it is a text or a name and is taken as it stands. -/
theorem isText_of_styleName {ofCode : Float → String} {v : Option Value} {name : String}
    (h : styleName? ofCode v = some name) : (∃ code, name = ofCode code) ∨ IsText name v := by
  unfold styleName? at h
  split at h
  · rename_i code
    exact .inl ⟨code, (Option.some.inj h).symm⟩
  · cases h
    exact .inr (.inl rfl)
  · cases h
    exact .inr (.inr rfl)
  · cases h

/-- **What an operator can make of a style**, with some operand on top of the
stack. -/
inductive Restyled (op : Operator) (top : Option Value) (old new : Style) : Prop where
  | color (c : Color)
      (is : new = { old with fill := some (.color c), stroke := some (.color c) })
  | pattern (id : String) (is : new = { old with fill := some (.resource id) })
  | unfilled (is : new = { old with fill := some (.keyword "none") })
  | dash (v : Option Value) (is : new = { old with dash := dashText? v })
  | cap (name : String) (sets : op = .setLineCap) (named : styleName? lineCapName top = some name)
      (is : new = { old with lineCap := name })
  | join (name : String) (sets : op = .setLineJoin)
      (named : styleName? lineJoinName top = some name) (is : new = { old with lineJoin := name })

/-- **The style after an operator.** -/
theorem operate_style (m : Machine) (s : TokenStream) {op : Operator}
    (restore : op ≠ .restoreGraphics) :
    (m.operate s op).graphics.style = m.graphics.style
    ∨ Restyled op m.operands.head? m.graphics.style (m.operate s op).graphics.style := by
  cases op with
  | restoreGraphics => exact absurd rfl restore
  | setRgbColor | setGray | setCmykColor =>
    simp only [operate, setRgbColor, setGray, setCmykColor, popNumber_eq]
    exact .inr (.color _ rfl)
  | setDash =>
    simp only [operate, setDash, popNumber_eq, pop_eq]
    exact .inr (.dash _ rfl)
  | setPattern =>
    simp only [operate, setPattern_eq]
    split
    · exact .inr (.pattern _ rfl)
    · exact .inr (.unfilled rfl)
  -- a value that names no cap or join leaves the style alone
  | setLineCap =>
    simp only [operate, setLineCap_eq]
    split
    · rename_i name named
      exact .inr (.cap name rfl named rfl)
    · exact .inl rfl
  | setLineJoin =>
    simp only [operate, setLineJoin_eq]
    split
    · rename_i name named
      exact .inr (.join name rfl named rfl)
    · exact .inl rfl
  | setFont =>
    simp only [operate, setFont_eq]
    split <;> exact .inl rfl
  | lineTo =>
    simp only [operate, lineTo_eq, paintPath_eq]
    split <;> exact .inl rfl
  | clip =>
    simp only [operate, clip_eq]
    split <;> exact .inl rfl
  | _ =>
    refine .inl ?_
    simp only [operate, negate, combine, exchange_eq, duplicate_eq, newDict, beginDict_eq, endDict,
      bindName_eq, saveGraphics, translate, scale, rotate, setLineWidth, moveTo, moveBy, lineBy,
      curveTo, curveBy, closePath_eq, arc, paintPath_eq, shadingFill_eq, findFont, scaleFont,
      showText_eq, pop_eq, popNumber_eq, popPoint_eq, popDisplay_eq] <;> rfl

/-- Restoring brings back a state that was saved. -/
theorem mem_restoreGraphics {m : Machine} (nested : m.ClipsNested) :
    m.restoreGraphics.graphics :: m.restoreGraphics.saved ⊆ m.graphics :: m.saved := by
  rcases saved : m.saved with _ | ⟨g, rest⟩
  · rw [restoreGraphics, saved, saved]
    exact List.Subset.refl _
  · rw [restoreGraphics_of_le saved (nested.length_le saved)]
    exact List.subset_cons_self _ _

section Moves

variable {limits : Limits} {level : Nat} {m m' : Machine}

/-- **Where a style may change**: every state after an operator, current or saved, has
the style of one before it, except that the operator may have changed the current style
in its own field. -/
theorem operate_styles (nested : m.ClipsNested) (s : TokenStream) (op : Operator)
    {g : GraphicsState} (mem : g ∈ (m.operate s op).graphics :: (m.operate s op).saved) :
    (∃ old ∈ m.graphics :: m.saved, g.style = old.style)
    ∨ Restyled op m.operands.head? m.graphics.style g.style := by
  by_cases restore : op = .restoreGraphics
  · subst restore
    exact .inl ⟨g, mem_restoreGraphics nested mem, rfl⟩
  rcases List.mem_cons.mp mem with rfl | saved
  · exact (operate_style m s restore).imp_left fun same => ⟨_, List.mem_cons_self, same⟩
  · exact .inl ⟨g, operate_saved restore saved, rfl⟩

/-- **A style of the machine** was there before the move, or the move executes
an operator that made it. -/
theorem Move.styles (moves : Moves limits level initial m) (move : Move limits level m m')
    {g : GraphicsState} (mem : g ∈ m'.graphics :: m'.saved) :
    (∃ old ∈ m.graphics :: m.saved, g.style = old.style)
    ∨ ∃ op, Executes limits level op m m'
        ∧ Restyled op m.operands.head? m.graphics.style g.style := by
  obtain ⟨-, nested⟩ := Identified.counted_of_moves moves
  cases move with
  | step step =>
    cases step.effect with
    | operate op rest stands result =>
      have executes : Executes limits level op m m' := ⟨_, _, stands, step⟩
      dsimp only at result
      subst result
      exact (operate_styles nested rest op mem).imp_right fun new => ⟨op, executes, new⟩
    | makePattern fuel _ made =>
      obtain ⟨ref, tile, hits, -, -, rfl⟩ | rfl := makePattern_cases made
      · exact .inl ⟨g, mem, rfl⟩
      · exact .inl ⟨g, mem, rfl⟩
    | aside _ result =>
      obtain ⟨graphics, saved, -⟩ := result.drawing_eq
      rw [graphics, saved] at mem
      exact .inl ⟨g, mem, rfl⟩
  | stop => exact .inl ⟨g, mem, rfl⟩
  | finish =>
    rw [Machine.finish, paintPath_eq] at mem
    exact .inl ⟨g, mem, rfl⟩

/-! ## Where a style comes from -/

/-- **An operator was given a text** in a life that leads to the machine. -/
def Given (limits : Limits) (level : Nat) (m : Machine) (op : Operator) (s : String) : Prop :=
  Happened limits level m fun before after =>
    Executes limits level op before after ∧ IsText s before.operands.head?

/-- **Where the parts of a style come from.** Areas have the paint of the start,
none, a colour or a pattern; lines have a colour if any paint at all; dashes are
numbers. Caps and joins have one of the names that have a code, or a text that
the operator was given. -/
structure Traced (limits : Limits) (level : Nat) (m : Machine) (style : Style) : Prop where
  fill : ∀ word, style.fill = some (.keyword word) → word = "black" ∨ word = "none"
  stroke : ∀ paint, style.stroke = some paint → ∃ c, paint = .color c
  dash : ∀ lengths, style.dash = some lengths → isClean lengths = true
  cap : style.lineCap ∈ lineCapNames ∨ Given limits level m .setLineCap style.lineCap
  join : style.lineJoin ∈ lineJoinNames ∨ Given limits level m .setLineJoin style.lineJoin

/-- What is known of where a style comes from stays known: a life goes on, and what
happened in it stays. -/
theorem Traced.later {style : Style} (h : Traced limits level m style)
    (move : Move limits level m m') : Traced limits level m' style where
  fill := h.fill
  stroke := h.stroke
  dash := h.dash
  cap := h.cap.imp_right fun given => given.later move
  join := h.join.imp_right fun given => given.later move

/-- **What an operator makes of a traced style is traced.** -/
theorem Restyled.traced (moves : Moves limits level initial m) {op : Operator}
    (executes : Executes limits level op m m') {style : Style}
    (h : Restyled op m.operands.head? m.graphics.style style)
    (before : Traced limits level m m.graphics.style) :
    Traced limits level m' style := by
  have after := before.later executes.move
  cases h with
  | color c is =>
    subst is
    exact { after with
      fill := nofun
      stroke := fun _ set => ⟨c, (Option.some.inj set).symm⟩ }
  | pattern id is =>
    subst is
    exact { after with fill := nofun }
  | unfilled is =>
    subst is
    exact { after with fill := fun word set => .inr (Paint.keyword.inj (Option.some.inj set)).symm }
  | dash v is =>
    subst is
    exact { after with dash := fun _ set => isClean_dashText set }
  | cap name sets named is =>
    subst is sets
    refine { after with cap := ?_ }
    rcases isText_of_styleName named with ⟨code, rfl⟩ | text
    · exact .inl (lineCapName_mem code)
    · exact .inr (.now moves executes.move ⟨executes, text⟩)
  | join name sets named is =>
    subst is sets
    refine { after with join := ?_ }
    rcases isText_of_styleName named with ⟨code, rfl⟩ | text
    · exact .inl (lineJoinName_mem code)
    · exact .inr (.now moves executes.move ⟨executes, text⟩)

/-- **Every style can be traced back**, in the current state and in every saved one. The
induction is over the life of the machine; saved states have to be part of it, since any
of them may become the current one. -/
theorem traced_of_moves (moves : Moves limits level initial m) :
    ∀ g ∈ m.graphics :: m.saved, Traced limits level m g.style := by
  induction moves with
  | refl =>
    intro g mem
    obtain rfl := List.mem_singleton.mp mem
    have black : ∀ word, initial.graphics.style.fill = some (.keyword word) → word = "black" :=
      fun word set => (Paint.keyword.inj (Option.some.inj set)).symm
    exact ⟨fun word set => .inl (black word set), nofun, nofun, .inl (by decide), .inl (by decide)⟩
  | @tail m m' moves move ih =>
    intro g mem
    rcases move.styles moves mem with ⟨old, mem, same⟩ | ⟨op, executes, new⟩
    · rw [same]
      exact (ih old mem).later move
    · exact new.traced moves executes (ih _ List.mem_cons_self)

/-! ## Plain ids -/

/-- An id is a word and a number, so nothing in it needs escaping. -/
theorem isPlain_id {word : String} (mem : word ∈ ["clip", "grad", "pattern"]) (n : Nat) :
    isPlain (word ++ Nat.repr n) = true := by
  have words : ∀ word ∈ ["clip", "grad", "pattern"], isPlain word = true := by decide
  rw [isPlain_append, words word mem, isPlain_repr]
  rfl

/-- **Ids of definitions are plain.** -/
theorem Identified.isPlain_id (identified : m.Identified) {d : Definition}
    (mem : d ∈ m.picture.definitions.toList) : isPlain d.id = true := by
  obtain ⟨n, -, named⟩ := identified.numbered.below d mem
  rw [named]
  exact Machine.isPlain_id (by cases d <;> simp [Definition.word]) n

/-- So are those that a machine holds, defined or not. -/
theorem Holds.isPlain (moves : Moves limits level initial m) {id : String} (h : m.Holds id) :
    isPlain id = true := by
  rcases h.defined moves with ⟨d, mem, rfl, -⟩ | ⟨before, -, -, -, -, -, -, -, -, rfl, -⟩
  · exact (Identified.of_moves moves).1.isPlain_id mem
  · exact isPlain_id (by simp) _

/-! ## Elements -/

/-- Lines are painted in a colour or not at all, and both are written in clean
characters. -/
theorem Traced.isClean_linePaint {g : GraphicsState} (h : Traced limits level m g.style) :
    isClean g.linePaint.text = true := by
  rw [GraphicsState.linePaint]
  cases set : g.stroke with
  | none => decide
  | some paint =>
    obtain ⟨c, rfl⟩ := h.stroke paint set
    exact c.isClean_text

/-- Areas may be painted with a pattern as well; then the id that is referred to has to
be plain. -/
theorem Traced.isPlain_areaPaint {g : GraphicsState} (h : Traced limits level m g.style)
    (referred : ∀ id, g.fill = some (.resource id) → isPlain id = true) :
    isPlain g.areaPaint.text = true := by
  rw [GraphicsState.areaPaint]
  cases set : g.fill with
  | none => decide
  | some paint =>
    cases paint with
    | color c => exact c.isPlain_text
    | resource id => exact isPlain_resourceText (referred id set)
    | keyword word => rcases h.fill word set with rfl | rfl <;> decide

/-- **The paint of areas is written in plain characters**, whatever set it. -/
theorem isPlain_areaPaint_of_moves (moves : Moves limits level initial m) :
    isPlain m.graphics.areaPaint.text = true := by
  have traced := traced_of_moves moves m.graphics List.mem_cons_self
  refine traced.isPlain_areaPaint fun id set => ?_
  have held : m.Holds id := .paint m.graphics List.mem_cons_self set
  exact held.isPlain moves

/-- The paint of an area, be it that of the state or a gradient given by its id, is
clean in every machine. -/
theorem isClean_fillPaint_of_moves (moves : Moves limits level initial m) {mode : PaintMode}
    {ref : Option String} (named : ∀ id ∈ ref, isPlain id = true) :
    isClean (fillPaint m.graphics mode ref).text = true := by
  cases ref with
  | some id => exact isClean_of_isPlain (isPlain_resourceText (named id rfl))
  | none =>
    simp only [fillPaint]
    split
    · exact isClean_of_isPlain (isPlain_areaPaint_of_moves moves)
    · decide

/-- **Every attribute of a path that the machine paints is clean**, but for a cap
or a join that was given as a text. -/
theorem isClean_of_source (moves : Moves limits level initial m) {segments : List Segment}
    {mode : PaintMode} {ref : Option String} (named : ∀ id ∈ ref, isPlain id = true)
    {a : String × String} (h : PathElement.Source (.drawn segments) m.graphics mode ref a) :
    isClean a.2 = true
    ∨ a = ("stroke-linecap", m.graphics.lineCap)
      ∧ Given limits level m .setLineCap m.graphics.lineCap
    ∨ a = ("stroke-linejoin", m.graphics.lineJoin)
      ∧ Given limits level m .setLineJoin m.graphics.lineJoin := by
  have traced := traced_of_moves moves m.graphics List.mem_cons_self
  have identified := (Identified.of_moves moves).1
  cases h with
  | transform => exact .inl (isClean_transformText _)
  -- a clip in force is defined, and identifiers of definitions are plain
  | @clip layer inForce =>
    have defined : layer.definition ∈ m.picture.definitions.toList :=
      identified.defined layer (List.mem_append_left _ inForce)
    have plain : isPlain layer.id = true := identified.isPlain_id defined
    exact .inl (isClean_of_isPlain (isPlain_resourceText plain))
  | data => exact .inl (isClean_segmentsText segments)
  | fill => exact .inl (isClean_fillPaint_of_moves moves named)
  | stroke => exact .inl traced.isClean_linePaint
  | noStroke => exact .inl (by decide)
  | width => exact .inl (isClean_numberText _)
  | cap =>
    rcases traced.cap with named | given
    · exact .inl (isClean_of_styleNames (List.mem_append_left _ named))
    · exact .inr (.inl ⟨rfl, given⟩)
  | join =>
    rcases traced.join with named | given
    · exact .inl (isClean_of_styleNames (List.mem_append_right _ named))
    · exact .inr (.inr ⟨rfl, given⟩)
  | dash dashed => exact .inl (traced.dash _ dashed)

/-- **What is known of a path in the picture of a machine**: its markup is read as
its element if and only if all values are clean, and a value that is not is a
line cap or a line join that the operator for it was given as a text, in a life that
leads to the machine. -/
structure Legible (limits : Limits) (level : Nat) (m : Machine) (data : PathData)
    (look : GraphicsState) (mode : PaintMode) (ref : Option String) : Prop where
  read : readPathElement? (pathMarkup data look mode ref) = some (pathElement data look mode ref)
    ↔ ∀ a ∈ (pathElement data look mode ref).allAttributes, isClean a.2 = true
  clean : ∀ a ∈ (pathElement data look mode ref).allAttributes, isClean a.2 = true
    ∨ a = ("stroke-linecap", look.lineCap) ∧ Given limits level m .setLineCap look.lineCap
    ∨ a = ("stroke-linejoin", look.lineJoin) ∧ Given limits level m .setLineJoin look.lineJoin

/-- **Every path in a picture is legible.** It was painted at some moment, and what it
carries is what was known of styles and ids at that moment. -/
theorem legible_of_moves (moves : Moves limits level initial m) {data : PathData}
    {look : GraphicsState} {mode : PaintMode} {ref : Option String}
    (here : .path data look mode ref ∈ m.picture.shapes.toList) :
    Legible limits level m data look mode ref := by
  refine ⟨read_pathMarkup_iff, fun a mem => ?_⟩
  -- what is written now was decided when the path was painted
  obtain ⟨before, after, earlier, move, since, painted⟩ := painted_of_moves moves rfl here
  have known : isClean a.2 = true
      ∨ a = ("stroke-linecap", look.lineCap) ∧ Given limits level before .setLineCap look.lineCap
      ∨ a = ("stroke-linejoin", look.lineJoin)
        ∧ Given limits level before .setLineJoin look.lineJoin := by
    cases painted.paints with
    | path mode => exact isClean_of_source earlier (by simp) (pathElement_source mem)
    | line => exact isClean_of_source earlier (by simp) (pathElement_source mem)
    | shading gradient outline =>
      refine isClean_of_source earlier (fun id named => ?_) (pathElement_source mem)
      obtain rfl := Option.some.inj named
      exact isPlain_id (by simp) _
  have now : Moves limits level before m := .head move since
  rcases known with clean | ⟨is, given⟩ | ⟨is, given⟩
  · exact .inl clean
  · exact .inr (.inl ⟨is, given.since now⟩)
  · exact .inr (.inr ⟨is, given.since now⟩)

/-- **Path elements are read as they are meant**, unless a line cap or a line
join spoils them. In every reachable machine, and for every path of its
picture: the markup is read as one path element, alone or in one group, with
exactly the attributes that were meant, if and only if no value holds a quote,
an opening angle bracket or an ampersand; and a value that does is that of a
line cap or a line join, and was given as a text to the operator that sets it,
in a life that leads to the machine. The paths of a tile are those of the machine
that painted it, of which the same is true. -/
theorem paths_read_as_meant (reachable : Reachable limits level m) :
    (∀ data look mode ref, .path data look mode ref ∈ m.picture.shapes.toList →
      Legible limits level m data look mode ref)
    ∧ ∀ d ∈ m.picture.definitions.toList, ∀ data look mode ref,
        .path data look mode ref ∈ d.tile →
        ∃ body painted, PaintedBy limits level m d body painted
          ∧ Legible limits (level + 1) painted.finish data look mode ref := by
  refine ⟨fun data look mode ref here => legible_of_moves reachable.moves here, ?_⟩
  intro d mem data look mode ref here
  obtain ⟨body, painted, history⟩ :=
    paintedBy_of_moves reachable.moves mem (List.ne_nil_of_mem here)
  refine ⟨body, painted, history, legible_of_moves history.reachable.moves ?_⟩
  rw [history.tile_eq] at here
  exact (List.mem_filter.mp here).1

/-- A pattern whose tile is a line with a join given as a text, and an area filled
with it whose outline is dashed and has its cap from a code. -/
theorem paths_read_as_meant_pattern :
    ∃ m : Machine, Reachable {} 0 m
      ∧ m.picture.fragments.shapes
        = ["<path d=\"M 0 0 L 5 5 L 5 0\" fill=\"url(#pattern0)\" stroke=\"none\" />",
          "<path d=\"M 0 0 l 9 0\" fill=\"none\" stroke=\"black\" stroke-linecap=\"round\" "
            ++ "stroke-dasharray=\"3 4\" />"]
      ∧ m.picture.definitions.toList.map (fun d => d.tile.map Shape.markup)
        = [["<path d=\"M 0 0 l 1 1\" fill=\"none\" stroke=\"black\" stroke-linejoin=\"a<b\" />"]]
      ∧ (∀ data look mode ref, .path data look mode ref ∈ m.picture.shapes.toList →
          Legible {} 0 m data look mode ref)
      ∧ ∀ d ∈ m.picture.definitions.toList, ∀ data look mode ref,
          .path data look mode ref ∈ d.tile →
          ∃ body painted, PaintedBy {} 0 m d body painted
            ∧ Legible {} 1 painted.finish data look mode ref := by
  have ran : (initial.run {} 60 [.openDict, .name "PaintProc", .openBrace, .string "a<b",
      .operator "setlinejoin", .number "0", .number "0", .operator "moveto", .number "1",
      .number "1", .operator "rlineto", .operator "stroke", .closeBrace, .closeDict,
      .operator "makepattern", .operator "setpattern", .number "0", .number "0",
      .operator "moveto", .number "5", .number "5", .operator "lineto", .number "5", .number "0",
      .operator "lineto", .operator "fill", .number "1", .operator "setlinecap", .openBracket,
      .number "3", .number "4", .closeBracket, .number "0", .operator "setdash", .number "0",
      .number "0", .operator "moveto", .number "9", .number "0", .operator "rlineto"]).map
        (fun m => (m.picture.fragments.shapes,
          m.picture.definitions.toList.map fun d => d.tile.map Shape.markup))
      = some (["<path d=\"M 0 0 L 5 5 L 5 0\" fill=\"url(#pattern0)\" stroke=\"none\" />",
          "<path d=\"M 0 0 l 9 0\" fill=\"none\" stroke=\"black\" stroke-linecap=\"round\" "
            ++ "stroke-dasharray=\"3 4\" />"],
        [["<path d=\"M 0 0 l 1 1\" fill=\"none\" stroke=\"black\" stroke-linejoin=\"a<b\" />"]])
      := by decide +kernel
  obtain ⟨m, ran, facts⟩ := Option.map_eq_some_iff.mp ran
  obtain ⟨shapes, tiles⟩ := Prod.mk.inj facts
  have reachable := Reachable.of_run ran
  exact ⟨m, reachable, shapes, tiles, paths_read_as_meant reachable⟩

/-- **A line cap can say anything.** Given as a text with a quote in it, it ends
its attribute: what follows is an element of its own, or one more attribute of
the path. -/
theorem line_cap_ends_its_attribute :
    (initial.run {} 20 [.string "\"/><script x=\"", .operator "setlinecap", .number "0",
        .number "0", .operator "moveto", .number "5", .number "5", .operator "lineto",
        .operator "stroke"]).map (·.picture.fragments.shapes)
      = some ["<path d=\"M 0 0 L 5 5\" fill=\"none\" stroke=\"black\" stroke-linecap=\"\"/>"
          ++ "<script x=\"\" />"]
    ∧ readPathElement? ("<path d=\"M 0 0 L 5 5\" fill=\"none\" stroke=\"black\" "
          ++ "stroke-linecap=\"\"/><script x=\"\" />") = none
    ∧ (initial.run {} 20 [.string "round\" onload=\"x", .operator "setlinecap", .number "0",
        .number "0", .operator "moveto", .number "5", .number "5", .operator "lineto",
        .operator "stroke"]).map (fun m => m.picture.fragments.shapes.map readPathElement?)
      = some [some ⟨none, [("d", "M 0 0 L 5 5"), ("fill", "none"), ("stroke", "black"),
          ("stroke-linecap", "round"), ("onload", "x")]⟩] := by
  refine ⟨?_, ?_, ?_⟩ <;> decide +kernel

end Moves

end Machine

end VectorPage
