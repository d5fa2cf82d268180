/-
Ids are unique, and clips and gradients are defined before they are used.

One counter numbers clips, gradients and patterns alike, and a number is never
given out twice. An id is a word and such a number, the words have no digit in
them, so the number can be read off the id and ids are as distinct as numbers
are. What is left to show is that every id in use has its definition. Clips
are held by graphics states, saved ones included, and can come back into force
long after they were defined; but definitions are never taken back, so it is
enough that a clip is defined at the moment at which it is added.

A shape refers to its definitions from the moment it is drawn. So the last
part is about moments: `DrawnOn` names the picture to which a shape was added.
-/
import Mathlib.Data.List.Nodup
import VectorPage.Proofs.Drawing

set_option autoImplicit false

namespace VectorPage

/-! ## Ids and numbers -/

/-- The word with which ids of this kind of definition begin. -/
def Definition.word : Definition → String
  | clipPath .. => "clip"
  | linearGradient .. | radialGradient .. => "grad"
  | pattern .. => "pattern"

/-- Both kinds of gradient are counted under one word. -/
theorem Definition.word_of_isGradient {d : Definition} (h : d.isGradient = true) :
    d.word = "grad" :=
  gradient_cases h (fun _ _ _ _ _ _ _ => rfl) fun _ _ _ => rfl

/-- A word without digits, told by a test. -/
theorem isDigit_of_all {word : String} (digitless : word.toList.all (!·.isDigit) = true) :
    ∀ c ∈ word.toList, c.isDigit = false := by
  intro c mem
  simpa using List.all_eq_true.mp digitless c mem

/-- The words of ids have no digits, so word and number can be told apart. -/
theorem Definition.isDigit_of_mem_word (d : Definition) :
    ∀ c ∈ d.word.toList, c.isDigit = false := by
  have digitless : ∀ word ∈ ["clip", "grad", "pattern"],
      word.toList.all (!·.isDigit) = true := by decide +kernel
  exact isDigit_of_all (digitless d.word (by cases d <;> simp [word]))

/-- The digits of an id are what begins with the first digit. -/
theorem dropWhile_append_repr {word : String} (digitless : ∀ c ∈ word.toList, c.isDigit = false)
    (n : Nat) : (word ++ Nat.repr n).toList.dropWhile (!·.isDigit) = Nat.toDigits 10 n := by
  rw [String.toList_append, List.dropWhile_append_of_pos (by simpa using digitless),
    Nat.repr_eq_ofList_toDigits, String.toList_ofList]
  rcases digits : Nat.toDigits 10 n with _ | ⟨c, rest⟩
  · rfl
  · have digit : c.isDigit = true :=
      Nat.isDigit_of_mem_toDigits (by decide) (by decide) (digits ▸ List.mem_cons_self)
    rw [List.dropWhile_cons_of_neg (by simp [digit])]

/-- **Two ids are the same only if their numbers are.** -/
theorem eq_of_append_repr_eq {word word' : String}
    (digitless : ∀ c ∈ word.toList, c.isDigit = false)
    (digitless' : ∀ c ∈ word'.toList, c.isDigit = false) {n n' : Nat}
    (same : word ++ Nat.repr n = word' ++ Nat.repr n') : n = n' := by
  have digits : Nat.toDigits 10 n = Nat.toDigits 10 n' := by
    rw [← dropWhile_append_repr digitless, same, dropWhile_append_repr digitless']
  calc n = Nat.ofDigitChars 10 (Nat.toDigits 10 n) 0 := Nat.ofDigitChars_ten_toDigits.symm
    _ = Nat.ofDigitChars 10 (Nat.toDigits 10 n') 0 := by rw [digits]
    _ = n' := Nat.ofDigitChars_ten_toDigits

/-- **The definitions are numbered below a bound**: their ids are distinct, and
each is the word of its kind with a number below the bound. -/
structure Numbered (definitions : List Definition) (bound : Nat) : Prop where
  distinct : (definitions.map Definition.id).Nodup
  below : ∀ d ∈ definitions, ∃ n < bound, d.id = d.word ++ Nat.repr n

namespace Numbered

variable {definitions : List Definition} {bound : Nat}

/-- What is numbered below a bound is numbered below a greater one. -/
theorem mono {bound' : Nat} (h : Numbered definitions bound) (le : bound ≤ bound') :
    Numbered definitions bound' := by
  refine ⟨h.distinct, fun d mem => ?_⟩
  obtain ⟨n, lt, named⟩ := h.below d mem
  exact ⟨n, Nat.lt_of_lt_of_le lt le, named⟩

/-- **A definition under a fresh id** can be added. -/
theorem concat (h : Numbered definitions bound) {d : Definition}
    (fresh : d.id = d.word ++ Nat.repr bound) : Numbered (definitions ++ [d]) (bound + 1) := by
  constructor
  · rw [List.map_append, List.map_singleton, List.nodup_append]
    refine ⟨h.distinct, List.nodup_singleton _, ?_⟩
    intro id mem id' mem' same
    obtain rfl := List.mem_singleton.mp mem'
    obtain ⟨e, memE, rfl⟩ := List.mem_map.mp mem
    obtain ⟨n, lt, named⟩ := h.below e memE
    -- the id of an older definition has a smaller number
    have sameNumber : n = bound := by
      refine eq_of_append_repr_eq e.isDigit_of_mem_word d.isDigit_of_mem_word ?_
      rw [← named, ← fresh, same]
    omega
  · intro e mem
    rcases List.mem_append.mp mem with old | new
    · exact (h.mono (Nat.le_succ bound)).below e old
    · obtain rfl := List.mem_singleton.mp new
      exact ⟨bound, Nat.lt_succ_self bound, fresh⟩

/-- Only one definition has the id of a definition. -/
theorem filter_id (h : Numbered definitions bound) {d : Definition} (mem : d ∈ definitions) :
    definitions.filter (fun e => e.id = d.id) = [d] := by
  have distinct := h.distinct
  clear h
  induction definitions with
  | nil => cases mem
  | cons e rest ih =>
    rw [List.map_cons, List.nodup_cons] at distinct
    rcases List.mem_cons.mp mem with rfl | later
    · have others : rest.filter (fun e => e.id = d.id) = [] := by
        rw [List.filter_eq_nil_iff]
        intro e memE same
        exact distinct.1 (List.mem_map.mpr ⟨e, memE, by simpa using same⟩)
      rw [List.filter_cons_of_pos (by simp), others]
    · have other : e.id ≠ d.id := fun same =>
        distinct.1 (List.mem_map.mpr ⟨d, later, same.symm⟩)
      rw [List.filter_cons_of_neg (by simpa using other), ih later distinct.2]

end Numbered

/-! ## Clips -/

/-- The definition of a clip. -/
def ClipLayer.definition (layer : ClipLayer) : Definition :=
  .clipPath layer.id layer.data

/-- **The picture has the definitions that a path refers to** when it is
painted under a graphics state: those of the clips in force, and that of the
gradient if it is filled with one. -/
structure Picture.DefinesFor (canvas : Picture) (look : GraphicsState) (ref : Option String) :
    Prop where
  clips : ∀ layer ∈ look.clips, layer.definition ∈ canvas.definitions.toList
  gradient : ∀ id ∈ ref, ∃ d ∈ canvas.definitions.toList, d.id = id ∧ d.isGradient = true

/-- The shape drawn last tells which canvas it was drawn on. -/
theorem Picture.eq_of_draw_eq {p p' : Picture} {shape : Shape}
    (same : p.draw shape = p'.draw shape) : p = p' := by
  obtain ⟨definitions, shapes, texts⟩ := p
  obtain ⟨definitions', shapes', texts'⟩ := p'
  simp only [Picture.draw, Picture.mk.injEq, Array.push_eq_push, true_and] at same
  obtain ⟨rfl, rfl, rfl⟩ := same
  rfl

namespace Machine

/-- The clips of the current graphics state and of all saved ones. -/
def layers (m : Machine) : List ClipLayer :=
  (m.graphics :: m.saved).flatMap GraphicsState.clips

/-- **The picture has the definitions it should have**: numbered below the next
id, and one for every clip. -/
structure Identified (m : Machine) : Prop where
  numbered : Numbered m.picture.definitions.toList m.nextId
  defined : ∀ layer ∈ m.layers, layer.definition ∈ m.picture.definitions.toList

section Invariant

variable {limits : Limits} {level : Nat} {m m' : Machine}

/-- The layers of all states together depend on clips and saved states only. -/
theorem SameLayers.layers_eq (h : SameLayers m m') : m'.layers = m.layers := by
  rw [layers, layers, List.flatMap_cons, List.flatMap_cons, h.clips, h.saved]

/-- Restoring brings no clip that was not there. -/
theorem restoreGraphics_page (nested : m.ClipsNested) :
    m.restoreGraphics.layers ⊆ m.layers ∧ SamePicture m m.restoreGraphics := by
  rcases saved : m.saved with _ | ⟨g, rest⟩
  · have same : m.restoreGraphics = m := by simp only [restoreGraphics, saved]
    rw [same]
    exact ⟨List.Subset.refl _, rfl, rfl⟩
  · rw [restoreGraphics_of_le saved (nested.length_le saved)]
    refine ⟨fun layer mem => ?_, rfl, rfl⟩
    have saved' : layer ∈ m.saved.flatMap GraphicsState.clips := by
      rw [saved]
      exact mem
    exact List.mem_append_right _ saved'

/-- **A move defines at most one thing**, under a fresh id, and takes no
definition back. -/
theorem PageMove.definitions (nested : m.ClipsNested) (page : PageMove limits level m m') :
    m'.picture.definitions.toList = m.picture.definitions.toList ∧ m.nextId ≤ m'.nextId
    ∨ ∃ d : Definition, m'.picture.definitions.toList = m.picture.definitions.toList ++ [d]
        ∧ d.id = d.word ++ Nat.repr m.nextId ∧ m'.nextId = m.nextId + 1 := by
  cases page with
  | quiet _ definitions _ _ _ nextId => exact .inl ⟨by rw [definitions], nextId⟩
  | save _ _ picture nextId => exact .inl ⟨by rw [picture], nextId.ge⟩
  | restore restored =>
    obtain ⟨-, picture, nextId⟩ := restoreGraphics_page nested
    exact .inl ⟨by rw [restored, picture], by rw [restored, nextId]⟩
  | paint _ _ _ picture nextId => exact .inl ⟨by rw [picture]; rfl, nextId.ge⟩
  | clip data _ _ picture nextId =>
    refine .inr ⟨.clipPath (m.freshId "clip").1 data, ?_, rfl, nextId⟩
    rw [picture, Picture.define, Array.toList_push]
  | shade gradient _ id kind _ picture nextId =>
    refine .inr ⟨gradient, ?_, ?_, nextId⟩
    · rw [picture, Picture.draw, Picture.define, Array.toList_push]
    · rw [id, Definition.word_of_isGradient kind]
      rfl
  | pattern ref tile hits _ _ result =>
    subst result
    cases tile with
    -- the number of a pattern that could not be painted is used up all the same
    | none => exact .inl ⟨rfl, Nat.le_succ _⟩
    | some tile =>
      refine .inr ⟨patternDefinition m.heap ref (m.freshId "pattern").1 tile, ?_, rfl, rfl⟩
      rw [withPattern, Picture.define, Array.toList_push]

/-- **Nothing is ever undefined**: definitions are added and stay. -/
theorem PageMove.definitions_subset (nested : m.ClipsNested) (page : PageMove limits level m m') :
    m.picture.definitions.toList ⊆ m'.picture.definitions.toList := by
  rcases page.definitions nested with ⟨same, -⟩ | ⟨d, more, -⟩
  · exact same ▸ List.Subset.refl _
  · exact more ▸ List.subset_append_left _ _

/-- **A clip in force after a move** was so before, or the move has defined
it. -/
theorem PageMove.layers (nested : m.ClipsNested) (page : PageMove limits level m m')
    {layer : ClipLayer} (mem : layer ∈ m'.layers) :
    layer ∈ m.layers ∨ layer.definition ∈ m'.picture.definitions.toList := by
  cases page with
  | quiet layers => exact .inl (layers.layers_eq ▸ mem)
  | save graphics saved =>
    rw [Machine.layers, graphics, saved, List.flatMap_cons] at mem
    exact .inl ((List.mem_append.mp mem).elim (List.mem_append_left _) id)
  | restore restored =>
    rw [restored] at mem
    exact .inl ((restoreGraphics_page nested).1 mem)
  | paint _ _ layers => exact .inl (layers.layers_eq ▸ mem)
  | clip data clips saved picture =>
    rw [Machine.layers, List.flatMap_cons, clips, saved, List.cons_append] at mem
    rcases List.mem_cons.mp mem with rfl | old
    · exact .inr (by simp [picture, Picture.define, ClipLayer.definition])
    · exact .inl old
  | shade _ _ _ _ layers => exact .inl (layers.layers_eq ▸ mem)
  | pattern ref tile hits _ _ result =>
    subst result
    exact .inl mem

/-- A move keeps ids apart and references defined, since a fresh id is greater than all
in use and what is drawn refers to what is there. -/
theorem Identified.page (h : m.Identified) (nested : m.ClipsNested)
    (page : PageMove limits level m m') : m'.Identified := by
  constructor
  · rcases page.definitions nested with ⟨same, le⟩ | ⟨d, more, fresh, next⟩
    · rw [same]
      exact h.numbered.mono le
    · rw [more, next]
      exact h.numbered.concat fresh
  · intro layer mem
    rcases page.layers nested mem with old | new
    · exact page.definitions_subset nested (h.defined layer old)
    · exact new

/-- **In every life ids are distinct and references are defined.** That clips are nested
goes along with it: then restoring a state defines no clip anew. -/
theorem Identified.of_moves (h : Moves limits level initial m) : m.Identified ∧ m.ClipsNested := by
  induction h with
  | refl =>
    refine ⟨⟨⟨List.nodup_nil, ?_⟩, ?_⟩, .singleton _⟩
    · intro d mem
      cases mem
    · intro layer mem
      cases mem
  | @tail m _ _ move ih =>
    obtain ⟨identified, nested⟩ := ih
    have identified' : m.counted.Identified := ⟨identified.numbered, identified.defined⟩
    have nested' : m.counted.ClipsNested := nested.of_same ⟨rfl, rfl⟩
    exact ⟨identified'.page nested' move.page, ClipsNested.of_move nested move⟩

/-- The same holds while a token is executed that is counted already. -/
theorem Identified.counted_of_moves (h : Moves limits level initial m) :
    m.counted.Identified ∧ m.counted.ClipsNested := by
  obtain ⟨identified, nested⟩ := of_moves h
  exact ⟨⟨identified.numbered, identified.defined⟩, nested.of_same ⟨rfl, rfl⟩⟩

end Invariant

/-! ## The moment of drawing -/

section Moments

variable {limits : Limits} {level : Nat} {m m' : Machine}

/-- **A shape was added to a canvas** as the `i`th: at some moment in a life of
the machine there were `i` shapes, and the move made then left the canvas with
those and this one on it. Defining and drawing commute, so what a canvas has
defined when it is drawn on is told at the grain of one operator: a shading
defines its gradient and draws with it in the same move. -/
def DrawnOn (limits : Limits) (level : Nat) (m : Machine) (i : Nat) (shape : Shape)
    (canvas : Picture) : Prop :=
  Happened limits level m fun before after =>
    before.picture.shapes.size = i ∧ canvas.shapes.size = i ∧ after.picture = canvas.draw shape

/-- **A path painted in a move** is painted on a canvas that has its
definitions, and is the last shape; every other path was there before. -/
theorem Identified.paths (h : m.Identified) (nested : m.ClipsNested)
    (page : PageMove limits level m m') {i : Nat} {data : PathData} {look : GraphicsState}
    {mode : PaintMode} {ref : Option String}
    (here : m'.picture.shapes[i]? = some (.path data look mode ref)) :
    m.picture.shapes[i]? = some (.path data look mode ref)
    ∨ m.picture.shapes.size = i ∧ ∃ canvas : Picture, canvas.shapes.size = i
        ∧ m'.picture = canvas.draw (.path data look mode ref) ∧ canvas.DefinesFor look ref := by
  cases page with
  | quiet _ _ extra pathless shapes _ =>
    rw [← Array.getElem?_toList, shapes] at here
    by_cases old : i < m.picture.shapes.toList.length
    · rw [List.getElem?_append_left old, Array.getElem?_toList] at here
      exact .inl here
    -- what is added is no path
    · rw [List.getElem?_append_right (Nat.le_of_not_lt old)] at here
      exact absurd (pathless _ (List.mem_of_getElem? here)) (by simp [Shape.isPath])
  | save _ _ picture _ =>
    rw [picture] at here
    exact .inl here
  | restore restored =>
    rw [restored, (restoreGraphics_page nested).2.picture] at here
    exact .inl here
  | paint data' mode' _ picture _ =>
    rw [picture, Picture.draw, Array.getElem?_push] at here
    split at here
    · rename_i last
      cases here
      refine .inr ⟨last.symm, m.picture, last.symm, picture, ?_, ?_⟩
      · exact fun layer mem => h.defined layer (List.mem_append_left _ mem)
      · intro id mem
        cases mem
    · exact .inl here
  | clip _ _ _ picture _ =>
    rw [picture] at here
    exact .inl here
  | shade gradient outline id kind _ picture _ =>
    rw [picture, Picture.draw, Array.getElem?_push] at here
    split at here
    · rename_i last
      cases here
      -- the outline is drawn when the gradient is already defined
      refine .inr ⟨last.symm, m.picture.define gradient, last.symm, picture, ?_, ?_⟩
      · intro layer mem
        rw [Picture.define, Array.toList_push]
        exact List.mem_append_left _ (h.defined layer (List.mem_append_left _ mem))
      · rintro _ ⟨⟩
        exact ⟨gradient, by simp [Picture.define], id, kind⟩
    · exact .inl here
  | pattern ref' tile hits _ _ result =>
    subst result
    cases tile with
    | none => exact .inl here
    | some tile => exact .inl here

/-- Every path of the picture was painted at some moment. -/
theorem drawnOn_of_moves (h : Moves limits level initial m) {i : Nat} {data : PathData}
    {look : GraphicsState} {mode : PaintMode} {ref : Option String}
    (here : m.picture.shapes[i]? = some (.path data look mode ref)) :
    ∃ canvas : Picture, DrawnOn limits level m i (.path data look mode ref) canvas := by
  induction h with
  | refl => simp [initial] at here
  | @tail m m' moves move ih =>
    obtain ⟨identified, nested⟩ := Identified.counted_of_moves moves
    rcases identified.paths nested move.page here with old | ⟨last, canvas, size, drawn, -⟩
    · obtain ⟨canvas, drawn⟩ := ih old
      exact ⟨canvas, drawn.later move⟩
    · exact ⟨canvas, .now moves move ⟨last, size, drawn⟩⟩

/-- At every such moment the canvas had its definitions. -/
theorem DrawnOn.definesFor {i : Nat} {data : PathData} {look : GraphicsState} {mode : PaintMode}
    {ref : Option String} {canvas : Picture}
    (h : DrawnOn limits level m i (.path data look mode ref) canvas) :
    canvas.DefinesFor look ref := by
  obtain ⟨before, after, moves, move, -, size, last, drawn⟩ := h
  obtain ⟨identified, nested⟩ := Identified.counted_of_moves moves
  have here : after.picture.shapes[i]? = some (.path data look mode ref) := by
    rw [drawn, Picture.draw, Array.getElem?_push, if_pos last.symm]
  rcases identified.paths nested move.page here with old | ⟨-, canvas', -, drawn', defined⟩
  -- before the move there was no such shape yet
  · have beyond : before.picture.shapes[i]? = none := Array.getElem?_eq_none size.le
    exact absurd (beyond.symm.trans old) (by simp)
  · rwa [Picture.eq_of_draw_eq (drawn.symm.trans drawn')]

/-- **Ids are unique, and definitions come before their use.** In every
reachable machine the ids of the definitions are distinct, and each is the
word of its kind with a number below the next one. Every clip of the current
graphics state and of the saved ones has one definition under its id, which is
that of a clip to its path. And every path in the picture was painted at some
moment, and then the picture already had the definitions of all clips in force
and of the gradient that it is filled with. -/
theorem definitions_precede_use (reachable : Reachable limits level m) :
    (m.picture.definitions.toList.map Definition.id).Nodup
    ∧ (∀ d ∈ m.picture.definitions.toList, ∃ n < m.nextId, d.id = d.word ++ Nat.repr n)
    ∧ (∀ g ∈ m.graphics :: m.saved, ∀ layer ∈ g.clips,
        m.picture.definitions.toList.filter (fun d => d.id = layer.id)
          = [.clipPath layer.id layer.data])
    ∧ ∀ (i : Nat) (data : PathData) (look : GraphicsState) (mode : PaintMode)
        (ref : Option String), m.picture.shapes[i]? = some (.path data look mode ref) →
        (∃ canvas : Picture, DrawnOn limits level m i (.path data look mode ref) canvas)
        ∧ ∀ canvas : Picture, DrawnOn limits level m i (.path data look mode ref) canvas →
            canvas.DefinesFor look ref := by
  obtain ⟨identified, -⟩ := Identified.of_moves reachable.moves
  refine ⟨identified.numbered.distinct, identified.numbered.below, ?_, ?_⟩
  · intro g state layer mem
    have defined : layer.definition ∈ m.picture.definitions.toList :=
      identified.defined layer (List.mem_flatMap.mpr ⟨g, state, mem⟩)
    exact identified.numbered.filter_id defined
  · intro i data look mode ref here
    exact ⟨drawnOn_of_moves reachable.moves here, fun canvas drawn => drawn.definesFor⟩

/-- Two clips, the first of them held by a saved state too, and a shading
painted under both: three definitions, numbered in their order. -/
theorem definitions_precede_use_shading :
    ∃ m : Machine, Reachable {} 0 m
      ∧ m.picture.definitions.toList.map Definition.id = ["clip0", "clip1", "grad2"]
      ∧ (m.graphics :: m.saved).map (·.clips.length) = [2, 1] ∧ m.picture.shapes.size = 1
      ∧ (m.picture.definitions.toList.map Definition.id).Nodup
      ∧ (∀ d ∈ m.picture.definitions.toList, ∃ n < m.nextId, d.id = d.word ++ Nat.repr n)
      ∧ (∀ g ∈ m.graphics :: m.saved, ∀ layer ∈ g.clips,
          m.picture.definitions.toList.filter (fun d => d.id = layer.id)
            = [.clipPath layer.id layer.data])
      ∧ ∀ (i : Nat) (data : PathData) (look : GraphicsState) (mode : PaintMode)
          (ref : Option String), m.picture.shapes[i]? = some (.path data look mode ref) →
          (∃ canvas : Picture, DrawnOn {} 0 m i (.path data look mode ref) canvas)
          ∧ ∀ canvas : Picture, DrawnOn {} 0 m i (.path data look mode ref) canvas →
              canvas.DefinesFor look ref := by
  have ran : (initial.run {} 20 [.operator "moveto", .operator "clip", .operator "gsave",
      .operator "moveto", .operator "clip", .openDict, .name "ShadingType", .number "2", .closeDict,
      .operator "shfill"]).map
        (fun m => (m.picture.definitions.toList.map Definition.id,
          (m.graphics :: m.saved).map (·.clips.length), m.picture.shapes.size))
      = some (["clip0", "clip1", "grad2"], [2, 1], 1) := by decide +kernel
  obtain ⟨m, ran, facts⟩ := Option.map_eq_some_iff.mp ran
  obtain ⟨ids, facts⟩ := Prod.mk.inj facts
  obtain ⟨clips, shapes⟩ := Prod.mk.inj facts
  have reachable := Reachable.of_run ran
  exact ⟨m, reachable, ids, clips, shapes, definitions_precede_use reachable⟩

end Moments

end Machine

end VectorPage
