/-
Clips of saved graphics states are nested.

Restoring a graphics state is ready for a saved state that has more clips than
the current one: those beyond the current number would be defined anew, under
fresh ids. No program gets there. Clips are only ever added to the current
state, and the current state only loses clips by being replaced with the last
saved one. So the clips of each saved state are still in force, in the same
order and under the same ids, in every state saved later and in the current
one.

`step_layers` says once what a step can do to clips and saved states. The
invariant, and what it says about restoring, follow from it alone.
-/
import Mathlib.Data.List.Chain
import VectorPage.Proofs.Effects

set_option autoImplicit false

namespace VectorPage

/-- The clips in force, outermost first. -/
def GraphicsState.clipStack (g : GraphicsState) : List ClipLayer :=
  g.clips.reverse

namespace Machine

/-! ## What a step does to clips and saved states -/

/-- The clips in force and the saved states are the same. -/
structure SameLayers (m m' : Machine) : Prop where
  clips : m'.graphics.clips = m.graphics.clips
  saved : m'.saved = m.saved

/-- Painting touches neither clips nor saved states. -/
theorem paintPath_layers (m : Machine) (mode : PaintMode) : SameLayers m (m.paintPath mode) := by
  rw [paintPath_eq]
  exact ⟨rfl, rfl⟩

/-- Neither does a line, even if it is painted at once. -/
theorem lineTo_layers (m : Machine) (s : TokenStream) : SameLayers m (m.lineTo s) := by
  rw [lineTo_eq]
  split
  · rw [paintPath_eq]
    exact ⟨rfl, rfl⟩
  · exact ⟨rfl, rfl⟩

/-- An operator that neither clips nor saves nor restores leaves clips and
saved states alone. -/
theorem operate_layers (m : Machine) (s : TokenStream) {op : Operator} (clip : op ≠ .clip)
    (save : op ≠ .saveGraphics) (restore : op ≠ .restoreGraphics) :
    SameLayers m (m.operate s op) := by
  cases op with
  | clip => exact absurd rfl clip
  | saveGraphics => exact absurd rfl save
  | restoreGraphics => exact absurd rfl restore
  | lineTo => exact lineTo_layers m s
  | stroke => exact paintPath_layers m .lines
  | fill => exact paintPath_layers m .areas
  -- these four branch inside the graphics state, beside the clips
  | setLineCap =>
    simp only [operate, setLineCap_eq]
    exact ⟨by split <;> rfl, rfl⟩
  | setLineJoin =>
    simp only [operate, setLineJoin_eq]
    exact ⟨by split <;> rfl, rfl⟩
  | setPattern =>
    simp only [operate, setPattern_eq]
    exact ⟨by split <;> rfl, rfl⟩
  | setFont =>
    simp only [operate, setFont_eq]
    exact ⟨by split <;> rfl, rfl⟩
  | _ =>
    simp only [operate, negate, combine, exchange_eq, duplicate_eq, newDict, beginDict_eq,
      endDict, bindName_eq, translate, scale, rotate, setLineWidth, setDash, setRgbColor, setGray,
      setCmykColor, moveTo, moveBy, lineBy, curveTo, curveBy, closePath_eq, arc, shadingFill_eq,
      findFont, scaleFont, showText_eq, pop_eq, popNumber_eq, popPoint_eq, popDisplay_eq]
    exact ⟨rfl, rfl⟩

/-- A pattern is painted on a machine of its own, so the clips in force there stay
there. -/
theorem makePattern_layers {m m' : Machine} {limits : Limits} {level : Nat}
    {paint : List Token → Option Machine} (h : m.makePattern limits level paint = some m') :
    SameLayers m m' := by
  rw [makePattern_eq] at h
  split at h
  · split at h
    · split at h
      · cases h
        exact ⟨rfl, rfl⟩
      · obtain ⟨painted, -, rfl⟩ := Option.map_eq_some_iff.mp h
        exact ⟨rfl, rfl⟩
    · cases h
      exact ⟨rfl, rfl⟩
  · cases h
    exact ⟨rfl, rfl⟩

theorem pushLiteral_layers (m : Machine) (limits : Limits) (kind : OpenLiteral)
    (s : TokenStream) : SameLayers m (m.pushLiteral limits kind s).2 := by
  simp only [pushLiteral]
  split <;> exact ⟨rfl, rfl⟩

/-- A call concerns the stream, and at most leaves a remark. -/
theorem callProcedure_layers (m : Machine) (limits : Limits) (name : String) (body : List Token)
    (s : TokenStream) : SameLayers m (m.callProcedure limits name body s).2 := by
  simp only [callProcedure]
  split <;> exact ⟨rfl, rfl⟩

/-- **What can become of clips and saved states in one move**: nothing, a
state saved, a clip added, or a state restored. -/
inductive LayerMove (m m' : Machine) : Prop where
  | none (same : SameLayers m m')
  | save (graphics : m'.graphics = m.graphics) (saved : m'.saved = m.graphics :: m.saved)
  | clip (layer : ClipLayer) (clips : m'.graphics.clips = layer :: m.graphics.clips)
      (saved : m'.saved = m.saved)
  | restore (restored : m' = m.restoreGraphics)

/-- **The operators that matter to clips** are three: one adds a clip, one saves the
state and one restores it. All others leave clips and saved states alone. -/
theorem operate_move (m : Machine) (s : TokenStream) (op : Operator) :
    LayerMove m (m.operate s op) := by
  by_cases save : op = .saveGraphics
  · subst save
    exact .save rfl rfl
  by_cases restore : op = .restoreGraphics
  · subst restore
    exact .restore rfl
  by_cases clip : op = .clip
  · subst clip
    simp only [operate, clip_eq]
    split
    · exact .none ⟨rfl, rfl⟩
    · exact .clip _ rfl rfl
  exact .none (operate_layers m s clip save restore)

/-- A name does what its operator does; a bound or an unknown name leaves clips
alone. -/
theorem executeName_move {m : Machine} {limits : Limits} {level : Nat}
    {paint : List Token → Option Machine} {name : String} {s : TokenStream}
    {c : TokenStream × Machine} (h : m.executeName limits level paint name s = some c) :
    LayerMove m c.2 := by
  simp only [executeName] at h
  split at h
  · cases h
    exact .none (callProcedure_layers m limits name _ s)
  · cases h
    exact .none ⟨rfl, rfl⟩
  · split at h
    · obtain ⟨made, answer, rfl⟩ := Option.map_eq_some_iff.mp h
      exact .none (makePattern_layers answer)
    · cases h
      exact operate_move m s _
    · cases h
      exact .none ⟨rfl, rfl⟩

/-- **One token makes one such move**, from the machine that has counted
it. -/
theorem step_layers {limits : Limits} {level : Nat} {c c' : TokenStream × Machine}
    (h : Step limits level c c') : LayerMove c.2.counted c'.2 := by
  obtain ⟨token, rest, fuel, -, -, stepped⟩ := h
  cases token with
  | operator name => exact executeName_move stepped
  | openBracket =>
    cases stepped
    exact .none (pushLiteral_layers _ limits _ rest)
  | openDict =>
    cases stepped
    exact .none (pushLiteral_layers _ limits _ rest)
  | _ =>
    cases stepped
    exact .none ⟨rfl, rfl⟩

/-! ## The invariant -/

/-- **The clips are nested**: from the current state outwards through the
saved ones, the clips of each state end with those of the next. -/
def ClipsNested (m : Machine) : Prop :=
  ((m.graphics :: m.saved).map GraphicsState.clips).IsChain fun inner outer => outer <:+ inner

/-- If the saved state has no more clips than the current one, restoring
replaces the current state with it, and does nothing else. -/
theorem restoreGraphics_of_le {m : Machine} {g : GraphicsState} {rest : List GraphicsState}
    (saved : m.saved = g :: rest) (le : g.clips.length ≤ m.graphics.clips.length) :
    m.restoreGraphics = place { m with graphics := g, saved := rest } := by
  have noneBeyond : g.clips.length - m.graphics.clips.length = 0 := Nat.sub_eq_zero_of_le le
  simp only [restoreGraphics, saved, noneBeyond, List.take_zero, List.reverse_nil, renewClips,
    List.foldl_nil, List.drop_zero, List.nil_append]

/-- Nested clips are no more in the state saved last than in the current
one. -/
theorem ClipsNested.length_le {m : Machine} (h : m.ClipsNested) {g : GraphicsState}
    {rest : List GraphicsState} (saved : m.saved = g :: rest) :
    g.clips.length ≤ m.graphics.clips.length := by
  rw [ClipsNested, saved, List.map_cons, List.map_cons, List.isChain_cons_cons] at h
  exact h.1.length_le

/-- Nesting is a property of clips and saved states only. -/
theorem ClipsNested.of_same {m m' : Machine} (h : m.ClipsNested) (same : SameLayers m m') :
    m'.ClipsNested := by
  simpa only [ClipsNested, List.map_cons, same.clips, same.saved] using h

/-- **Every move keeps the clips nested.** -/
theorem ClipsNested.move {m m' : Machine} (h : m.ClipsNested) (move : LayerMove m m') :
    m'.ClipsNested := by
  cases move with
  | none same => exact h.of_same same
  | save graphics saved =>
    rw [ClipsNested, graphics, saved, List.map_cons, List.map_cons, List.isChain_cons_cons]
    exact ⟨List.suffix_rfl, h⟩
  | clip layer clips saved =>
    rw [ClipsNested, List.map_cons] at h ⊢
    rw [clips, saved]
    -- the new clip lies inside all others, so the state saved last still fits
    cases states : m.saved.map GraphicsState.clips with
    | nil => exact .singleton _
    | cons outer further =>
      rw [states, List.isChain_cons_cons] at h
      rw [List.isChain_cons_cons]
      exact ⟨h.1.trans (List.suffix_cons layer _), h.2⟩
  | restore restored =>
    subst restored
    rcases saved : m.saved with _ | ⟨g, rest⟩
    · simpa only [restoreGraphics, saved] using h
    · rw [restoreGraphics_of_le saved (h.length_le saved)]
      rw [ClipsNested, saved, List.map_cons] at h
      exact h.of_cons

/-- **In every reachable machine clips are nested**: each saved state has the clips of
the one saved before it, and perhaps more. -/
theorem Reachable.clipsNested {limits : Limits} {level : Nat} {m : Machine}
    (h : Reachable limits level m) : m.ClipsNested := by
  refine h.induct ?_ ?_ ?_ ?_
  · exact .singleton _
  · intro s m s' m' step nested
    have counted : m.counted.ClipsNested := nested.of_same ⟨rfl, rfl⟩
    exact counted.move (step_layers step)
  · exact fun m nested => nested.of_same ⟨rfl, rfl⟩
  · exact fun m nested => nested.of_same (paintPath_layers m .lines)

/-- **Clips of saved states are nested, and restoring defines none anew.** In
every reachable machine, the clips of the saved states from the first to the
last, followed by the current ones, each begin with those before them, ids and
paths included. So restoring finds no clip beyond those in force: it brings
back the saved state as it was saved, its clips under their ids, and leaves
the picture and the number of the next id alone. -/
theorem restoring_renews_no_clip {limits : Limits} {level : Nat} {m : Machine}
    (h : Reachable limits level m) :
    ((m.saved.reverse ++ [m.graphics]).map GraphicsState.clipStack).IsChain (· <+: ·)
    ∧ (∀ g ∈ m.saved.head?, g.clips.length ≤ m.graphics.clips.length
        ∧ m.restoreGraphics.graphics = g)
    ∧ m.restoreGraphics.picture = m.picture
    ∧ m.restoreGraphics.nextId = m.nextId := by
  have nested := h.clipsNested
  have chain :
      ((m.saved.reverse ++ [m.graphics]).map GraphicsState.clipStack).IsChain (· <+: ·) := by
    -- clips are stored innermost first and states latest first, so both are turned around
    have reversed : (m.saved.reverse ++ [m.graphics]).map GraphicsState.clipStack
        = ((m.graphics :: m.saved).map GraphicsState.clips |>.map List.reverse).reverse := by
      simp [GraphicsState.clipStack, Function.comp_def]
    rw [reversed, List.isChain_reverse, List.isChain_map]
    simp only [List.reverse_prefix]
    exact nested
  refine ⟨chain, ?_⟩
  rcases saved : m.saved with _ | ⟨g, rest⟩
  · simp [restoreGraphics, saved]
  · have le := nested.length_le saved
    rw [restoreGraphics_of_le saved le]
    refine ⟨?_, rfl, rfl⟩
    rintro _ ⟨rfl⟩
    exact ⟨le, rfl⟩

/-- A program that saves, clips, saves and clips again reaches a machine with
no clip in the first saved state, one in the second and two in force, and
restoring that machine renews none. -/
theorem restoring_renews_no_clip_twice :
    ∃ m : Machine, Reachable {} 0 m
      ∧ (m.graphics :: m.saved).map (·.clips.length) = [2, 1, 0]
      ∧ ((m.saved.reverse ++ [m.graphics]).map GraphicsState.clipStack).IsChain (· <+: ·)
      ∧ (∀ g ∈ m.saved.head?, g.clips.length ≤ m.graphics.clips.length
          ∧ m.restoreGraphics.graphics = g)
      ∧ m.restoreGraphics.picture = m.picture
      ∧ m.restoreGraphics.nextId = m.nextId := by
  have reached : Steps {} 0 (.ofTokens [.operator "gsave", .operator "moveto", .operator "clip",
      .operator "gsave", .operator "moveto", .operator "clip"], initial) _ :=
    .head ⟨_, _, 0, rfl, rfl, rfl⟩ <| .head ⟨_, _, 0, rfl, rfl, rfl⟩ <|
    .head ⟨_, _, 0, rfl, rfl, rfl⟩ <| .head ⟨_, _, 0, rfl, rfl, rfl⟩ <|
    .head ⟨_, _, 0, rfl, rfl, rfl⟩ <| .head ⟨_, _, 0, rfl, rfl, rfl⟩ .refl
  have reachable : Reachable {} 0 _ := ⟨_, _, _, .fresh, reached⟩
  exact ⟨_, reachable, rfl, restoring_renews_no_clip reachable⟩

end Machine

end VectorPage
