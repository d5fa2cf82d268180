/-
Restoring undoes what happened since the save.

Saved states lie on a stack, and the program between a save and its restore
is arbitrary: it may save and restore on its own, clip, call procedures, and
even end its run and begin another. All that ties the two together is that
the stack never gets lower in between than the save left it. Then the states
at its bottom, the one saved and those before it, are never touched, and when
the stack is back at that height they are all that is on it.

That restoring brings the saved state back *as it was saved* is a matter of
its clips, which must not be defined anew; the clips of saved states are
nested (`ClipsNested`), so none is.
-/
import VectorPage.Proofs.Moves

set_option autoImplicit false

namespace VectorPage.Machine

/-- Moves during which there are never fewer saved states than a given
number. -/
def MovesAbove (limits : Limits) (level height : Nat) : Machine → Machine → Prop :=
  Relation.ReflTransGen fun m m' => Move limits level m m' ∧ height ≤ m'.saved.length

/-- The steps of a run are such moves, as long as they keep to the number. -/
theorem MovesAbove.of_steps {limits : Limits} {level height : Nat} {s s' : TokenStream}
    {m m' : Machine}
    (steps : Relation.ReflTransGen
      (fun c c' => Step limits level c c' ∧ height ≤ c'.2.saved.length) (s, m) (s', m')) :
    MovesAbove limits level height m m' :=
  steps.lift Prod.snd fun _ _ last => ⟨.step last.1, last.2⟩

section Layers

variable {limits : Limits} {level : Nat} {m m' : Machine}

/-- Restoring takes the last saved state off, if there is one. -/
theorem saved_restoreGraphics (m : Machine) : m.restoreGraphics.saved = m.saved.tail := by
  rcases saved : m.saved with _ | ⟨g, rest⟩
  · rw [restoreGraphics, saved]
    exact saved
  · simp only [restoreGraphics, saved]
    rfl

/-- **A move keeps the bottom of the stack**, if it leaves the stack at least
that high. -/
theorem LayerMove.keeps_bottom {bottom : List GraphicsState} (move : LayerMove m m')
    (h : bottom <:+ m.saved) (high : bottom.length ≤ m'.saved.length) : bottom <:+ m'.saved := by
  cases move with
  | none same =>
    rw [same.saved]
    exact h
  | save _ saved =>
    rw [saved]
    exact h.trans (List.suffix_cons _ _)
  | clip _ _ saved =>
    rw [saved]
    exact h
  | restore restored =>
    rw [restored, saved_restoreGraphics] at high ⊢
    -- the state taken off lies above the bottom
    exact suffix_tail_of_length_le h high

/-- **States saved below a height stay as they are** while the stack of them is at least
that high. By induction on the moves. -/
theorem MovesAbove.keeps_bottom {bottom : List GraphicsState}
    (moves : MovesAbove limits level bottom.length m m') (h : bottom <:+ m.saved) :
    bottom <:+ m'.saved := by
  induction moves with
  | refl => exact h
  | tail _ last ih => exact last.1.layers.keeps_bottom ih last.2

theorem MovesAbove.clipsNested {height : Nat} (moves : MovesAbove limits level height m m')
    (h : m.ClipsNested) : m'.ClipsNested := by
  induction moves with
  | refl => exact h
  | tail _ last ih => exact ih.of_move last.1

end Layers

/-- **A restore undoes everything since its save.** Let a save be executed on a
reachable machine, then anything that never leaves fewer saved states than the
save did and comes back to their number, and then a restore. The graphics
state is the one before the save in all its parts, the saved states are those
before the save, restoring has added no definition, and the path places its
coordinates as that graphics state requires. -/
theorem restoring_undoes_saving {limits : Limits} {level : Nat}
    {m saved inner restored : Machine} (reachable : Reachable limits level m)
    (save : Executes limits level .saveGraphics m saved)
    (inside : MovesAbove limits level saved.saved.length saved inner)
    (back : inner.saved.length = saved.saved.length)
    (restore : Executes limits level .restoreGraphics inner restored) :
    restored.graphics = m.graphics ∧ restored.saved = m.saved
    ∧ restored.picture.definitions = inner.picture.definitions
    ∧ restored.path.placement = m.graphics.placement := by
  obtain ⟨rest, hsaved⟩ := save.eq_operate (by decide)
  obtain ⟨rest', hrestored⟩ := restore.eq_operate (by decide)
  have pushed : saved.saved = m.graphics :: m.saved := by
    rw [hsaved]
    rfl
  -- the stack is back at its height, so its bottom is all of it
  have bottom : saved.saved <:+ inner.saved := inside.keeps_bottom List.suffix_rfl
  have stack : inner.saved = m.graphics :: m.saved := by
    rw [← pushed]
    exact (bottom.eq_of_length back.symm).symm
  have nested : inner.ClipsNested :=
    inside.clipsNested (reachable.clipsNested.of_move save.move)
  have brought :
      restored = place { inner.counted with graphics := m.graphics, saved := m.saved } := by
    rw [hrestored]
    exact restoreGraphics_of_le stack (nested.length_le stack)
  rw [brought]
  exact ⟨rfl, rfl, rfl, rfl⟩

/-- A bracket with a clip of its own and, inside it, another save and restore
around a second clip. Of the two clips defined inside, one is still in force
before the restore, and none after it. -/
theorem restoring_undoes_saving_nested :
    ∃ saved inner restored : Machine,
      Reachable {} 0 initial ∧ Executes {} 0 .saveGraphics initial saved
      ∧ MovesAbove {} 0 saved.saved.length saved inner
      ∧ inner.saved.length = saved.saved.length
      ∧ Executes {} 0 .restoreGraphics inner restored
      ∧ inner.graphics.clips.length = 1 ∧ inner.picture.definitions.size = 2
      ∧ restored.graphics = initial.graphics ∧ restored.saved = initial.saved
      ∧ restored.picture.definitions = inner.picture.definitions
      ∧ restored.path.placement = initial.graphics.placement := by
  have reachable : Reachable {} 0 initial := ⟨_, [], _, .fresh, .refl⟩
  have save : Executes {} 0 .saveGraphics initial _ :=
    .of_name "gsave" rfl rfl rfl (by decide)
  have inside : MovesAbove {} 0 1 initial.counted.saveGraphics _ :=
    .of_steps (s := .ofTokens [.operator "moveto", .operator "clip", .operator "gsave",
      .operator "moveto", .operator "clip", .operator "grestore"]) <|
    .head ⟨⟨_, _, 0, rfl, rfl, rfl⟩, by decide⟩ <| .head ⟨⟨_, _, 0, rfl, rfl, rfl⟩, by decide⟩ <|
    .head ⟨⟨_, _, 0, rfl, rfl, rfl⟩, by decide⟩ <| .head ⟨⟨_, _, 0, rfl, rfl, rfl⟩, by decide⟩ <|
    .head ⟨⟨_, _, 0, rfl, rfl, rfl⟩, by decide⟩ <| .head ⟨⟨_, _, 0, rfl, rfl, rfl⟩, by decide⟩ .refl
  have restore : ∀ inner : Machine, inner.lookup "grestore" = none →
      Executes {} 0 .restoreGraphics inner
        (inner.counted.operate (.ofTokens []) .restoreGraphics) :=
    fun _ unbound => .of_name "grestore" rfl unbound rfl (by decide)
  exact ⟨_, _, _, reachable, save, inside, rfl, restore _ rfl, rfl, rfl,
    restoring_undoes_saving reachable save inside rfl (restore _ rfl)⟩

end VectorPage.Machine
