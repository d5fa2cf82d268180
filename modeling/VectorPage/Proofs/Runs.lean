/-
Runs as sequences of steps.

`execute` counts down fuel, and paint procedures inherit what is left of it.
This file takes the fuel out of the picture. `Step` is the execution of one
token, `Steps` any number of them, and `Ends` says with which machine the
execution of a stream ends, whatever fuel it took.

The one fact that needs an argument is that fuel is only a resource: what a
run ends with under some fuel, it ends with under more. A step asks for fuel
in one place, the run of a paint procedure, so it is enough that a step
answers the same when its paint function answers more often.
-/
import Mathlib.Logic.Relation
import VectorPage.Machine.Run

set_option autoImplicit false

namespace VectorPage.Machine

/-! ## One turn of the loop -/

/-- Whether the limit on operations is reached. -/
def isSpent (m : Machine) (limits : Limits) : Bool :=
  limits.operations.any (· ≤ m.executed)

/-- The machine with one more token counted. -/
def counted (m : Machine) : Machine :=
  { m with executed := m.executed + 1 }

/-- The run of a paint procedure, under some fuel. -/
def paintWith (limits : Limits) (fuel level : Nat) (body : List Token) : Option Machine :=
  (execute limits fuel (level + 1) (.ofTokens body) initial).map finish

/-- At the end of its stream a machine stays as it is. No token is counted for this, so
the limit on operations is not asked for. -/
theorem execute_of_next_none {limits : Limits} {fuel level : Nat} {s : TokenStream} {m : Machine}
    (h : s.next.1 = none) : execute limits (fuel + 1) level s m = some m := by
  rw [execute]
  rcases hn : s.next with ⟨token, rest⟩
  obtain rfl : token = none := by simpa [hn] using h
  rfl

/-- **One turn of the loop.** The limit is asked for before the token is executed and
counted, so a machine halts on the token after the last one allowed, and has not
executed it. -/
theorem execute_of_next_some {limits : Limits} {fuel level : Nat} {s rest : TokenStream}
    {m : Machine} {token : Token} (h : s.next = (some token, rest)) :
    execute limits (fuel + 1) level s m =
      if m.isSpent limits then some m.stopAtLimit
      else (m.counted.step limits level (paintWith limits fuel level) token rest).bind
        fun c => execute limits fuel level c.1 c.2 := by
  rw [execute, h]
  unfold isSpent
  generalize outcome : m.counted.step limits level (paintWith limits fuel level) token rest = c
  -- the loop writes the paint function out
  delta counted paintWith at outcome
  dsimp only at outcome ⊢
  rw [outcome]
  cases c <;> rfl

/-! ## Fuel is a resource -/

/-- `paint'` answers whatever `paint` answers. -/
def Extends (paint paint' : List Token → Option Machine) : Prop :=
  ∀ body painted, paint body = some painted → paint' body = some painted

section Extending

variable {paint paint' : List Token → Option Machine} {limits : Limits} {level : Nat}

/-- A pattern made with a paint function is made alike with one that answers more often:
only the answer for one body is used. -/
theorem makePattern_extends (h : Extends paint paint') {m m' : Machine}
    (made : m.makePattern limits level paint = some m') :
    m.makePattern limits level paint' = some m' := by
  simp only [makePattern] at made ⊢
  split at made
  · split at made
    · by_cases deep : limits.patterns ≤ level
      · rw [if_pos deep] at made ⊢
        exact made
      · rw [if_neg deep] at made ⊢
        obtain ⟨painted, answer, rfl⟩ := Option.map_eq_some_iff.mp made
        rw [h _ _ answer, Option.map_some]
    · exact made
  · exact made

/-- So is whatever a name does, since the making of patterns is all that asks the paint
function. -/
theorem executeName_extends (h : Extends paint paint') {m : Machine} {name : String}
    {s : TokenStream} {c : TokenStream × Machine}
    (executed : m.executeName limits level paint name s = some c) :
    m.executeName limits level paint' name s = some c := by
  simp only [executeName] at executed ⊢
  split at executed
  · exact executed
  · exact executed
  · split at executed
    · obtain ⟨m', made, rfl⟩ := Option.map_eq_some_iff.mp executed
      rw [makePattern_extends h made, Option.map_some]
    · exact executed
    · exact executed

/-- **A step that is answered stays answered** when the paint function is extended. -/
theorem step_extends (h : Extends paint paint') {m : Machine} {token : Token} {s : TokenStream}
    {c : TokenStream × Machine} (stepped : m.step limits level paint token s = some c) :
    m.step limits level paint' token s = some c := by
  cases token with
  | operator name => exact executeName_extends h stepped
  | _ => exact stepped

end Extending

/-- Fuel under which runs answer more often serves paint procedures too. -/
theorem paintWith_extends_of {limits : Limits} {fuel fuel' level : Nat}
    (more : ∀ s m m', execute limits fuel (level + 1) s m = some m' →
      execute limits fuel' (level + 1) s m = some m') :
    Extends (paintWith limits fuel level) (paintWith limits fuel' level) := by
  intro body painted answer
  obtain ⟨done, ran, rfl⟩ := Option.map_eq_some_iff.mp answer
  rw [paintWith, more _ _ _ ran, Option.map_some]

/-- **One more unit of fuel** changes no answer. The induction is on the fuel:
the paint procedures of a step run on less. -/
theorem execute_succ_of_execute {limits : Limits} {fuel level : Nat} {s : TokenStream}
    {m m' : Machine} (h : execute limits fuel level s m = some m') :
    execute limits (fuel + 1) level s m = some m' := by
  induction fuel generalizing level s m m' with
  | zero => simp [execute] at h
  | succ fuel ih =>
    rcases hn : s.next with ⟨token, rest⟩
    cases token with
    | none =>
      rw [execute_of_next_none (by rw [hn])] at h ⊢
      exact h
    | some token =>
      rw [execute_of_next_some hn] at h ⊢
      by_cases spent : m.isSpent limits
      · rw [if_pos spent] at h ⊢
        exact h
      · rw [if_neg spent] at h ⊢
        obtain ⟨c, stepped, continued⟩ := Option.bind_eq_some_iff.mp h
        -- a tile is painted on the fuel that is left, so the induction covers it as well
        have painted : Extends (paintWith limits fuel level)
            (paintWith limits (fuel + 1) level) :=
          paintWith_extends_of fun _ _ _ ran => ih ran
        rw [step_extends painted stepped]
        exact ih continued

/-- **More fuel changes no result.** Fuel stands for the length of a run, and a result
was reached within the length that there was. -/
theorem execute_of_le {limits : Limits} {fuel fuel' level : Nat} {s : TokenStream}
    {m m' : Machine} (le : fuel ≤ fuel') (h : execute limits fuel level s m = some m') :
    execute limits fuel' level s m = some m' := by
  induction le with
  | refl => exact h
  | step _ ih => exact execute_succ_of_execute ih

/-- With more fuel, paint procedures are answered more often and never otherwise. -/
theorem paintWith_extends {limits : Limits} {fuel fuel' level : Nat} (le : fuel ≤ fuel') :
    Extends (paintWith limits fuel level) (paintWith limits fuel' level) :=
  paintWith_extends_of fun _ _ _ ran => execute_of_le le ran

/-! ## Steps and ends -/

/-- **The execution of a stream ends** with a machine. -/
def Ends (limits : Limits) (level : Nat) (s : TokenStream) (m m' : Machine) : Prop :=
  ∃ fuel, execute limits fuel level s m = some m'

/-- **One token is executed**, its paint procedure under whatever fuel it
needs. -/
def Step (limits : Limits) (level : Nat) (c c' : TokenStream × Machine) : Prop :=
  ∃ token rest fuel, c.1.next = (some token, rest) ∧ c.2.isSpent limits = false
    ∧ c.2.counted.step limits level (paintWith limits fuel level) token rest = some c'

/-- Any number of tokens are executed. -/
def Steps (limits : Limits) (level : Nat) : TokenStream × Machine → TokenStream × Machine → Prop :=
  Relation.ReflTransGen (Step limits level)

section Relations

variable {limits : Limits} {level : Nat} {s : TokenStream} {m : Machine}

/-- An execution ends in one way only. -/
theorem Ends.unique {m₁ m₂ : Machine} (h₁ : Ends limits level s m m₁)
    (h₂ : Ends limits level s m m₂) : m₁ = m₂ := by
  obtain ⟨fuel₁, h₁⟩ := h₁
  obtain ⟨fuel₂, h₂⟩ := h₂
  have same := (execute_of_le (Nat.le_max_left fuel₁ fuel₂) h₁).symm.trans
    (execute_of_le (Nat.le_max_right fuel₁ fuel₂) h₂)
  exact Option.some.inj same

/-- A step does not change how the execution ends. -/
theorem Step.ends_iff {c : TokenStream × Machine} (h : Step limits level (s, m) c)
    {m' : Machine} : Ends limits level s m m' ↔ Ends limits level c.1 c.2 m' := by
  obtain ⟨token, rest, fuel₀, hn, spent, stepped⟩ := h
  constructor
  · rintro ⟨fuel, h⟩
    cases fuel with
    | zero => simp [execute] at h
    | succ fuel =>
      rw [execute_of_next_some hn, spent, if_neg Bool.false_ne_true] at h
      obtain ⟨c', stepped', continued⟩ := Option.bind_eq_some_iff.mp h
      -- under enough fuel for both, the two steps are the same one
      have same : some c = some c' :=
        (step_extends (paintWith_extends (Nat.le_max_left fuel₀ fuel)) stepped).symm.trans
          (step_extends (paintWith_extends (Nat.le_max_right fuel₀ fuel)) stepped')
      obtain rfl := Option.some.inj same
      exact ⟨fuel, continued⟩
  · rintro ⟨fuel, continued⟩
    refine ⟨max fuel₀ fuel + 1, ?_⟩
    rw [execute_of_next_some hn, spent, if_neg Bool.false_ne_true,
      step_extends (paintWith_extends (Nat.le_max_left fuel₀ fuel)) stepped]
    exact execute_of_le (Nat.le_max_right fuel₀ fuel) continued

/-- A run ends in a machine just if the rest of it does, whatever point one looks
from. -/
theorem Steps.ends_iff {c c' : TokenStream × Machine} (h : Steps limits level c c')
    {m' : Machine} : Ends limits level c.1 c.2 m' ↔ Ends limits level c'.1 c'.2 m' := by
  induction h with
  | refl => rfl
  | tail _ last ih => exact ih.trans last.ends_iff

/-- **An execution that ends is a sequence of steps** to a machine that finds
no token, or finds one and may not execute it. -/
theorem Ends.steps {m' : Machine} (h : Ends limits level s m m') :
    ∃ s₁ m₁, Steps limits level (s, m) (s₁, m₁) ∧
      (s₁.next.1 = none ∧ m' = m₁ ∨ m₁.isSpent limits = true ∧ m' = m₁.stopAtLimit) := by
  obtain ⟨fuel, h⟩ := h
  induction fuel generalizing s m with
  | zero => simp [execute] at h
  | succ fuel ih =>
    rcases hn : s.next with ⟨token, rest⟩
    cases token with
    | none =>
      rw [execute_of_next_none (by rw [hn])] at h
      exact ⟨s, m, .refl, .inl ⟨by rw [hn], (Option.some.inj h).symm⟩⟩
    | some token =>
      rw [execute_of_next_some hn] at h
      by_cases spent : m.isSpent limits
      · rw [if_pos spent] at h
        exact ⟨s, m, .refl, .inr ⟨spent, (Option.some.inj h).symm⟩⟩
      · rw [if_neg spent] at h
        obtain ⟨c, stepped, continued⟩ := Option.bind_eq_some_iff.mp h
        obtain ⟨s₁, m₁, steps, halted⟩ := ih continued
        have first : Step limits level (s, m) c :=
          ⟨token, rest, fuel, hn, by simpa using spent, stepped⟩
        exact ⟨s₁, m₁, .head first steps, halted⟩

/-- So many tokens executed, as far as no paint procedure is asked for. -/
def advance (limits : Limits) (level : Nat) :
    Nat → TokenStream × Machine → Option (TokenStream × Machine)
  | 0, c => some c
  | n + 1, c =>
    match c.1.next with
    | (some token, rest) =>
      if c.2.isSpent limits then none
      else (c.2.counted.step limits level (fun _ => none) token rest).bind (advance limits level n)
    | (none, _) => none

/-- What is computed in so many steps is reached by steps; a fixed run can be checked
this way. -/
theorem Steps.of_advance {n : Nat} {c c' : TokenStream × Machine}
    (h : advance limits level n c = some c') : Steps limits level c c' := by
  induction n generalizing c with
  | zero =>
    cases h
    exact .refl
  | succ n ih =>
    rcases hn : c.1.next with ⟨_ | token, rest⟩
    · simp only [advance, hn, reduceCtorEq] at h
    · simp only [advance, hn] at h
      by_cases spent : c.2.isSpent limits
      · rw [if_pos spent] at h
        cases h
      · rw [if_neg spent] at h
        obtain ⟨c₁, stepped, continued⟩ := Option.bind_eq_some_iff.mp h
        have unasked : Extends (fun _ => none) (paintWith limits 0 level) := by
          intro body painted answer
          cases answer
        have first : Step limits level c c₁ :=
          ⟨token, rest, 0, hn, by simpa using spent, step_extends unasked stepped⟩
        exact .head first (ih continued)

end Relations

/-! ## The machines a program can produce -/

/-- The machines on which programs are run one after the other, from a fresh
machine on. -/
inductive BetweenRuns (limits : Limits) (level : Nat) : Machine → Prop where
  | fresh : BetweenRuns limits level initial
  | run {m m' : Machine} (program : List Token) :
      BetweenRuns limits level m → Ends limits level (.ofTokens program) m m' →
      BetweenRuns limits level m'.finish

/-- **A machine is reachable** if it comes up between two tokens of some run
of such a machine. Level zero is the program itself; at any other level the
machine is one that runs a paint procedure. -/
def Reachable (limits : Limits) (level : Nat) (m : Machine) : Prop :=
  ∃ m₀ program s, BetweenRuns limits level m₀ ∧
    Steps limits level (TokenStream.ofTokens program, m₀) (s, m)

/-- **Invariants.** What holds of the fresh machine, and is kept by every
step, by the halt at the limit on operations and by the end of a run, holds
of every reachable machine. -/
theorem Reachable.induct {limits : Limits} {level : Nat} {P : Machine → Prop}
    (fresh : P initial)
    (step : ∀ s m s' m', Step limits level (s, m) (s', m') → P m → P m')
    (stop : ∀ m, P m → P m.stopAtLimit) (finish : ∀ m, P m → P m.finish)
    {m : Machine} (h : Reachable limits level m) : P m := by
  have along : ∀ c c', Steps limits level c c' → P c.2 → P c'.2 := by
    intro c c' steps hc
    induction steps with
    | refl => exact hc
    | tail _ last ih => exact step _ _ _ _ last ih
  have between : ∀ m, BetweenRuns limits level m → P m := by
    intro m h
    induction h with
    | fresh => exact fresh
    | run program _ ends ih =>
      obtain ⟨s₁, m₁, steps, ⟨-, rfl⟩ | ⟨-, rfl⟩⟩ := ends.steps
      · exact finish _ (along _ _ steps ih)
      · exact finish _ (stop _ (along _ _ steps ih))
  obtain ⟨m₀, program, s, h₀, steps⟩ := h
  exact along _ _ steps (between m₀ h₀)

end VectorPage.Machine
