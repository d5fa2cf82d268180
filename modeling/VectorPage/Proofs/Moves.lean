/-
The life of a machine.

Most of what is true of every machine a program can produce is true because
nothing that can happen to a machine breaks it, and three things can happen:
a token is executed, the run halts at the limit on operations, or the run
ends. `Move` is any of them. It forgets the stream, so a life made of moves
goes on from one run to the next, and a statement about all lives covers all
sequences of runs.

Executing a token is the one move with cases. `Effect` lists them once, by
the operator that the token stands for: an operator does what `operate` says,
making a pattern may run a paint procedure, and every other token pushes a
value, leaves a remark or does nothing.
-/
import VectorPage.Proofs.ClipChain

set_option autoImplicit false

namespace VectorPage

/-- Whether a value is something else than a pattern. -/
def Value.isPlain : Value → Bool
  | pattern _ => false
  | _ => true

/-- Whether a value is complete in itself: a number, a text, a name or a
procedure. -/
def Value.isScalar : Value → Bool
  | number _ | text _ | name _ | procedure _ => true
  | array _ | dict _ | pattern _ => false

/-- The bottom of a stack that stays at least as high is not taken off. -/
theorem suffix_tail_of_length_le {α : Type} {bottom stack : List α} (h : bottom <:+ stack)
    (high : bottom.length ≤ stack.tail.length) : bottom <:+ stack.tail := by
  cases stack with
  | nil => exact h
  | cons top rest =>
    rcases List.suffix_cons_iff.mp h with whole | below
    · rw [whole, List.length_cons, List.tail_cons] at high
      omega
    · exact below

namespace Machine

/-! ## Moves -/

/-- **What can happen to a machine**: a token is executed, whatever stream it
comes from, the run halts at the limit on operations, or the run ends. -/
inductive Move (limits : Limits) (level : Nat) : Machine → Machine → Prop where
  | step {s s' : TokenStream} {m m' : Machine} :
      Step limits level (s, m) (s', m') → Move limits level m m'
  | stop (m : Machine) : Move limits level m m.stopAtLimit
  | finish (m : Machine) : Move limits level m m.finish

/-- Any number of moves. -/
def Moves (limits : Limits) (level : Nat) : Machine → Machine → Prop :=
  Relation.ReflTransGen (Move limits level)

/-- **Every run is a life**: a reachable machine is one that moves lead to from a new
machine. -/
theorem Reachable.moves {limits : Limits} {level : Nat} {m : Machine}
    (h : Reachable limits level m) : Moves limits level initial m := by
  refine h.induct .refl ?_ ?_ ?_
  · exact fun s m s' m' step moves => moves.tail (.step step)
  · exact fun m moves => moves.tail (.stop m)
  · exact fun m moves => moves.tail (.finish m)

/-- A machine on which a program has run is reachable. -/
theorem Reachable.of_run {limits : Limits} {fuel : Nat} {program : List Token} {m : Machine}
    (ran : initial.run limits fuel program = some m) : Reachable limits 0 m := by
  obtain ⟨done, ended, rfl⟩ := Option.map_eq_some_iff.mp ran
  exact ⟨_, [], _, .run program .fresh ⟨fuel, ended⟩, .refl⟩

/-- **A move of some kind was made in a life of a machine**, between its first
moment and now. Moves forget what is still to be read, so a life is any sequence of
moves that leads from a new machine to this one; of a reachable machine the run that
it came from is one (`Reachable.moves`), and there may be others. -/
def Happened (limits : Limits) (level : Nat) (m : Machine) (kind : Machine → Machine → Prop) :
    Prop :=
  ∃ before after, Moves limits level initial before ∧ Move limits level before after
    ∧ Moves limits level after m ∧ kind before after

section Life

variable {limits : Limits} {level : Nat} {m m' : Machine} {kind : Machine → Machine → Prop}

/-- What happens in the latest move has happened. -/
theorem Happened.now (moves : Moves limits level initial m) (move : Move limits level m m')
    (h : kind m m') : Happened limits level m' kind :=
  ⟨m, m', moves, move, .refl, h⟩

/-- What has happened is not undone by what comes after it. -/
theorem Happened.since (h : Happened limits level m kind) (since : Moves limits level m m') :
    Happened limits level m' kind := by
  obtain ⟨before, after, moves, made, between, is⟩ := h
  exact ⟨before, after, moves, made, between.trans since, is⟩

/-- In particular not by a single move. -/
theorem Happened.later (h : Happened limits level m kind) (move : Move limits level m m') :
    Happened limits level m' kind :=
  h.since (.single move)

end Life

/-! ## What one token does -/

/-- The operator that the next token stands for: the token is a name, it is
bound to nothing, and an operator has that name. -/
def operatorAt? (c : TokenStream × Machine) : Option Operator :=
  (c.1.next.1.bind Token.operator?).bind fun name =>
    if (c.2.lookup name).isSome then none else Operator.ofName? name

/-- **An operator is executed.** -/
def Executes (limits : Limits) (level : Nat) (op : Operator) (m m' : Machine) : Prop :=
  ∃ s s', operatorAt? (s, m) = some op ∧ Step limits level (s, m) (s', m')

/-- Executing an operator is a move, made by the token that names it. -/
theorem Executes.move {limits : Limits} {level : Nat} {op : Operator} {m m' : Machine}
    (h : Executes limits level op m m') : Move limits level m m' := by
  obtain ⟨s, s', -, step⟩ := h
  exact .step step

/-- **What a token does that stands for no operator**, to the machine that has
counted it. -/
inductive Aside (limits : Limits) (m m' : Machine) : Prop where
  /-- A stray bracket, or a call. -/
  | nothing (same : m' = m)
  /-- An operand written out, or a procedure. -/
  | operand (v : Value) (scalar : v.isScalar = true) (pushed : m' = m.push v)
  /-- A name bound to a value. -/
  | bound (name : String) (v : Value) (found : m.lookup name = some v) (pushed : m' = m.push v)
  /-- An array or a dictionary written out. -/
  | literal (kind : OpenLiteral) (s : TokenStream) (pushed : m' = (m.pushLiteral limits kind s).2)
  /-- A name that nothing is known of. -/
  | unknown (message : String) (remarked : m' = m.remark message)
  /-- A call for which there is no room. -/
  | refused (message : String) (hit : LimitHit) (remarked : m' = (m.remark message).note hit)

/-- Such a token leaves the graphics states and the path alone. -/
theorem Aside.drawing_eq {limits : Limits} {m m' : Machine} (h : Aside limits m m') :
    m'.graphics = m.graphics ∧ m'.saved = m.saved ∧ m'.path = m.path := by
  cases h with
  | nothing same =>
    rw [same]
    exact ⟨rfl, rfl, rfl⟩
  | operand v _ pushed =>
    rw [pushed]
    exact ⟨rfl, rfl, rfl⟩
  | bound name v _ pushed =>
    rw [pushed]
    exact ⟨rfl, rfl, rfl⟩
  | literal kind s pushed =>
    rw [pushed]
    simp only [pushLiteral]
    split <;> exact ⟨rfl, rfl, rfl⟩
  | unknown message remarked =>
    rw [remarked]
    exact ⟨rfl, rfl, rfl⟩
  | refused message hit remarked =>
    rw [remarked]
    exact ⟨rfl, rfl, rfl⟩

/-- **What one token does**, by the operator that it stands for. -/
inductive Effect (limits : Limits) (level : Nat) (c c' : TokenStream × Machine) : Prop where
  | operate (op : Operator) (rest : TokenStream) (stands : operatorAt? c = some op)
      (result : c'.2 = c.2.counted.operate rest op)
  | makePattern (fuel : Nat) (stands : operatorAt? c = some .makePattern)
      (made : c.2.counted.makePattern limits level (paintWith limits fuel level) = some c'.2)
  | aside (stands : operatorAt? c = none) (result : Aside limits c.2.counted c'.2)

section Effects

variable {limits : Limits} {level : Nat} {c c' : TokenStream × Machine}

/-- A name has the effect of its operator if it is not bound. A bound name pushes its
value or calls it, and an unknown one leaves a remark, so neither stands for an
operator. -/
theorem effect_of_name {name : String} {rest : TokenStream} {fuel : Nat}
    (next : c.1.next.1 = some (.operator name))
    (executed : c.2.counted.executeName limits level (paintWith limits fuel level) name rest
      = some c') : Effect limits level c c' := by
  have stands : operatorAt? c
      = if (c.2.lookup name).isSome then none else Operator.ofName? name := by
    rw [operatorAt?, next, Option.bind_some, Token.operator?, Option.bind_some]
  simp only [executeName, counted_lookup] at executed
  cases bound : c.2.lookup name with
  | some v =>
    rw [bound, Option.isSome_some, if_pos rfl] at stands
    simp only [bound] at executed
    cases v with
    | procedure body =>
      refine .aside stands ?_
      rcases called : rest.call body limits.calls with ⟨accepted, rest'⟩
      simp only [callProcedure, called] at executed
      cases accepted with
      | true =>
        cases executed
        exact .nothing rfl
      | false =>
        cases executed
        exact .refused _ _ rfl
    | _ =>
      cases executed
      exact .aside stands (.bound name _ bound rfl)
  | none =>
    rw [bound, Option.isSome_none, if_neg Bool.false_ne_true] at stands
    simp only [bound] at executed
    -- the name is unbound, so it is an operator or unknown
    cases builtin : Operator.ofName? name with
    | none =>
      simp only [builtin] at executed
      cases executed
      exact .aside (stands.trans builtin) (.unknown _ rfl)
    | some op =>
      simp only [builtin] at executed
      cases op with
      | makePattern =>
        obtain ⟨made, answer, rfl⟩ := Option.map_eq_some_iff.mp executed
        exact .makePattern fuel (stands.trans builtin) answer
      | _ =>
        cases executed
        exact .operate _ rest (stands.trans builtin) rfl

/-- **One token has one of these effects.** -/
theorem Step.effect (h : Step limits level c c') : Effect limits level c c' := by
  obtain ⟨token, rest, fuel, next, -, stepped⟩ := h
  have here : c.1.next.1 = some token := by rw [next]
  have aside : token.operator? = none → Aside limits c.2.counted c'.2 →
      Effect limits level c c' := by
    intro nameless result
    exact .aside (by rw [operatorAt?, here, Option.bind_some, nameless, Option.bind_none]) result
  cases token with
  | operator name => exact effect_of_name here stepped
  | number text =>
    cases stepped
    exact aside rfl (.operand _ rfl rfl)
  | string s =>
    cases stepped
    exact aside rfl (.operand _ rfl rfl)
  | hexString s =>
    cases stepped
    exact aside rfl (.operand _ rfl rfl)
  | name s =>
    cases stepped
    exact aside rfl (.operand _ rfl rfl)
  | openBrace =>
    cases stepped
    exact aside rfl (.operand _ rfl rfl)
  | openBracket =>
    cases stepped
    exact aside rfl (.literal _ rest rfl)
  | openDict =>
    cases stepped
    exact aside rfl (.literal _ rest rfl)
  | _ =>
    cases stepped
    exact aside rfl (.nothing rfl)

/-- The name of an operator, bound to nothing, executes it. -/
theorem Executes.of_name {op : Operator} {m : Machine} (name : String)
    (named : Operator.ofName? name = some op) (unbound : m.lookup name = none)
    (live : m.isSpent limits = false) (other : op ≠ .makePattern) :
    Executes limits level op m (m.counted.operate (.ofTokens []) op) := by
  refine ⟨.ofTokens [.operator name], .ofTokens [], ?_, .operator name, .ofTokens [], 0, rfl,
    live, ?_⟩
  · change (if (m.lookup name).isSome then none else Operator.ofName? name) = some op
    rw [unbound, Option.isSome_none, if_neg Bool.false_ne_true, named]
  · simp only [step, executeName, counted_lookup, unbound, named]

/-- An operator other than the making of a pattern does what `operate`
says. -/
theorem Executes.eq_operate {op : Operator} {m m' : Machine} (h : Executes limits level op m m')
    (other : op ≠ .makePattern) : ∃ rest, m' = m.counted.operate rest op := by
  obtain ⟨s, s', stands, step⟩ := h
  cases step.effect with
  | operate op' rest stands' result =>
    obtain rfl : op' = op := Option.some.inj (stands'.symm.trans stands)
    exact ⟨rest, result⟩
  | makePattern _ stands' _ =>
    exact absurd (Option.some.inj (stands.symm.trans stands')) other
  | aside stands' _ => simp [stands] at stands'

end Effects

/-! ## Clips and saved states -/

section Layers

variable {limits : Limits} {level : Nat} {m m' : Machine}

/-- **A move changes clips and saved states in few ways**, whichever of the three things
happens. -/
theorem Move.layers (h : Move limits level m m') : LayerMove m.counted m' := by
  cases h with
  | step step => exact step_layers step
  | stop => exact .none ⟨rfl, rfl⟩
  | finish =>
    obtain ⟨clips, saved⟩ := paintPath_layers m .lines
    exact .none ⟨clips, saved⟩

/-- Clips stay nested from move to move, so a restored state never has a clip that the
state before it did not have. -/
theorem ClipsNested.of_move (h : m.ClipsNested) (move : Move limits level m m') :
    m'.ClipsNested := by
  have counted : m.counted.ClipsNested := h.of_same ⟨rfl, rfl⟩
  exact counted.move move.layers

end Layers

end Machine

end VectorPage
