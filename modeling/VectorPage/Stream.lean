/-
The tokens still to be executed.

Calling a procedure puts its body in front of what remains. The bodies are
kept apart as *calls*, innermost first, above the program itself, so that the
depth of calls can be limited; what the machine reads is the one sequence
`unread`, in which the boundaries do not show. A call whose tokens are used
up is dropped when the next token is asked for or the next call is made, and
not before: a procedure called by the last token of another does not lie
above it.
-/
import VectorPage.Token.Basic

set_option autoImplicit false

namespace VectorPage

/-- The unread tokens of the procedures being executed, innermost first, and
of the program. -/
structure TokenStream where
  calls : List (List Token)
  program : List Token
  deriving DecidableEq, Repr

namespace TokenStream

/-- A stream over a whole program. -/
def ofTokens (program : List Token) : TokenStream :=
  ⟨[], program⟩

/-- **The sequence that will be read**, if nothing more is called. -/
def unread (s : TokenStream) : List Token :=
  s.calls.flatten ++ s.program

/-- The number of calls that have not been dropped. -/
def depth (s : TokenStream) : Nat :=
  s.calls.length

/-- The stream without the finished calls on top. -/
def settled (s : TokenStream) : TokenStream :=
  ⟨s.calls.dropWhile List.isEmpty, s.program⟩

/-- **The next token**, if one is left, and the stream after it. -/
def next (s : TokenStream) : Option Token × TokenStream :=
  match s.calls.dropWhile List.isEmpty with
  | (token :: rest) :: outer => (some token, ⟨rest :: outer, s.program⟩)
  | calls =>
    match s.program with
    | token :: rest => (some token, ⟨calls, rest⟩)
    | [] => (none, ⟨calls, []⟩)

/-- Whether a limit leaves no room for one more call. -/
def isFull (s : TokenStream) (limit : Option Nat) : Bool :=
  limit.any (· ≤ s.depth)

/-- **A call**: the body goes in front of what remains. Finished calls are
dropped first; then, if the limit leaves no room, the call is refused. An
empty body takes no room. -/
def call (s : TokenStream) (body : List Token) (limit : Option Nat) : Bool × TokenStream :=
  let s := s.settled
  if s.isFull limit then (false, s)
  else if body.isEmpty then (true, s)
  else (true, ⟨body :: s.calls, s.program⟩)

/-- The first executable name that will be read. -/
def upcomingOperator? (s : TokenStream) : Option String :=
  (s.calls.findSome? fun call => call.findSome? Token.operator?).or
    (s.program.findSome? Token.operator?)

/-! ### What the operations do to the sequence -/

/-- Finished calls add nothing to the sequence. -/
theorem flatten_dropWhile_isEmpty (calls : List (List Token)) :
    (calls.dropWhile List.isEmpty).flatten = calls.flatten := by
  induction calls with
  | nil => rfl
  | cons call outer ih =>
    cases call with
    | nil => simpa using ih
    | cons token rest => simp

theorem unread_settled (s : TokenStream) : s.settled.unread = s.unread := by
  simp only [settled, unread, flatten_dropWhile_isEmpty]

/-- **Taking a token** takes the head off the sequence, wherever the calls
end. -/
theorem next_of_unread (s : TokenStream) :
    s.next.1 = s.unread.head? ∧ s.next.2.unread = s.unread.tail := by
  have same := flatten_dropWhile_isEmpty s.calls
  have present := List.head?_dropWhile_not List.isEmpty s.calls
  unfold next
  split
  · rename_i token rest outer h
    rw [h] at same
    simp [unread, ← same]
  · rename_i notCons
    -- no call has a token left, so the program is next
    have finished : s.calls.dropWhile List.isEmpty = [] := by
      rcases h : s.calls.dropWhile List.isEmpty with _ | ⟨_ | ⟨token, rest⟩, outer⟩
      · rfl
      · simp [h] at present
      · exact absurd h (notCons token rest outer)
    rw [finished] at same ⊢
    split <;> rename_i h <;> simp [unread, ← same, h]

/-- **A call** puts the body in front of the sequence, or leaves the sequence
as it was when it is refused. -/
theorem unread_call (s : TokenStream) (body : List Token) (limit : Option Nat) :
    (s.call body limit).2.unread =
      if (s.call body limit).1 then body ++ s.unread else s.unread := by
  rw [← unread_settled s]
  by_cases full : s.settled.isFull limit
  · simp [call, full]
  · by_cases empty : body = []
    · simp [call, full, empty]
    · simp [call, full, empty, unread]

end TokenStream

/-! ## Scanning ahead

Procedure bodies and literals are collected by scanners: one token at a time
until the scanner is satisfied. A scan crosses the boundaries between calls,
and drops the calls it has used up. -/

/-- The outcome of one token: the scan goes on, or it is done. -/
inductive Scan (σ ρ : Type) where
  | more (state : σ)
  | done (result : ρ)

/-- A way to collect a run of tokens. `finish` is the result when the tokens
run out. -/
structure Scanner (σ ρ : Type) where
  step : σ → Token → Scan σ ρ
  finish : σ → ρ

namespace Scanner

variable {σ ρ : Type}

/-- Scans a list of tokens: the result with the unread rest, or the state in
which the tokens ran out. -/
def feed (scanner : Scanner σ ρ) : σ → List Token → Scan σ (ρ × List Token)
  | state, [] => .more state
  | state, token :: rest =>
    match scanner.step state token with
    | .more state => feed scanner state rest
    | .done result => .done (result, rest)

/-- Scans the calls from the innermost out, then the program. -/
def feedCalls (scanner : Scanner σ ρ) (program : List Token) :
    σ → List (List Token) → ρ × TokenStream
  | state, [] =>
    match scanner.feed state program with
    | .more state => (scanner.finish state, ⟨[], []⟩)
    | .done (result, rest) => (result, ⟨[], rest⟩)
  | state, call :: outer =>
    match scanner.feed state call with
    | .more state => feedCalls scanner program state outer
    | .done (result, rest) => (result, ⟨rest :: outer, program⟩)

/-- **A scan of the stream** from a state: the result, and the stream after
the last token that belongs to it. -/
def run (scanner : Scanner σ ρ) (state : σ) (s : TokenStream) : ρ × TokenStream :=
  scanner.feedCalls s.program state s.calls

end Scanner

end VectorPage
