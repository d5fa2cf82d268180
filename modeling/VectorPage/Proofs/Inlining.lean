/-
Calling a procedure and writing its body out.

A name bound to a procedure stands for the body: once the name is executed,
the two programs read the same tokens. Before that they differ in what lies
ahead, and one operator looks ahead: a line that completes a single line asks
for the next executable name, and what it asks is the name as written. So the
two programs part only if such a line waits for the very name that is called,
and the name and the body answer it differently.

The argument runs the two programs side by side. Up to the call, both read
`lead`, the same tokens, in front of two different tails (`followedBy`). A
step that stays within `lead` is the same step for both; a step that leaves it
has read into the tail, and never comes back.
-/
import Mathlib.Data.List.TakeWhile
import VectorPage.Proofs.Boundaries
import VectorPage.Proofs.Effects

set_option autoImplicit false

namespace VectorPage

/-! ## Two programs with a common lead -/

namespace TokenStream

/-- A stream with more program behind it. -/
def followedBy (lead : TokenStream) (tail : List Token) : TokenStream :=
  ⟨lead.calls, lead.program ++ tail⟩

theorem unread_followedBy (lead : TokenStream) (tail : List Token) :
    (lead.followedBy tail).unread = lead.unread ++ tail := by
  simp only [followedBy, unread, List.append_assoc]

theorem ofTokens_append (tokens tail : List Token) :
    ofTokens (tokens ++ tail) = (ofTokens tokens).followedBy tail :=
  rfl

/-- A token of the lead is the next one, whatever follows. -/
theorem next_followedBy {lead rest : TokenStream} {token : Token}
    (h : lead.next = (some token, rest)) (tail : List Token) :
    (lead.followedBy tail).next = (some token, rest.followedBy tail) := by
  obtain ⟨calls, program⟩ := lead
  simp only [next, followedBy] at h ⊢
  split at h
  · cases h
    rfl
  · cases program with
    | nil => simp at h
    | cons t ts =>
      cases h
      rfl

/-- **After the lead, reading goes into the tail**, and no call of the lead is
left. -/
theorem next_of_unread_nil {lead : TokenStream} (h : lead.unread = []) (tail : List Token) :
    (lead.followedBy tail).next = (ofTokens tail).next := by
  obtain ⟨calls, program⟩ := lead
  obtain ⟨noCalls, rfl⟩ : calls.flatten = [] ∧ program = [] := by simpa [unread] using h
  have finished : calls.dropWhile List.isEmpty = [] := by
    rw [List.dropWhile_eq_nil_iff]
    intro call mem
    simpa using List.flatten_eq_nil_iff.mp noCalls call mem
  simp only [next, followedBy, ofTokens, finished, List.nil_append, List.dropWhile_nil]

/-- Once the lead is used up, tokens are taken from the tail. -/
theorem program_next_of_unread_nil {lead : TokenStream} (h : lead.unread = [])
    (tail : List Token) : (lead.followedBy tail).next.2.program = tail.tail := by
  rw [next_of_unread_nil h]
  cases tail <;> rfl

/-- A call puts its body in front of the lead, and does not look at the tail. -/
theorem call_followedBy (lead : TokenStream) (tail body : List Token) (limit : Option Nat) :
    (lead.followedBy tail).call body limit
      = ((lead.call body limit).1, (lead.call body limit).2.followedBy tail) := by
  simp only [call]
  change (if lead.settled.isFull limit then _ else if body.isEmpty then _ else _) = _
  split
  · rfl
  · split <;> rfl

/-- Tokens of the program are used up and not put back; what calls bring in is on top of
them. -/
theorem program_next_le (s : TokenStream) : s.next.2.program.length ≤ s.program.length := by
  unfold next
  split
  · exact Nat.le_refl _
  · split <;> rename_i h <;> simp [h]

theorem program_call (s : TokenStream) (body : List Token) (limit : Option Nat) :
    (s.call body limit).2.program = s.program := by
  simp only [call]
  split
  · rfl
  · split <;> rfl

end TokenStream

namespace Scanner

variable {σ ρ : Type} (scanner : Scanner σ ρ)

/-- A scan that is done has read at least one token. -/
theorem length_of_feed_done {state : σ} {tokens rest : List Token} {result : ρ}
    (h : scanner.feed state tokens = .done (result, rest)) : rest.length < tokens.length := by
  induction tokens generalizing state with
  | nil => simp [feed] at h
  | cons token tokens ih =>
    simp only [feed] at h
    cases stepped : scanner.step state token with
    | more state =>
      rw [stepped] at h
      exact Nat.lt_succ_of_lt (ih h)
    | done value =>
      rw [stepped] at h
      obtain ⟨rfl, rfl⟩ := Prod.mk.inj (Scan.done.inj h)
      simp

/-- A scan that reads on through calls uses up tokens of the program at most. -/
theorem program_feedCalls_le (program : List Token) (state : σ) (calls : List (List Token)) :
    (scanner.feedCalls program state calls).2.program.length ≤ program.length := by
  induction calls generalizing state with
  | nil =>
    rw [feedCalls]
    cases fed : scanner.feed state program with
    | more state => simp
    | done result => exact Nat.le_of_lt (scanner.length_of_feed_done fed)
  | cons call outer ih =>
    rw [feedCalls]
    cases scanner.feed state call with
    | more state => exact ih state
    | done result => exact Nat.le_refl _

/-- **A scan that finds its end in the lead** is the same whatever the tail
is. -/
theorem run_of_feed_done {state : σ} {lead : TokenStream} {outcome : ρ × List Token}
    (h : scanner.feed state lead.unread = .done outcome) :
    ∃ result rest, ∀ tail,
      scanner.run state (lead.followedBy tail) = (result, TokenStream.followedBy rest tail) := by
  obtain ⟨calls, program⟩ := lead
  simp only [run, TokenStream.followedBy, TokenStream.unread] at h ⊢
  induction calls generalizing state with
  | nil =>
    simp only [List.flatten_nil, List.nil_append] at h
    exact ⟨outcome.1, ⟨[], outcome.2⟩, fun tail => by simp only [feedCalls, feed_append, h]⟩
  | cons call outer ih =>
    simp only [List.flatten_cons, List.append_assoc, scanner.feed_append state call] at h
    simp only [feedCalls]
    cases fed : scanner.feed state call with
    | done result => exact ⟨result.1, ⟨result.2 :: outer, program⟩, fun tail => rfl⟩
    | more state =>
      rw [fed] at h
      exact ih h

/-- A scan that finds no end in the lead goes on in the tail. -/
theorem run_of_feed_more {state state' : σ} {lead : TokenStream}
    (h : scanner.feed state lead.unread = .more state') (tail : List Token) :
    scanner.run state (lead.followedBy tail) = scanner.run state' (.ofTokens tail) := by
  obtain ⟨calls, program⟩ := lead
  simp only [run, TokenStream.followedBy, TokenStream.unread, TokenStream.ofTokens] at h ⊢
  induction calls generalizing state with
  | nil =>
    simp only [List.flatten_nil, List.nil_append] at h
    simp only [feedCalls, feed_append, h]
  | cons call outer ih =>
    simp only [List.flatten_cons, List.append_assoc, scanner.feed_append state call] at h
    cases fed : scanner.feed state call with
    | done result => simp [fed] at h
    | more state =>
      rw [fed] at h
      simp only [feedCalls, fed]
      exact ih h

/-- A scan that goes on in the tail reads at least one token of it. -/
theorem program_of_feed_more {state state' : σ} {lead : TokenStream} {tail : List Token}
    (h : scanner.feed state lead.unread = .more state') (nonempty : tail ≠ []) :
    (scanner.run state (lead.followedBy tail)).2.program.length < tail.length := by
  rw [scanner.run_of_feed_more h, run, TokenStream.ofTokens, feedCalls]
  cases fed : scanner.feed state' tail with
  | more state => exact List.length_pos_iff.mpr nonempty
  | done result => exact scanner.length_of_feed_done fed

end Scanner

namespace Machine

/-! ## The program only shrinks -/

section Shrinking

variable {limits : Limits} {level : Nat} {paint : List Token → Option Machine} {m : Machine}

/-- Executing a name takes no token of the program. It may put a body in front of it. -/
theorem program_executeName {name : String} {s : TokenStream} {c : TokenStream × Machine}
    (h : m.executeName limits level paint name s = some c) : c.1.program = s.program := by
  simp only [executeName] at h
  split at h
  · rename_i body _
    cases h
    have kept := s.program_call body limits.calls
    rcases called : s.call body limits.calls with ⟨_ | _, rest⟩ <;>
      simpa [callProcedure, called] using kept
  · cases h
    rfl
  · split at h
    · obtain ⟨made, -, rfl⟩ := Option.map_eq_some_iff.mp h
      rfl
    · cases h
      rfl
    · cases h
      rfl

/-- A step takes tokens only to read a body or a literal. -/
theorem program_step_le {token : Token} {s : TokenStream} {c : TokenStream × Machine}
    (h : m.step limits level paint token s = some c) :
    c.1.program.length ≤ s.program.length := by
  cases token with
  | operator name => exact Nat.le_of_eq (congrArg List.length (program_executeName h))
  | openBrace =>
    cases h
    exact bodyScanner.program_feedCalls_le s.program _ s.calls
  | openBracket =>
    cases h
    exact literalScanner.program_feedCalls_le s.program _ s.calls
  | openDict =>
    cases h
    exact literalScanner.program_feedCalls_le s.program _ s.calls
  | _ =>
    cases h
    exact Nat.le_refl _

/-- **The program gets shorter and never longer** in the course of a run. So a point in
the program is passed once. -/
theorem Steps.program_le {c c' : TokenStream × Machine} (h : Steps limits level c c') :
    c'.1.program.length ≤ c.1.program.length := by
  induction h with
  | refl => exact Nat.le_refl _
  | @tail c₁ _ _ last ih =>
    obtain ⟨token, rest, fuel, next, -, stepped⟩ := last
    have taken := c₁.1.program_next_le
    rw [next] at taken
    exact Nat.le_trans (program_step_le stepped) (Nat.le_trans taken ih)

end Shrinking

/-! ## The scan that runs out -/

/-- **A scan runs out**: the token opens a body or a literal, and the tokens
ahead do not close it. -/
inductive ScanRunsOut (limits : Limits) : Token → List Token → Prop where
  | body {ahead : List Token} {scan : BodyScan} :
      bodyScanner.feed .start ahead = .more scan → ScanRunsOut limits .openBrace ahead
  | array {ahead : List Token} {scan : LiteralScan} :
      literalScanner.feed (.start limits.literals (.array [])) ahead = .more scan →
      ScanRunsOut limits .openBracket ahead
  | dict {ahead : List Token} {scan : LiteralScan} :
      literalScanner.feed (.start limits.literals (.dict [] none)) ahead = .more scan →
      ScanRunsOut limits .openDict ahead

/-! ## The line that waits -/

/-- **A line waits for the tail**: the token is a line that completes a single
line, and no executable name of the lead comes after it. -/
def LineWaits (m : Machine) (token : Token) (lead : TokenStream) : Prop :=
  ∃ name, token = .operator name ∧ m.lookup name = none ∧ Operator.ofName? name = some .lineTo
    ∧ (∃ x y, m.path.segments = #[.moveTo x y]) ∧ lead.unread.findSome? Token.operator? = none

/-- A path that is a single line was a single move before. -/
theorem segments_of_isSingleLine {m : Machine} (h : m.drawLine.path.isSingleLine = true) :
    ∃ x y, m.path.segments = #[.moveTo x y] := by
  rcases hs : m.path.segments with ⟨segments⟩
  simp only [drawLine, Path.lineTo, Path.push, Path.isSingleLine, hs, Bool.and_eq_true] at h
  rcases segments with _ | ⟨first, _ | ⟨second, rest⟩⟩
  · simp at h
  · cases first <;> simp_all
  · simp at h

/-- **Whether a line ends here** is decided by the first name ahead. If there is one in
the lead, the tail does not matter. -/
theorem endsLine_followedBy {lead : TokenStream} (tail : List Token) :
    endsLine (lead.followedBy tail) =
      match lead.unread.findSome? Token.operator? with
      | some name => endsLine (.ofTokens [.operator name])
      | none => endsLine (.ofTokens tail) := by
  simp only [endsLine, TokenStream.upcomingOperator?_eq, TokenStream.unread_followedBy,
    List.findSome?_append]
  cases lead.unread.findSome? Token.operator? <;> rfl

/-! ## Side by side -/

section SideBySide

variable {limits : Limits} {level : Nat} {paint : List Token → Option Machine} {m : Machine}
  {tail tail' : List Token}

/-- A line does the same before both tails, unless it waits for them and they
answer differently. -/
theorem lineTo_followedBy {lead : TokenStream}
    (agree : (∃ x y, m.path.segments = #[.moveTo x y]) →
      lead.unread.findSome? Token.operator? = none →
      endsLine (.ofTokens tail) = endsLine (.ofTokens tail')) :
    m.lineTo (lead.followedBy tail) = m.lineTo (lead.followedBy tail') := by
  rw [lineTo_eq, lineTo_eq]
  by_cases single : m.drawLine.path.isSingleLine = true
  · have same : endsLine (lead.followedBy tail) = endsLine (lead.followedBy tail') := by
      rw [endsLine_followedBy, endsLine_followedBy]
      cases ahead : lead.unread.findSome? Token.operator? with
      | some name => rfl
      | none => exact agree (segments_of_isSingleLine single) ahead
    rw [same]
  · simp [single]

/-- A name does the same before another tail, unless it draws a line that waits for what
the tail says. -/
theorem executeName_followedBy {name : String} {lead : TokenStream} {c : TokenStream × Machine}
    (h : m.executeName limits level paint name (lead.followedBy tail) = some c)
    (agree : LineWaits m (.operator name) lead →
      endsLine (.ofTokens tail) = endsLine (.ofTokens tail')) :
    ∃ rest : TokenStream, c.1 = rest.followedBy tail ∧
      m.executeName limits level paint name (lead.followedBy tail')
        = some (rest.followedBy tail', c.2) := by
  simp only [executeName] at h ⊢
  cases bound : m.lookup name with
  | some value =>
    simp only [bound] at h ⊢
    cases value with
    | procedure body =>
      -- a call leaves the tail where it is
      simp only [callProcedure, TokenStream.call_followedBy] at h ⊢
      refine ⟨(lead.call body limits.calls).2, ?_⟩
      cases accepted : (lead.call body limits.calls).1 with
      | true =>
        simp only [accepted] at h ⊢
        cases h
        exact ⟨rfl, rfl⟩
      | false =>
        simp only [accepted] at h ⊢
        cases h
        exact ⟨rfl, rfl⟩
    | _ =>
      cases h
      exact ⟨lead, rfl, rfl⟩
  | none =>
    simp only [bound] at h ⊢
    cases builtin : Operator.ofName? name with
    | none =>
      simp only [builtin] at h ⊢
      cases h
      exact ⟨lead, rfl, rfl⟩
    | some op =>
      simp only [builtin] at h ⊢
      cases op with
      | makePattern =>
        obtain ⟨made, answer, rfl⟩ := Option.map_eq_some_iff.mp h
        exact ⟨lead, rfl, by simp only [answer, Option.map_some]⟩
      | lineTo =>
        cases h
        have same : m.lineTo (lead.followedBy tail) = m.lineTo (lead.followedBy tail') :=
          lineTo_followedBy fun single ahead => agree ⟨name, rfl, bound, builtin, single, ahead⟩
        exact ⟨lead, rfl, by simp only [operate, same]⟩
      | _ =>
        cases h
        exact ⟨lead, rfl, rfl⟩

/-- **A step within the lead** is the same before both tails: a scan finds its
end in the lead, and a line that waits is answered alike. -/
theorem step_within {token : Token} {lead : TokenStream} {c : TokenStream × Machine}
    (h : m.step limits level paint token (lead.followedBy tail) = some c)
    (closes : ¬ ScanRunsOut limits token lead.unread)
    (agree : LineWaits m token lead →
      endsLine (.ofTokens tail) = endsLine (.ofTokens tail')) :
    ∃ rest : TokenStream, c.1 = rest.followedBy tail ∧
      m.step limits level paint token (lead.followedBy tail')
        = some (rest.followedBy tail', c.2) := by
  -- what closes within `lead` is read there, whatever follows
  have literal : ∀ kind, c = m.pushLiteral limits kind (lead.followedBy tail) →
      (∀ scan, literalScanner.feed (.start limits.literals kind) lead.unread ≠ .more scan) →
      ∃ rest : TokenStream, c.1 = rest.followedBy tail ∧
        some (m.pushLiteral limits kind (lead.followedBy tail'))
          = some (rest.followedBy tail', c.2) := by
    rintro kind rfl closes
    cases fed : literalScanner.feed (.start limits.literals kind) lead.unread with
    | more scan => exact absurd fed (closes scan)
    | done outcome =>
      obtain ⟨result, rest, within⟩ := literalScanner.run_of_feed_done fed
      exact ⟨rest, by simp only [pushLiteral, within], by simp only [pushLiteral, within]⟩
  cases token with
  | operator name => exact executeName_followedBy h agree
  | openBracket => exact literal _ (Option.some.inj h).symm fun _ fed => closes (.array fed)
  | openDict => exact literal _ (Option.some.inj h).symm fun _ fed => closes (.dict fed)
  | openBrace =>
    cases fed : bodyScanner.feed .start lead.unread with
    | more scan => exact absurd (.body fed) closes
    | done outcome =>
      obtain ⟨result, rest, within⟩ := bodyScanner.run_of_feed_done fed
      simp only [step, within] at h ⊢
      cases h
      exact ⟨rest, rfl, rfl⟩
  | _ =>
    cases h
    exact ⟨lead, rfl, rfl⟩

/-- A step whose scan runs out of the lead reads into the tail. -/
theorem program_step_of_scanRunsOut {token : Token} {lead : TokenStream}
    {c : TokenStream × Machine}
    (h : m.step limits level paint token (lead.followedBy tail) = some c)
    (nonempty : tail ≠ []) (runsOut : ScanRunsOut limits token lead.unread) :
    c.1.program.length < tail.length := by
  cases runsOut with
  | body fed =>
    cases h
    exact bodyScanner.program_of_feed_more fed nonempty
  | array fed =>
    cases h
    exact literalScanner.program_of_feed_more fed nonempty
  | dict fed =>
    cases h
    exact literalScanner.program_of_feed_more fed nonempty

/-- The line of a configuration waits for a tail of its program. -/
def LineWaitsFor (tail : List Token) (c : TokenStream × Machine) : Prop :=
  ∃ token lead, c.1.next = (some token, TokenStream.followedBy lead tail) ∧ LineWaits c.2 token lead

/-- **One step before another tail.** As long as the step takes no token of the tail,
and a line that asks the tail gets the same answer, the step is the same. -/
theorem Step.followedBy {lead : TokenStream} {c : TokenStream × Machine}
    (h : Step limits level (lead.followedBy tail, m) c)
    (nonempty : tail ≠ []) (kept : tail.length ≤ c.1.program.length)
    (agree : LineWaitsFor tail (lead.followedBy tail, m) →
      endsLine (.ofTokens tail) = endsLine (.ofTokens tail')) :
    ∃ rest : TokenStream, c.1 = rest.followedBy tail ∧
      Step limits level (lead.followedBy tail', m) (rest.followedBy tail', c.2) := by
  obtain ⟨token, after, fuel, next, live, stepped⟩ := h
  dsimp only at next
  rcases first : lead.next with ⟨_ | token', rest⟩
  · -- the lead is used up, so the token was the first of the tail
    have used : lead.unread = [] := by
      rw [← List.head?_eq_none_iff, ← lead.next_of_unread.1, first]
    have shrunk : c.1.program.length ≤ tail.tail.length := by
      rw [← TokenStream.program_next_of_unread_nil used tail, next]
      exact program_step_le stepped
    have := List.length_pos_iff.mpr nonempty
    rw [List.length_tail] at shrunk
    omega
  · rw [TokenStream.next_followedBy first tail] at next
    obtain ⟨rfl, rfl⟩ : token' = token ∧ rest.followedBy tail = after := by simpa using next
    -- a scan out of the lead would have shortened the tail
    have closes : ¬ ScanRunsOut limits token' rest.unread := fun runsOut =>
      Nat.not_lt.mpr kept (program_step_of_scanRunsOut stepped nonempty runsOut)
    obtain ⟨rest', stays, stepped'⟩ := step_within stepped closes fun waits =>
      agree ⟨token', rest, TokenStream.next_followedBy first tail, waits⟩
    exact ⟨rest', stays, token', rest.followedBy tail', fuel,
      TokenStream.next_followedBy first tail', live, stepped'⟩

/-- **Steps that leave a tail unread** are the same before another tail. The
induction is from the front, since the steps still to come tell that the tail
is there. -/
theorem Steps.followedBy {c final : TokenStream × Machine} (h : Steps limits level c final)
    (nonempty : tail ≠ []) (kept : tail.length ≤ final.1.program.length)
    (agree : (∃ c', Steps limits level c c' ∧ Steps limits level c' final ∧ LineWaitsFor tail c') →
      endsLine (.ofTokens tail) = endsLine (.ofTokens tail'))
    {lead : TokenStream} (start : c.1 = lead.followedBy tail) :
    ∃ rest : TokenStream, final.1 = rest.followedBy tail ∧
      Steps limits level (lead.followedBy tail', c.2) (rest.followedBy tail', final.2) := by
  induction h using Relation.ReflTransGen.head_induction_on generalizing lead with
  | refl => exact ⟨lead, start, .refl⟩
  | @head c c₁ first later ih =>
    obtain ⟨s, m⟩ := c
    obtain rfl : s = lead.followedBy tail := start
    obtain ⟨rest₁, stays, first'⟩ := first.followedBy nonempty
      (Nat.le_trans kept (Steps.program_le later))
      fun waits => agree ⟨_, .refl, .head first later, waits⟩
    obtain ⟨rest, ends, later'⟩ := ih
      (fun ⟨c', before, after, waits⟩ => agree ⟨c', .head first before, after, waits⟩) stays
    exact ⟨rest, ends, .head first' later'⟩

end SideBySide

/-! ## Calls and their bodies -/

/-- **A program runs to its end** on a machine. At level zero this is `run`,
under some fuel. -/
def RunsFrom (limits : Limits) (level : Nat) (m : Machine) (program : List Token)
    (m' : Machine) : Prop :=
  ∃ fuel, (execute limits fuel level (.ofTokens program) m).map finish = some m'

/-- A run from a machine is its steps and the painting of what is left. -/
theorem runsFrom_iff {limits : Limits} {level : Nat} {program : List Token} {m m' : Machine} :
    RunsFrom limits level m program m'
      ↔ ∃ m₀, Ends limits level (.ofTokens program) m m₀ ∧ m₀.finish = m' := by
  constructor
  · rintro ⟨fuel, h⟩
    obtain ⟨m₀, ends, finished⟩ := Option.map_eq_some_iff.mp h
    exact ⟨m₀, ⟨fuel, ends⟩, finished⟩
  · rintro ⟨m₀, ⟨fuel, ends⟩, finished⟩
    exact ⟨fuel, Option.map_eq_some_iff.mpr ⟨m₀, ends, finished⟩⟩

/-- **A program runs to its end** on a fresh machine. -/
def Runs (limits : Limits) (program : List Token) (m : Machine) : Prop :=
  ∃ fuel, initial.run limits fuel program = some m

theorem runs_iff {limits : Limits} {program : List Token} {m : Machine} :
    Runs limits program m
      ↔ ∃ m₀, Ends limits 0 (.ofTokens program) initial m₀ ∧ m₀.finish = m :=
  runsFrom_iff

theorem finish_counted (m : Machine) : m.counted.finish = m.finish.counted := by
  simp only [finish, paintPath_eq]
  rfl

section Calls

variable {limits : Limits}

/-- Where operations are not limited, the count makes no difference to a
run. -/
theorem execute_counted (unlimited : limits.operations = none) {level : Nat} (fuel : Nat)
    (s : TokenStream) (m : Machine) :
    execute limits fuel level s m.counted = (execute limits fuel level s m).map counted := by
  have live : ∀ m : Machine, ¬ m.isSpent limits = true := by simp [isSpent, unlimited]
  induction fuel generalizing s m with
  | zero => rfl
  | succ fuel ih =>
    rcases hn : s.next with ⟨_ | token, rest⟩
    · rw [execute_of_next_none (by rw [hn]), execute_of_next_none (by rw [hn]), Option.map_some]
    · rw [execute_of_next_some hn, execute_of_next_some hn, if_neg (live _), if_neg (live _),
        step_counted]
      cases m.counted.step limits level (paintWith limits fuel level) token rest with
      | none => rfl
      | some c => exact ih c.1 c.2

/-- **Without a limit on operations the count does not matter** to a run: it is carried
along and never asked for. -/
theorem ends_counted_iff (unlimited : limits.operations = none) {level : Nat} {s : TokenStream}
    {m m' : Machine} :
    Ends limits level s m.counted m' ↔ ∃ m₀, Ends limits level s m m₀ ∧ m₀.counted = m' := by
  constructor
  · rintro ⟨fuel, h⟩
    rw [execute_counted unlimited, Option.map_eq_some_iff] at h
    obtain ⟨m₀, ends, same⟩ := h
    exact ⟨m₀, ⟨fuel, ends⟩, same⟩
  · rintro ⟨m₀, ⟨fuel, ends⟩, same⟩
    exact ⟨fuel, by rw [execute_counted unlimited, ends, Option.map_some, same]⟩

/-- **A call is its body written out, unless a line waits for it.** Let a
program reach, without limits on operations and calls, a name bound to a
procedure. If no line completed before it waits for that name, or if the name
and the body answer such a line alike, then the program ends exactly when the
one with the body in the place of the name does, and with the same machine but
for the one token more that was counted. -/
theorem call_as_inlined (operations : limits.operations = none) (calls : limits.calls = none)
    (name : String) (before body after : List Token) (s : TokenStream) (m : Machine)
    (reached : Steps limits 0 (.ofTokens (before ++ .operator name :: after), initial) (s, m))
    (here : s.calls.flatten = [] ∧ s.program = .operator name :: after)
    (bound : m.lookup name = some (.procedure body))
    (agree : (∃ c, Steps limits 0 (.ofTokens (before ++ .operator name :: after), initial) c
        ∧ Steps limits 0 c (s, m) ∧ LineWaitsFor (.operator name :: after) c) →
      endsLine (.ofTokens (.operator name :: after)) = endsLine (.ofTokens (body ++ after))) :
    (∀ m₁, Runs limits (before ++ .operator name :: after) m₁ →
      ∃ m₂, Runs limits (before ++ body ++ after) m₂ ∧ m₁ = m₂.counted)
    ∧ ∀ m₂, Runs limits (before ++ body ++ after) m₂ →
      Runs limits (before ++ .operator name :: after) m₂.counted := by
  have live : m.isSpent limits = false := by simp [isSpent, operations]
  -- the two programs side by side, up to the call
  obtain ⟨lead, left, inlined⟩ := reached.followedBy (List.cons_ne_nil _ _)
    (by rw [here.2]) agree (TokenStream.ofTokens_append before _)
  have used : lead.unread = [] := by
    have unread : lead.unread ++ .operator name :: after = .operator name :: after := by
      rw [← TokenStream.unread_followedBy, ← left, TokenStream.unread, here.1, here.2,
        List.nil_append]
    simpa using unread
  -- the call itself
  obtain ⟨called, unread, step⟩ :
      ∃ s', s'.unread = body ++ after ∧ Step limits 0 (s, m) (s', m.counted) :=
    step_call calls (by rw [TokenStream.unread, here.1, here.2, List.nil_append]) live bound
  have same : (lead.followedBy (body ++ after)).unread = called.unread := by
    rw [TokenStream.unread_followedBy, used, unread, List.nil_append]
  -- from there on they read the same tokens
  have ends : ∀ m', Ends limits 0 (.ofTokens (before ++ .operator name :: after)) initial m'
      ↔ ∃ m₀, Ends limits 0 (.ofTokens (before ++ body ++ after)) initial m₀
        ∧ m₀.counted = m' := by
    intro m'
    rw [reached.ends_iff, step.ends_iff, ends_counted_iff operations, List.append_assoc,
      TokenStream.ofTokens_append before (body ++ after)]
    refine exists_congr fun m₀ => and_congr_left fun _ => ?_
    rw [inlined.ends_iff]
    exact (ends_iff_of_unread calls same).symm
  constructor
  · intro m₁ runs
    obtain ⟨m', ended, rfl⟩ := runs_iff.mp runs
    obtain ⟨m₀, ended₀, rfl⟩ := (ends m').mp ended
    exact ⟨m₀.finish, runs_iff.mpr ⟨m₀, ended₀, rfl⟩, finish_counted m₀⟩
  · intro m₂ runs
    obtain ⟨m₀, ended₀, rfl⟩ := runs_iff.mp runs
    exact runs_iff.mpr ⟨m₀.counted, (ends _).mpr ⟨m₀, ended₀, rfl⟩, finish_counted m₀⟩

/-- A procedure `f`, and a line from the origin, after which `f` may be
called. -/
def lineBeforeCall (body : List Token) : List Token :=
  [.name "f", .openBrace] ++ body ++ [.closeBrace, .operator "def", .operator "moveto",
    .number "9", .number "9", .operator "lineto"]

/-- The line of `lineBeforeCall` waits for the call of `f`. If `f` strokes, the
name and the body answer it alike, and the call is its body written out. -/
theorem call_as_inlined_stroke :
    (∃ m₁, Runs {} (lineBeforeCall [.operator "stroke"] ++ [.operator "f"]) m₁)
    ∧ (∀ m₁, Runs {} (lineBeforeCall [.operator "stroke"] ++ [.operator "f"]) m₁ →
      ∃ m₂, Runs {} (lineBeforeCall [.operator "stroke"] ++ [.operator "stroke"] ++ []) m₂
        ∧ m₁ = m₂.counted)
    ∧ ∀ m₂, Runs {} (lineBeforeCall [.operator "stroke"] ++ [.operator "stroke"] ++ []) m₂ →
      Runs {} (lineBeforeCall [.operator "stroke"] ++ [.operator "f"]) m₂.counted := by
  have ran : (initial.run {} 10 (lineBeforeCall [.operator "stroke"] ++ [.operator "f"])).isSome :=
    by decide +kernel
  have reached : Steps {} 0
      (.ofTokens (lineBeforeCall [.operator "stroke"] ++ [.operator "f"]), initial) _ :=
    .head ⟨_, _, 0, rfl, rfl, rfl⟩ <| .head ⟨_, _, 0, rfl, rfl, rfl⟩ <|
    .head ⟨_, _, 0, rfl, rfl, rfl⟩ <| .head ⟨_, _, 0, rfl, rfl, rfl⟩ <|
    .head ⟨_, _, 0, rfl, rfl, rfl⟩ <| .head ⟨_, _, 0, rfl, rfl, rfl⟩ <|
    .head ⟨_, _, 0, rfl, rfl, rfl⟩ .refl
  obtain ⟨m₁, ran⟩ := Option.isSome_iff_exists.mp ran
  exact ⟨⟨m₁, 10, ran⟩, call_as_inlined rfl rfl "f" (lineBeforeCall [.operator "stroke"])
    [.operator "stroke"] [] _ _ reached ⟨rfl, rfl⟩ rfl fun _ => rfl⟩

/-- For each shape, whether it is a path painted with a stroke set. -/
def strokesSet (m : Machine) : List Bool :=
  m.picture.shapes.toList.map fun
    | .path _ look _ _ => look.stroke.isSome
    | _ => false

/-- **A line can tell a call from its body.** If `f` sets a gray, a line just
before the call is painted at once, with no stroke set; with the body in the
place of the name, the same line is left open and painted in that gray. -/
theorem call_not_as_inlined :
    (∃ s m, Steps {} 0
        (.ofTokens (lineBeforeCall [.number "1", .operator "setgray"] ++ [.operator "f"]), initial)
        (s, m)
      ∧ s.calls.flatten = [] ∧ s.program = [.operator "f"]
      ∧ m.lookup "f" = some (.procedure [.number "1", .operator "setgray"]))
    ∧ ∃ m₁ m₂,
      Runs {} (lineBeforeCall [.number "1", .operator "setgray"] ++ [.operator "f"]) m₁
      ∧ Runs {} (lineBeforeCall [.number "1", .operator "setgray"]
          ++ [.number "1", .operator "setgray"] ++ []) m₂
      ∧ m₁.picture ≠ m₂.picture := by
  have reached : Steps {} 0
      (.ofTokens (lineBeforeCall [.number "1", .operator "setgray"] ++ [.operator "f"]), initial)
      _ :=
    .head ⟨_, _, 0, rfl, rfl, rfl⟩ <| .head ⟨_, _, 0, rfl, rfl, rfl⟩ <|
    .head ⟨_, _, 0, rfl, rfl, rfl⟩ <| .head ⟨_, _, 0, rfl, rfl, rfl⟩ <|
    .head ⟨_, _, 0, rfl, rfl, rfl⟩ <| .head ⟨_, _, 0, rfl, rfl, rfl⟩ <|
    .head ⟨_, _, 0, rfl, rfl, rfl⟩ .refl
  have called : (initial.run {} 11 (lineBeforeCall [.number "1", .operator "setgray"]
      ++ [.operator "f"])).map strokesSet = some [false] := by decide +kernel
  have inlined : (initial.run {} 10 (lineBeforeCall [.number "1", .operator "setgray"]
      ++ [.number "1", .operator "setgray"] ++ [])).map strokesSet = some [true] := by
    decide +kernel
  obtain ⟨m₁, ran₁, painted₁⟩ := Option.map_eq_some_iff.mp called
  obtain ⟨m₂, ran₂, painted₂⟩ := Option.map_eq_some_iff.mp inlined
  refine ⟨⟨_, _, reached, rfl, rfl, rfl⟩, m₁, m₂, ⟨11, ran₁⟩, ⟨10, ran₂⟩, fun same => ?_⟩
  rw [strokesSet, same, ← strokesSet, painted₂] at painted₁
  simp at painted₁

end Calls

end Machine

end VectorPage
