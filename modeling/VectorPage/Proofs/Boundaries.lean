/-
The boundaries between calls do not show.

A stream is read in three ways: token by token, by the scanners of bodies and
literals, and by the look ahead of a line. This file shows for each of them
that it depends on `unread` alone, and that what it leaves unread does too.
Where calls are not limited, a call is also a matter of `unread`: it is never
refused. So two streams with the same tokens to read drive a machine through
the same states, and a call is the same as its body written out.
-/
import VectorPage.Proofs.Runs
import VectorPage.Proofs.Splicing

set_option autoImplicit false

namespace VectorPage

/-! ## Scanning -/

namespace Scanner

variable {σ ρ : Type} (scanner : Scanner σ ρ)

/-- A scan of a plain list of tokens: the result, and what is left. -/
def scan (state : σ) (tokens : List Token) : ρ × List Token :=
  match scanner.feed state tokens with
  | .more state => (scanner.finish state, [])
  | .done result => result

/-- Feeding two runs of tokens one after the other is feeding them at once. -/
theorem feed_append (state : σ) (xs ys : List Token) :
    scanner.feed state (xs ++ ys) =
      match scanner.feed state xs with
      | .more state => scanner.feed state ys
      | .done (result, rest) => .done (result, rest ++ ys) := by
  induction xs generalizing state with
  | nil => rfl
  | cons token xs ih =>
    simp only [List.cons_append, feed]
    cases scanner.step state token with
    | more state => exact ih state
    | done result => rfl

/-- **A scan through calls reads them as one text.** By induction on the calls that are
open: when one is used up, the scan goes on in the one below, in the same state. -/
theorem feedCalls_flat (program : List Token) (state : σ) (calls : List (List Token)) :
    (scanner.feedCalls program state calls).1 = (scanner.scan state (calls.flatten ++ program)).1
    ∧ (scanner.feedCalls program state calls).2.unread
      = (scanner.scan state (calls.flatten ++ program)).2 := by
  induction calls generalizing state with
  | nil =>
    simp only [feedCalls, scan, List.flatten_nil, List.nil_append]
    cases scanner.feed state program with
    | more state => exact ⟨rfl, rfl⟩
    | done result => exact ⟨rfl, rfl⟩
  | cons call outer ih =>
    rw [feedCalls, scan, List.flatten_cons, List.append_assoc, scanner.feed_append state call]
    cases scanner.feed state call with
    | more state => exact ih state
    | done result => exact ⟨rfl, by simp [TokenStream.unread]⟩

/-- **A scan crosses the boundaries**: it is a scan of what is unread. -/
theorem run_flat (state : σ) (s : TokenStream) :
    (scanner.run state s).1 = (scanner.scan state s.unread).1
    ∧ (scanner.run state s).2.unread = (scanner.scan state s.unread).2 :=
  scanner.feedCalls_flat s.program state s.calls

end Scanner

namespace TokenStream

/-- The look ahead finds the first executable name of what is unread. -/
theorem upcomingOperator?_eq (s : TokenStream) :
    s.upcomingOperator? = s.unread.findSome? Token.operator? := by
  have across : ∀ calls : List (List Token),
      (calls.findSome? fun call => call.findSome? Token.operator?)
        = calls.flatten.findSome? Token.operator? := by
    intro calls
    induction calls with
    | nil => rfl
    | cons call outer ih =>
      rw [List.findSome?_cons, List.flatten_cons, List.findSome?_append, ih]
      cases call.findSome? Token.operator? <;> rfl
  rw [upcomingOperator?, unread, List.findSome?_append, across]

/-- Without a limit every call is accepted. -/
theorem call_unlimited (s : TokenStream) (body : List Token) :
    (s.call body none).1 = true ∧ (s.call body none).2.unread = body ++ s.unread := by
  have accepted : (s.call body none).1 = true := by simp [call_fst, isFull]
  exact ⟨accepted, by rw [unread_call, accepted, if_pos rfl]⟩

end TokenStream

namespace Machine

/-! ## One step -/

/-- What can be seen of a stream and a machine: the tokens to read, and the
machine. -/
def seen (c : TokenStream × Machine) : List Token × Machine :=
  (c.1.unread, c.2)

section Seen

variable {limits : Limits} {level : Nat} {paint : List Token → Option Machine}
  {s s' : TokenStream} {m : Machine}

/-- Looking ahead sees tokens and not where calls end. -/
theorem endsLine_of_unread (same : s.unread = s'.unread) : endsLine s = endsLine s' := by
  rw [endsLine, endsLine, TokenStream.upcomingOperator?_eq, TokenStream.upcomingOperator?_eq, same]

/-- Only a line looks at the stream. -/
theorem operate_of_unread (same : s.unread = s'.unread) (op : Operator) :
    m.operate s op = m.operate s' op := by
  cases op with
  | lineTo => simp only [operate, lineTo, endsLine_of_unread same]
  | _ => rfl

/-- Without a limit on calls, a call puts its body in front of what is to be read. -/
theorem callProcedure_seen (unlimited : limits.calls = none) (name : String) (body : List Token)
    (s : TokenStream) : seen (m.callProcedure limits name body s) = (body ++ s.unread, m) := by
  obtain ⟨accepted, unread⟩ := s.call_unlimited body
  rcases called : s.call body none with ⟨ok, rest⟩
  rw [called] at accepted unread
  obtain rfl : ok = true := accepted
  simp [callProcedure, unlimited, called, seen, unread]

/-- So names do the same to two streams that read alike. -/
theorem executeName_seen (unlimited : limits.calls = none) (same : s.unread = s'.unread)
    (name : String) :
    (m.executeName limits level paint name s).map seen
      = (m.executeName limits level paint name s').map seen := by
  simp only [executeName]
  split
  · simp only [Option.map_some, callProcedure_seen unlimited, same]
  · simp only [Option.map_some, seen, same]
  · split
    · cases m.makePattern limits level paint with
      | none => rfl
      | some made => simp only [Option.map_some, seen, same]
    · simp only [Option.map_some, seen, same, operate_of_unread same]
    · simp only [Option.map_some, seen, same]

/-- A literal goes on through the end of a call, if its bracket is still open there. -/
theorem pushLiteral_seen (same : s.unread = s'.unread) (kind : OpenLiteral) :
    seen (m.pushLiteral limits kind s) = seen (m.pushLiteral limits kind s') := by
  obtain ⟨result, rest⟩ := literalScanner.run_flat (.start limits.literals kind) s
  obtain ⟨result', rest'⟩ := literalScanner.run_flat (.start limits.literals kind) s'
  simp only [pushLiteral, seen, result, rest, result', rest', same]

/-- **A step shows no boundary.** From streams with the same tokens to read, a
token leads to the same machine and leaves the same tokens. -/
theorem step_seen (unlimited : limits.calls = none) (same : s.unread = s'.unread)
    (token : Token) :
    (m.step limits level paint token s).map seen
      = (m.step limits level paint token s').map seen := by
  cases token with
  | operator name => exact executeName_seen unlimited same name
  | openBracket => simp only [step, Option.map_some, pushLiteral_seen same]
  | openDict => simp only [step, Option.map_some, pushLiteral_seen same]
  | openBrace =>
    obtain ⟨result, rest⟩ := bodyScanner.run_flat .start s
    obtain ⟨result', rest'⟩ := bodyScanner.run_flat .start s'
    simp only [step, Option.map_some, seen, result, rest, result', rest', same]
  | _ => simp only [step, Option.map_some, seen, same]

end Seen

/-! ## Whole runs -/

section Runs

variable {limits : Limits} {level : Nat}

/-- **A run shows no boundary**, under any fuel. The induction is on the fuel;
what carries it is that the two streams have the same tokens to read after
every step. -/
theorem execute_of_unread (unlimited : limits.calls = none) (fuel : Nat) {s s' : TokenStream}
    (m : Machine) (same : s.unread = s'.unread) :
    execute limits fuel level s m = execute limits fuel level s' m := by
  induction fuel generalizing s s' m with
  | zero => rfl
  | succ fuel ih =>
    -- streams that read alike give the same token, and read alike afterwards
    obtain ⟨head, tail⟩ := s.next_of_unread
    obtain ⟨head', tail'⟩ := s'.next_of_unread
    rw [same] at head tail
    rcases hn : s.next with ⟨token, rest⟩
    rcases hn' : s'.next with ⟨token', rest'⟩
    rw [hn] at head tail
    rw [hn'] at head' tail'
    obtain rfl : token = token' := head.trans head'.symm
    have sameRest : rest.unread = rest'.unread := tail.trans tail'.symm
    cases token with
    | none => rw [execute_of_next_none (by rw [hn]), execute_of_next_none (by rw [hn'])]
    | some token =>
      rw [execute_of_next_some hn, execute_of_next_some hn']
      by_cases spent : m.isSpent limits
      · rw [if_pos spent, if_pos spent]
      · rw [if_neg spent, if_neg spent]
        -- the step may leave its stream cut otherwise, but what is seen of it agrees
        have stepped :
            (m.counted.step limits level (paintWith limits fuel level) token rest).map seen
              = (m.counted.step limits level (paintWith limits fuel level) token rest').map seen :=
          step_seen unlimited sameRest token
        cases first : m.counted.step limits level (paintWith limits fuel level) token rest with
        | none =>
          rw [first, Option.map_none, eq_comm, Option.map_eq_none_iff] at stepped
          rw [stepped]
        | some c =>
          rw [first, Option.map_some, eq_comm, Option.map_eq_some_iff] at stepped
          obtain ⟨c', second, agree⟩ := stepped
          obtain ⟨unread, machine⟩ := Prod.mk.inj agree
          rw [second, Option.bind_some, Option.bind_some, machine]
          exact ih c.2 unread.symm

/-- A run ends in the same machine, whatever calls the tokens are spread over. -/
theorem Ends.of_unread (unlimited : limits.calls = none) {s s' : TokenStream} {m m' : Machine}
    (same : s.unread = s'.unread) (h : Ends limits level s m m') : Ends limits level s' m m' := by
  obtain ⟨fuel, h⟩ := h
  exact ⟨fuel, by rw [← execute_of_unread unlimited fuel m same, h]⟩

theorem ends_iff_of_unread (unlimited : limits.calls = none) {s s' : TokenStream} {m m' : Machine}
    (same : s.unread = s'.unread) : Ends limits level s m m' ↔ Ends limits level s' m m' :=
  ⟨.of_unread unlimited same, .of_unread unlimited same.symm⟩

/-- **The step of a call**: the name is counted, and its body stands in front
of what remains. -/
theorem step_call (unlimited : limits.calls = none) {s : TokenStream} {m : Machine}
    {name : String} {body remaining : List Token} (next : s.unread = .operator name :: remaining)
    (live : m.isSpent limits = false) (bound : m.lookup name = some (.procedure body)) :
    ∃ s', s'.unread = body ++ remaining ∧ Step limits level (s, m) (s', m.counted) := by
  obtain ⟨head, tail⟩ := s.next_of_unread
  rcases hn : s.next with ⟨token, rest⟩
  rw [hn, next] at head tail
  obtain rfl : token = some (.operator name) := head
  have unread : rest.unread = remaining := tail
  have called := callProcedure_seen (m := m.counted) unlimited name body rest
  rcases hc : m.counted.callProcedure limits name body rest with ⟨s', m'⟩
  rw [hc, unread] at called
  obtain ⟨unread', machine⟩ := Prod.mk.inj called
  obtain rfl : m' = m.counted := machine
  have bound' : m.counted.lookup name = some (.procedure body) := bound
  exact ⟨s', unread', .operator name, rest, 0, hn, live, by simp [step, executeName, bound', hc]⟩

/-- **The boundaries between calls are invisible.** Without a limit on calls,
two streams with the same tokens to read end with the same machine, or both
do not end; and executing a name bound to a procedure, with some tokens
remaining, ends as executing its body followed by those tokens does, however
these are kept, once the name has been counted. -/
theorem boundaries_invisible (unlimited : limits.calls = none) (m : Machine)
    (s s' : TokenStream) (same : s.unread = s'.unread) :
    ((∃ m₁, Ends limits level s m m₁) ↔ ∃ m₂, Ends limits level s' m m₂)
    ∧ (∀ m₁ m₂, Ends limits level s m m₁ → Ends limits level s' m m₂ → m₁ = m₂)
    ∧ (∀ name body remaining, s.unread = .operator name :: remaining →
        m.isSpent limits = false → m.lookup name = some (.procedure body) →
        ∀ inlined : TokenStream, inlined.unread = body ++ remaining →
        ∀ m', Ends limits level s m m' ↔ Ends limits level inlined m.counted m') := by
  refine ⟨?_, ?_, ?_⟩
  · exact exists_congr fun m₁ => ends_iff_of_unread unlimited same
  · intro m₁ m₂ h₁ h₂
    exact (h₁.of_unread unlimited same).unique h₂
  · intro name body remaining next live bound inlined unread m'
    obtain ⟨called, unread', step⟩ :
        ∃ s', s'.unread = body ++ remaining ∧ Step limits level (s, m) (s', m.counted) :=
      step_call unlimited next live bound
    rw [step.ends_iff]
    exact ends_iff_of_unread unlimited (unread'.trans unread.symm)

/-- An array whose bracket is opened by a procedure and closed after the
call: kept in two parts or one, and with the procedure called or written out,
it ends with the same machine. -/
theorem boundaries_invisible_in_array :
    let m : Machine := { heap := ⟨#[[("f", .procedure [.openBracket, .name "x"])]]⟩ }
    let parted : TokenStream := ⟨[[.operator "f"]], [.name "y", .closeBracket]⟩
    let whole := TokenStream.ofTokens [.operator "f", .name "y", .closeBracket]
    let inlined := TokenStream.ofTokens [.openBracket, .name "x", .name "y", .closeBracket]
    parted.unread = whole.unread
    ∧ (∃ m₁, Ends {} 0 parted m m₁ ∧ m₁.operands = [.array [.name "x", .name "y"]])
    ∧ ((∃ m₁, Ends {} 0 parted m m₁) ↔ ∃ m₂, Ends {} 0 whole m m₂)
    ∧ (∀ m₁ m₂, Ends {} 0 parted m m₁ → Ends {} 0 whole m m₂ → m₁ = m₂)
    ∧ ∀ m', Ends {} 0 parted m m' ↔ Ends {} 0 inlined m.counted m' := by
  intro m parted whole inlined
  obtain ⟨both, unique, call⟩ := @boundaries_invisible {} 0 rfl m parted whole rfl
  exact ⟨rfl, ⟨_, ⟨3, rfl⟩, rfl⟩, both, unique,
    call "f" [.openBracket, .name "x"] [.name "y", .closeBracket] rfl rfl rfl inlined rfl⟩

end Runs

end Machine

end VectorPage
