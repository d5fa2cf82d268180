/-
A token stream is one flat sequence with splicing.

The stream keeps procedure bodies apart and drops them late: a body that has
been read to its end stays until the next token is asked for or the next call
is made. This file shows that none of it can be observed through `unread`,
and that the late dropping leaves no finished body *under* another one.

The invariant behind the second half is `InnerOpen`: below the innermost call,
every call has a token left. A call is only ever put on top of a stream from
which the finished calls were dropped, and reading takes tokens from the
innermost call only. Under the invariant the depth counted by a limit is the
number of calls that are not finished.
-/
import Mathlib.Data.List.Induction
import VectorPage.Stream

set_option autoImplicit false

namespace VectorPage.TokenStream

/-! ## Histories -/

/-- Something asked of a stream. -/
inductive Request where
  | next
  | call (body : List Token) (limit : Option Nat)

/-- The stream after a request. -/
def serve (s : TokenStream) : Request → TokenStream
  | .next => s.next.2
  | .call body limit => (s.call body limit).2

/-- **The stream after a history** of requests, from a program on. -/
def after (program : List Token) (history : List Request) : TokenStream :=
  history.foldl serve (ofTokens program)

/-- The last request is served by the stream that those before it have left. -/
theorem after_concat (program : List Token) (history : List Request) (request : Request) :
    after program (history ++ [request]) = (after program history).serve request := by
  simp only [after, List.foldl_append, List.foldl_cons, List.foldl_nil]

/-- The parts the stream is kept in, innermost first; the last is the
program. -/
def frames (s : TokenStream) : List (List Token) :=
  s.calls ++ [s.program]

/-- How many calls have a token left. -/
def openCalls (s : TokenStream) : Nat :=
  s.calls.countP fun call => !call.isEmpty

/-! ## Dropping finished calls -/

/-- Below the innermost call, every call has a token left. -/
def InnerOpen (s : TokenStream) : Prop :=
  ∀ call ∈ s.calls.tail, call ≠ []

/-- Calls that are used up are not open, so leaving them out changes nothing. -/
theorem openCalls_settled (s : TokenStream) : s.settled.openCalls = s.openCalls := by
  obtain ⟨calls, program⟩ := s
  simp only [settled, openCalls]
  induction calls with
  | nil => rfl
  | cons call outer ih =>
    cases call with
    | nil => simpa using ih
    | cons token rest => simp

theorem depth_settled_le (s : TokenStream) : s.settled.depth ≤ s.depth :=
  (List.dropWhile_suffix _).length_le

/-- Under the invariant at most one call is dropped, and every call that stays
has a token left. -/
theorem InnerOpen.settled {s : TokenStream} (h : s.InnerOpen) :
    ∀ call ∈ s.settled.calls, call ≠ [] := by
  obtain ⟨calls, program⟩ := s
  cases calls with
  | nil => simp [TokenStream.settled]
  | cons call outer =>
    have openOuter : ∀ call ∈ outer, call ≠ [] := h
    cases call with
    | cons token rest => simpa [TokenStream.settled] using openOuter
    | nil =>
      -- the finished call goes, and the one below it stops the dropping
      have stays : outer.dropWhile List.isEmpty = outer := by
        cases outer with
        | nil => rfl
        | cons call below =>
          have : call ≠ [] := openOuter call (by simp)
          simp [this]
      simpa [TokenStream.settled, stays] using openOuter

/-- A settled stream is as deep as it has open calls. -/
theorem InnerOpen.depth_settled {s : TokenStream} (h : s.InnerOpen) :
    s.settled.depth = s.openCalls := by
  rw [← openCalls_settled, depth, openCalls, eq_comm, List.countP_eq_length]
  intro call mem
  simpa using h.settled call mem

/-! ## One request -/

/-- **What taking a token leaves**: the settled calls with a token taken off
the innermost one, or no calls at all. -/
theorem calls_next (s : TokenStream) :
    (∃ token rest outer, s.settled.calls = (token :: rest) :: outer
      ∧ s.next.2.calls = rest :: outer) ∨ s.next.2.calls = [] := by
  have present := List.head?_dropWhile_not List.isEmpty s.calls
  rcases h : s.calls.dropWhile List.isEmpty with _ | ⟨_ | ⟨token, rest⟩, outer⟩
  · right
    cases program : s.program <;> simp [next, h, program]
  · simp [h] at present
  · exact .inl ⟨token, rest, outer, h, by simp [next, h]⟩

/-- **What a call leaves**: the settled stream, or the body on top of it; the
latter only if there is room. -/
theorem calls_call (s : TokenStream) (body : List Token) (limit : Option Nat) :
    (s.call body limit).2.calls = s.settled.calls ∨
      s.settled.isFull limit = false ∧ (s.call body limit).2.calls = body :: s.settled.calls := by
  by_cases full : s.settled.isFull limit
  · exact .inl (by simp [call, full])
  · by_cases empty : body = []
    · exact .inl (by simp [call, full, empty])
    · exact .inr ⟨by simpa using full, by simp [call, full, empty]⟩

/-- A call is refused exactly when the settled stream is full. -/
theorem call_fst (s : TokenStream) (body : List Token) (limit : Option Nat) :
    (s.call body limit).1 = !s.settled.isFull limit := by
  by_cases full : s.settled.isFull limit
  · simp [call, full]
  · by_cases empty : body = []
    · simp [call, full, empty]
    · simp [call, full, empty]

/-- **One request keeps the invariant.** -/
theorem InnerOpen.serve {s : TokenStream} (h : s.InnerOpen) (request : Request) :
    (s.serve request).InnerOpen := by
  have settled := h.settled
  cases request with
  | next =>
    obtain ⟨token, rest, outer, before, later⟩ | later := calls_next s
    · rw [before] at settled
      simp only [TokenStream.serve, InnerOpen, later, List.tail_cons]
      exact fun call mem => settled call (by simp [mem])
    · simp [TokenStream.serve, InnerOpen, later]
  | call body limit =>
    obtain later | ⟨-, later⟩ := calls_call s body limit
    · simp only [TokenStream.serve, InnerOpen, later]
      exact fun call mem => settled call (List.mem_of_mem_tail mem)
    · simpa only [TokenStream.serve, InnerOpen, later, List.tail_cons] using settled

theorem depth_next_le (s : TokenStream) : s.next.2.depth ≤ s.depth := by
  obtain ⟨token, rest, outer, before, later⟩ | later := calls_next s
  · have : s.settled.depth = outer.length + 1 := by simp [depth, before]
    have := depth_settled_le s
    simp only [depth, later, List.length_cons] at *
    omega
  · simp [depth, later]

/-- A call made under a limit leaves the depth within it, or no deeper than
it was. -/
theorem depth_call_le (s : TokenStream) (body : List Token) (limit : Nat) :
    (s.call body (some limit)).2.depth ≤ max limit s.depth := by
  have settled := depth_settled_le s
  obtain later | ⟨room, later⟩ := calls_call s body (some limit)
  · simp only [depth, later] at *
    omega
  · have : s.settled.depth < limit := by simpa [isFull] using room
    simp only [depth, later, List.length_cons] at *
    omega

/-- A call made after the innermost body was read to its end takes its
place. -/
theorem depth_call_of_finished (s : TokenStream) (body : List Token) (limit : Option Nat)
    (finished : s.calls.head? = some []) : (s.call body limit).2.depth ≤ s.depth := by
  obtain ⟨outer, calls⟩ : ∃ outer, s.calls = [] :: outer := by
    rcases h : s.calls with _ | ⟨call, outer⟩ <;> simp_all
  have settled : s.settled.calls.length ≤ outer.length := by
    simpa [TokenStream.settled, calls] using (List.dropWhile_suffix List.isEmpty).length_le
  obtain later | ⟨-, later⟩ := calls_call s body limit
  · simp only [depth, later, calls, List.length_cons]
    omega
  · simp only [depth, later, calls, List.length_cons]
    omega

/-! ## Every history -/

/-- **The innermost call of a stream is open**, after any history: calls that are used
up are left before a new one is made. -/
theorem innerOpen_after (program : List Token) (history : List Request) :
    (after program history).InnerOpen := by
  induction history using List.reverseRecOn with
  | nil => simp [after, ofTokens, InnerOpen]
  | append_singleton history request ih =>
    rw [after_concat]
    exact ih.serve request

/-- **No stream is deeper than the limit on calls**, if all calls of its history were
made under it. -/
theorem depth_after_le (program : List Token) (limit : Nat) (history : List Request)
    (limited : ∀ body bound, Request.call body bound ∈ history → bound = some limit) :
    (after program history).depth ≤ limit := by
  induction history using List.reverseRecOn with
  | nil => simp [after, ofTokens, depth]
  | append_singleton history request ih =>
    have before := ih fun body bound mem => limited body bound (by simp [mem])
    rw [after_concat]
    cases request with
    | next => exact Nat.le_trans (depth_next_le _) before
    | call body bound =>
      obtain rfl : bound = some limit := limited body bound (by simp)
      exact Nat.le_trans (depth_call_le _ body limit) (Nat.max_le.mpr ⟨Nat.le_refl _, before⟩)

/-- The frames between the innermost and the program are the calls below the
innermost one. -/
theorem mem_frames_between {s : TokenStream} {frame : List Token}
    (mem : frame ∈ s.frames.tail.dropLast) : frame ∈ s.calls.tail := by
  rcases h : s.calls with _ | ⟨call, outer⟩
  · simp [frames, h] at mem
  · simpa [frames, h] using mem

/-- **A stream is a flat sequence with splicing.** After any history of
requests, taking a token takes the head of `unread`, a call that is accepted
puts its body in front of it, and a call that is refused leaves it alone. Only
the innermost frame and the program can be used up; a call is refused exactly
when the limit is at most the number of calls with a token left, and one made
as the last token of a body does not deepen the stream; and if every call was
made under one limit, the depth stays within it. -/
theorem after_is_flat_with_splicing (program : List Token) (history : List Request) :
    let s := after program history
    ((s.next.1 = none ↔ s.unread = []) ∧ (s.unread = [] → s.next.2.unread = []))
    ∧ (∀ token rest, s.unread = token :: rest →
        s.next.1 = some token ∧ s.next.2.unread = rest)
    ∧ (∀ body limit, (s.call body limit).1 = true →
        (s.call body limit).2.unread = body ++ s.unread)
    ∧ (∀ body limit, (s.call body limit).1 = false → (s.call body limit).2.unread = s.unread)
    ∧ s.frames ≠ []
    ∧ (∀ frame ∈ s.frames.tail.dropLast, frame ≠ [])
    ∧ (∀ body limit, (s.call body limit).1 = false ↔
        ∃ bound, limit = some bound ∧ bound ≤ s.openCalls)
    ∧ (∀ body limit, s.calls.head? = some [] → (s.call body limit).2.depth ≤ s.depth)
    ∧ (∀ bound, (∀ body limit, Request.call body limit ∈ history → limit = some bound) →
        s.depth ≤ bound) := by
  intro s
  have invariant : s.InnerOpen := innerOpen_after program history
  obtain ⟨token, rest⟩ := next_of_unread s
  refine ⟨⟨?_, ?_⟩, ?_, ?_, ?_, ?_, ?_, ?_, ?_, ?_⟩
  · rw [token, List.head?_eq_none_iff]
  · intro empty
    rw [rest, empty, List.tail_nil]
  · intro t ts h
    rw [token, rest, h]
    exact ⟨rfl, rfl⟩
  · intro body limit accepted
    rw [unread_call, accepted, if_pos rfl]
  · intro body limit refused
    simp [unread_call, refused]
  · simp [frames]
  · -- only the innermost call and the program itself may be used up
    exact fun frame mem => invariant frame (mem_frames_between mem)
  · intro body limit
    rw [call_fst]
    cases limit with
    | none => simp [isFull]
    | some bound => simp [isFull, invariant.depth_settled]
  · exact fun body limit => depth_call_of_finished s body limit
  · exact fun bound limited => depth_after_le program bound history limited

end VectorPage.TokenStream
