/-
Limits do not show until they are met.

A limit acts in one of four ways: no further token is executed, a call is
refused, a part of a literal is passed over, or a pattern is left without its
tile. A run in which none of this happens, on no machine that takes part in it,
goes the same way under any wider limits, token by token and with the same fuel.

The one place where the argument is not a comparison of two numbers is the
literal. A scan carries the room that is left with it, so under a wider limit it
passes through other states. They are the same states with more room
(`widened`), as long as nothing is passed over; and since a scan never forgets
that something was passed over, its result tells whether that is so.

The machine keeps a record of the limits that were met, `hits`. A run that adds
nothing to it is one in which no limit was met.
-/
import VectorPage.Proofs.Bounds
import VectorPage.Proofs.Splicing

set_option autoImplicit false

namespace VectorPage

/-! ## Wider limits -/

/-- The first bound is at most the second; no bound is infinite. -/
def atMost : Option Nat → Option Nat → Prop
  | _, none => True
  | none, some _ => False
  | some a, some b => a ≤ b

/-- **Each limit is at most the other one's.** -/
structure Limits.Within (limits limits' : Limits) : Prop where
  operations : atMost limits.operations limits'.operations
  calls : atMost limits.calls limits'.calls
  patterns : limits.patterns ≤ limits'.patterns
  literals : limits.literals ≤ limits'.literals

/-- What leaves room under a bound leaves room under a wider one. -/
theorem any_le_of_atMost {bound bound' : Option Nat} (wider : atMost bound bound') {n : Nat}
    (room : bound.any (· ≤ n) = false) : bound'.any (· ≤ n) = false := by
  cases bound' with
  | none => rfl
  | some b =>
    cases bound with
    | none => cases wider
    | some a =>
      have le : a ≤ b := wider
      simp only [Option.any_some, decide_eq_false_iff_not, Nat.not_le] at room ⊢
      omega

/-- A call that is accepted is accepted under a wider limit, with the same
stream after it. -/
theorem TokenStream.call_of_atMost {limit limit' : Option Nat} (wider : atMost limit limit')
    {s : TokenStream} {body : List Token} (accepted : (s.call body limit).1 = true) :
    s.call body limit' = s.call body limit := by
  have room : s.settled.isFull limit = false := by simpa [call_fst] using accepted
  have room' : s.settled.isFull limit' = false := any_le_of_atMost wider room
  simp only [call, room, room']

/-! ## Literals -/

/-- Whether this is an array or a dictionary. -/
def Datum.isLiteral : Datum → Bool
  | array _ | dict _ => true
  | number _ | text _ | name _ | procedure _ => false

namespace OpenLiteral

/-- The literal that a token opens inside another one. No dictionary stands in an
array. -/
def nested? (kind : OpenLiteral) (token : Token) : Option OpenLiteral :=
  match kind, token with
  | _, .openBracket => some (.array [])
  | dict _ _, .openDict => some (.dict [] none)
  | _, _ => none

/-- The token that closes a literal. -/
def closer : OpenLiteral → Token
  | array _ => .closeBracket
  | dict _ _ => .closeDict

end OpenLiteral

namespace LiteralScan

/-- **What one token of a literal does**: it changes the innermost literal, by a
single value or a procedure at most, and what the scan is doing; it opens a
literal; or it closes one. Which of these it does depends on neither the literals
around, nor the room, nor what was passed over before. -/
theorem step_cases (inner : OpenLiteral) (mode : LiteralMode) (token : Token) :
    (∃ inner' mode', (inner'.close = inner.close ∨ ∃ d, d.isLiteral = false ∧ inner' = inner.add d)
      ∧ ∀ outer room truncated, step ⟨inner, outer, room, mode, truncated⟩ token
        = .more ⟨inner', outer, room, mode', truncated⟩)
    ∨ (∃ kind, inner.nested? token = some kind ∧ mode = .reading
      ∧ ∀ outer room truncated, step ⟨inner, outer, room, mode, truncated⟩ token
        = .more (nest ⟨inner, outer, room, mode, truncated⟩ kind))
    ∨ ∀ outer room truncated, step ⟨inner, outer, room, mode, truncated⟩ token
        = closeInner ⟨inner, outer, room, mode, truncated⟩ := by
  cases mode with
  | reading =>
    cases inner with
    | array items =>
      cases token with
      | openBracket => exact .inr (.inl ⟨_, rfl, rfl, fun _ _ _ => rfl⟩)
      | closeBracket => exact .inr (.inr fun _ _ _ => rfl)
      | number s | string s | hexString s | name s =>
        exact .inl ⟨_, _, .inr ⟨_, rfl, rfl⟩, fun _ _ _ => rfl⟩
      | operator _ | openBrace | closeBrace | openDict | closeDict =>
        exact .inl ⟨_, _, .inl rfl, fun _ _ _ => rfl⟩
    | dict entries key =>
      cases token with
      | openBracket | openDict => exact .inr (.inl ⟨_, rfl, rfl, fun _ _ _ => rfl⟩)
      | closeDict => exact .inr (.inr fun _ _ _ => rfl)
      | number s | string s | hexString s =>
        exact .inl ⟨_, _, .inr ⟨_, rfl, rfl⟩, fun _ _ _ => rfl⟩
      | name s =>
        cases key with
        | none =>
          -- the name becomes the key that waits, which is no entry yet
          exact .inl ⟨.dict entries (some s), .reading, .inl rfl, fun _ _ _ => rfl⟩
        | some key => exact .inl ⟨_, _, .inr ⟨.name s, rfl, rfl⟩, fun _ _ _ => rfl⟩
      | operator s =>
        cases key with
        | none => exact .inl ⟨_, _, .inl rfl, fun _ _ _ => rfl⟩
        | some key => exact .inl ⟨_, _, .inr ⟨.name s, rfl, rfl⟩, fun _ _ _ => rfl⟩
      | openBrace | closeBrace | closeBracket => exact .inl ⟨_, _, .inl rfl, fun _ _ _ => rfl⟩
  | skipping brackets =>
    cases token with
    | closeBracket | closeDict =>
      cases brackets <;> exact .inl ⟨_, _, .inl rfl, fun _ _ _ => rfl⟩
    | _ => exact .inl ⟨_, _, .inl rfl, fun _ _ _ => rfl⟩
  | procedure body =>
    cases stepped : body.step token with
    | more body' =>
      exact .inl ⟨inner, .procedure body', .inl rfl, fun _ _ _ => by simp only [step, stepped]⟩
    | done tokens =>
      exact .inl ⟨inner.add (.procedure tokens), .reading, .inr ⟨_, rfl, rfl⟩,
        fun _ _ _ => by simp only [step, stepped, add]⟩
  | skippingProcedure brackets body =>
    cases stepped : body.step token with
    | more body' =>
      exact .inl ⟨inner, .skippingProcedure brackets body', .inl rfl,
        fun _ _ _ => by simp only [step, stepped]⟩
    | done tokens =>
      exact .inl ⟨inner, .skipping brackets, .inl rfl,
        fun _ _ _ => by simp only [step, stepped]⟩

/-- Whether something was passed over, with the tokens so far. -/
def passedOver {ρ : Type} (literal : ρ → Literal) : Scan LiteralScan ρ → Bool
  | .more scan => scan.truncated
  | .done result => (literal result).truncated

/-- **A scan does not forget** that something was passed over. -/
theorem passedOver_step (scan : LiteralScan) (token : Token) (h : scan.truncated = true) :
    passedOver id (scan.step token) = true := by
  obtain ⟨inner, outer, room, mode, truncated⟩ := scan
  obtain rfl : truncated = true := h
  obtain ⟨inner', mode', -, stays⟩ | ⟨kind, -, -, opens⟩ | closes := step_cases inner mode token
  · rw [stays]
    rfl
  · rw [opens, nest]
    split <;> rfl
  · rw [closes, closeInner]
    split <;> rfl

/-- The scan with more room. -/
def widened (extra : Nat) (scan : LiteralScan) : LiteralScan :=
  { scan with room := scan.room + extra }

end LiteralScan

/-- A scan that goes on, in another state. -/
def Scan.mapState {σ ρ : Type} (f : σ → σ) : Scan σ ρ → Scan σ ρ
  | more state => more (f state)
  | done result => done result

namespace LiteralScan

/-- **With more room**, a token does the same, unless it begins to pass over
something. -/
theorem step_widened (scan : LiteralScan) (extra : Nat) (token : Token)
    (kept : passedOver id (scan.step token) = false) :
    (scan.widened extra).step token = (scan.step token).mapState (widened extra) := by
  obtain ⟨inner, outer, room, mode, truncated⟩ := scan
  obtain ⟨inner', mode', -, stays⟩ | ⟨kind, -, -, opens⟩ | closes := step_cases inner mode token
  · rw [widened, stays, stays]
    rfl
  · rw [opens] at kept
    rw [widened, opens, opens]
    cases room with
    | zero => cases kept
    | succ room =>
      rw [Nat.succ_add]
      rfl
  · rw [widened, closes, closes]
    cases outer with
    | nil => rfl
    | cons parent outer => simp only [closeInner, Scan.mapState, widened, Nat.add_right_comm]

end LiteralScan

section Literals

open LiteralScan

/-- Once something was left out of a literal, the scan remembers. -/
theorem passedOver_feed (scan : LiteralScan) (tokens : List Token) (h : scan.truncated = true) :
    passedOver Prod.fst (literalScanner.feed scan tokens) = true := by
  induction tokens generalizing scan with
  | nil => exact h
  | cons token rest ih =>
    have remembered : passedOver id (literalScanner.step scan token) = true :=
      passedOver_step scan token h
    rw [Scanner.feed]
    cases stepped : literalScanner.step scan token with
    | more next =>
      rw [stepped] at remembered
      exact ih next remembered
    | done literal =>
      rw [stepped] at remembered
      exact remembered

/-- **With more room a literal is read alike**, if nothing was left out of it. By
induction on the tokens; the room is asked for only when a literal is opened inside. -/
theorem feed_widened {scan : LiteralScan} {tokens : List Token}
    {outcome : Scan LiteralScan (Literal × List Token)}
    (fed : literalScanner.feed scan tokens = outcome)
    (kept : passedOver Prod.fst outcome = false) (extra : Nat) :
    literalScanner.feed (scan.widened extra) tokens = outcome.mapState (widened extra) := by
  induction tokens generalizing scan with
  | nil =>
    rw [← fed]
    rfl
  | cons token rest ih =>
    rw [Scanner.feed] at fed ⊢
    have wide : passedOver id (literalScanner.step scan token) = false →
        literalScanner.step (scan.widened extra) token
          = (literalScanner.step scan token).mapState (widened extra) :=
      step_widened scan extra token
    cases stepped : literalScanner.step scan token with
    | more next =>
      rw [stepped] at fed wide
      -- what is passed over now would not be forgotten later
      have keptNow : next.truncated = false := by
        by_contra cut
        rw [← fed, passedOver_feed next rest (by simpa using cut)] at kept
        cases kept
      rw [wide keptNow]
      exact ih fed
    | done literal =>
      rw [stepped] at fed wide
      rw [← fed] at kept ⊢
      rw [wide kept]
      rfl

theorem finish_truncated (scan : LiteralScan) :
    (literalScanner.finish scan).truncated = scan.truncated := by
  obtain ⟨inner, outer, room, mode, truncated⟩ := scan
  cases mode <;> rfl

theorem finish_widened (scan : LiteralScan) (extra : Nat) :
    literalScanner.finish (scan.widened extra) = literalScanner.finish scan := by
  obtain ⟨inner, outer, room, mode, truncated⟩ := scan
  cases mode <;> rfl

/-- A scan that goes on through calls remembers as well that something was left out. -/
theorem feedCalls_truncated (program : List Token) (calls : List (List Token))
    (scan : LiteralScan) (h : scan.truncated = true) :
    (literalScanner.feedCalls program scan calls).1.truncated = true := by
  induction calls generalizing scan with
  | nil =>
    have remembered := passedOver_feed scan program h
    rw [Scanner.feedCalls]
    cases fed : literalScanner.feed scan program with
    | more next =>
      rw [fed] at remembered
      exact (finish_truncated next).trans remembered
    | done result =>
      rw [fed] at remembered
      exact remembered
  | cons call outer ih =>
    have remembered := passedOver_feed scan call h
    rw [Scanner.feedCalls]
    cases fed : literalScanner.feed scan call with
    | more next =>
      rw [fed] at remembered
      exact ih next remembered
    | done result =>
      rw [fed] at remembered
      exact remembered

theorem feedCalls_widened (program : List Token) (calls : List (List Token)) (extra : Nat)
    (scan : LiteralScan)
    (kept : (literalScanner.feedCalls program scan calls).1.truncated = false) :
    literalScanner.feedCalls program (scan.widened extra) calls
      = literalScanner.feedCalls program scan calls := by
  induction calls generalizing scan with
  | nil =>
    rw [Scanner.feedCalls] at kept
    rw [Scanner.feedCalls, Scanner.feedCalls]
    cases fed : literalScanner.feed scan program with
    | more next =>
      rw [fed] at kept
      rw [feed_widened fed ((finish_truncated next).symm.trans kept) extra]
      exact congrArg (·, _) (finish_widened next extra)
    | done result =>
      rw [fed] at kept
      rw [feed_widened fed kept extra]
      rfl
  | cons call outer ih =>
    rw [Scanner.feedCalls] at kept
    rw [Scanner.feedCalls, Scanner.feedCalls]
    cases fed : literalScanner.feed scan call with
    | more next =>
      rw [fed] at kept
      -- a scan that is cut short stays so, and the whole one is not
      have keptNow : next.truncated = false := by
        by_contra cut
        rw [feedCalls_truncated program outer next (by simpa using cut)] at kept
        cases kept
      rw [feed_widened fed keptNow extra]
      exact ih next kept
    | done result =>
      rw [fed] at kept
      rw [feed_widened fed kept extra]
      rfl

/-- **A literal that is read whole** is read the same under a wider limit. -/
theorem run_of_literals_le {limit limit' : Nat} (wider : limit ≤ limit') (kind : OpenLiteral)
    (s : TokenStream) (kept : (literalScanner.run (.start limit kind) s).1.truncated = false) :
    literalScanner.run (.start limit' kind) s = literalScanner.run (.start limit kind) s := by
  have start : LiteralScan.start limit' kind
      = (LiteralScan.start limit kind).widened ((limit' - 1) - (limit - 1)) := by
    simp only [LiteralScan.start, widened, LiteralScan.mk.injEq, true_and, and_true]
    omega
  rw [start]
  exact feedCalls_widened s.program s.calls _ _ kept

end Literals

namespace Machine

/-! ## Limits that are met -/

/-- **A limit cuts a token short**: a call is refused, a part of a literal is
passed over, or a paint procedure is not run. -/
inductive CutShort (limits : Limits) (level : Nat) (m : Machine) (token : Token)
    (s : TokenStream) : Prop where
  | call (body : List Token) (called : m.called? token = some body)
      (refused : (s.call body limits.calls).1 = false)
  | literal (kind : OpenLiteral) (opens : opening? token = some kind)
      (passedOver : (literalScanner.run (.start limits.literals kind) s).1.truncated = true)
  | pattern (body : List Token) (paints : m.paintBody? token = some body)
      (deep : limits.patterns ≤ level)

/-- A token is not cut short if none of the three limits that it may meet holds it
up. -/
theorem not_cutShort {limits : Limits} {level : Nat} {m : Machine} {token : Token} {s : TokenStream}
    (accepted : ∀ body, m.called? token = some body → (s.call body limits.calls).1 = true)
    (whole : ∀ kind, opening? token = some kind →
      (literalScanner.run (.start limits.literals kind) s).1.truncated = false)
    (shallow : ∀ body, m.paintBody? token = some body → level < limits.patterns) :
    ¬ CutShort limits level m token s := by
  rintro (⟨body, called, refused⟩ | ⟨kind, opens, passedOver⟩ | ⟨body, paints, deep⟩)
  · rw [accepted body called] at refused
    cases refused
  · rw [whole kind opens] at passedOver
    cases passedOver
  · exact Nat.not_le.mpr (shallow body paints) deep

/-- **A limit is met**: a token is there, but it may not be executed, or it is
cut short. -/
def MeetsLimit (limits : Limits) (level : Nat) (c : TokenStream × Machine) : Prop :=
  ∃ token rest, c.1.next = (some token, rest)
    ∧ (c.2.isSpent limits = true ∨ CutShort limits level c.2.counted token rest)

/-- **No machine at work meets a limit**, in a run that begins so. -/
def Unhindered (limits : Limits) (outermost : Nat) (start : TokenStream × Machine) : Prop :=
  ∀ level count c, AtWork limits outermost start level count c → ¬ MeetsLimit limits level c

section Wider

variable {limits limits' : Limits} {level : Nat}

/-- Who is at work in a part of a run is at work in the run. -/
theorem AtWork.trans {outermost inner count : Nat} {start c : TokenStream × Machine}
    (first : AtWork limits outermost start inner count c) {count' : Nat}
    {c' : TokenStream × Machine} (later : AtWork limits inner c level count' c') :
    ∃ total, AtWork limits outermost start level total c' := by
  induction later with
  | start => exact ⟨_, first⟩
  | step _ step ih =>
    obtain ⟨total, before⟩ := ih
    exact ⟨_, before.step step⟩
  | paint _ runs ih =>
    obtain ⟨total, before⟩ := ih
    exact ⟨_, before.paint runs⟩

/-- A run that is not hindered is not hindered from any of its points on, nor are the
runs of its paint procedures. -/
theorem Unhindered.trans {outermost inner count : Nat} {start c : TokenStream × Machine}
    (free : Unhindered limits outermost start)
    (first : AtWork limits outermost start inner count c) : Unhindered limits inner c := by
  intro level count c' later
  obtain ⟨total, work⟩ := first.trans later
  exact free level total c' work

/-- **A step that is not cut short** is the same under wider limits, if paint
procedures are answered as before. -/
theorem step_of_within (wider : limits.Within limits') {m : Machine} {token : Token}
    {s : TokenStream} {paint paint' : List Token → Option Machine} {c : TokenStream × Machine}
    (whole : ¬ CutShort limits level m token s)
    (painted : ∀ body done, m.paintBody? token = some body → paint body = some done →
      paint' body = some done)
    (stepped : m.step limits level paint token s = some c) :
    m.step limits' level paint' token s = some c := by
  cases exposed m s token with
  | call name body called _ step =>
    -- the call was accepted, or the limit would have cut the step short
    have accepted : (s.call body limits.calls).1 = true := by
      by_contra refused
      exact whole (.call body called (by simpa using refused))
    rw [step] at stepped ⊢
    rw [← stepped, callProcedure, callProcedure,
      TokenStream.call_of_atMost wider.calls accepted]
  | literal kind opens _ step =>
    have kept : (literalScanner.run (.start limits.literals kind) s).1.truncated = false := by
      by_contra cut
      exact whole (.literal kind opens (by simpa using cut))
    rw [step] at stepped ⊢
    rw [← stepped, pushLiteral, pushLiteral, run_of_literals_le wider.literals kind s kept]
  | paint ref body paints _ step =>
    have shallow : ¬ limits.patterns ≤ level := fun deep => whole (.pattern body paints deep)
    have shallow' : ¬ limits'.patterns ≤ level := fun deep =>
      shallow (Nat.le_trans wider.patterns deep)
    rw [step, if_neg shallow] at stepped
    obtain ⟨done, answer, result⟩ := Option.map_eq_some_iff.mp stepped
    rw [step, if_neg shallow', painted body done paints answer, Option.map_some, result]
  | never c' _ _ step =>
    rw [step] at stepped ⊢
    exact stepped

/-- **A run that meets no limit** is the same under wider limits. The induction
is on the fuel, for the run itself and for the paint procedures in it. -/
theorem execute_of_within (wider : limits.Within limits') {fuel : Nat} {s : TokenStream}
    {m m' : Machine} (free : Unhindered limits level (s, m))
    (ended : execute limits fuel level s m = some m') :
    execute limits' fuel level s m = some m' := by
  induction fuel generalizing level s m m' with
  | zero => simp [execute] at ended
  | succ fuel ih =>
    rcases hn : s.next with ⟨_ | token, rest⟩
    · rw [execute_of_next_none (by rw [hn])] at ended ⊢
      exact ended
    · have unmet := free level 0 (s, m) .start
      have live : m.isSpent limits = false := by
        by_contra spent
        exact unmet ⟨token, rest, hn, .inl (by simpa using spent)⟩
      have whole : ¬ CutShort limits level m.counted token rest := fun cut =>
        unmet ⟨token, rest, hn, .inr cut⟩
      have live' : m.isSpent limits' = false := any_le_of_atMost wider.operations live
      rw [execute_of_next_some hn, live, if_neg Bool.false_ne_true] at ended
      rw [execute_of_next_some hn, live', if_neg Bool.false_ne_true]
      obtain ⟨c, stepped, continued⟩ := Option.bind_eq_some_iff.mp ended
      -- a tile is painted in fewer steps, and is itself part of the unhindered run
      have painted : ∀ body done, m.counted.paintBody? token = some body →
          paintWith limits fuel level body = some done →
          paintWith limits' fuel level body = some done := by
        intro body done paints answer
        have shallow : level < limits.patterns := by
          by_contra deep
          exact whole (.pattern body paints (Nat.le_of_not_lt deep))
        have runs : RunsPaint limits level (s, m) body :=
          runsPaint_iff.mpr ⟨token, rest, hn, live, paints, shallow⟩
        obtain ⟨inner, ran, rfl⟩ := Option.map_eq_some_iff.mp answer
        rw [paintWith, ih (free.trans (.paint .start runs)) ran, Option.map_some]
      rw [step_of_within wider whole painted stepped, Option.bind_some]
      have step : Step limits level (s, m) c := ⟨token, rest, fuel, hn, live, stepped⟩
      exact ih (free.trans (.step .start step)) continued

/-- **Limits do not show until they are met.** If a run ends, and no machine at
work in it meets a limit, then under limits that are all at least as wide it
ends with the same machine in all its parts, and with the same fuel. -/
theorem limits_unseen_until_met (wider : limits.Within limits') (m m' : Machine)
    (program : List Token) (fuel : Nat) (ran : m.run limits fuel program = some m')
    (free : Unhindered limits 0 (.ofTokens program, m)) :
    m.run limits' fuel program = some m' := by
  obtain ⟨done, ended, rfl⟩ := Option.map_eq_some_iff.mp ran
  rw [run, execute_of_within wider free ended, Option.map_some]

end Wider

/-! ## The record of limits -/

section Record

variable {limits : Limits} {level : Nat}

/-- **A step adds to the record** what it meets, and what the machine of its
paint procedure has met. -/
theorem step_hits {m : Machine} {token : Token} {s : TokenStream}
    {paint : List Token → Option Machine} {c : TokenStream × Machine}
    (stepped : m.step limits level paint token s = some c) :
    m.hits <:+ c.2.hits ∧ (c.2.hits = m.hits → ¬ CutShort limits level m token s
      ∧ ∀ body done, m.paintBody? token = some body → paint body = some done →
        done.hits = []) := by
  cases exposed m s token with
  | call name body called other step =>
    rw [step, callProcedure] at stepped
    rcases answer : s.call body limits.calls with ⟨_ | _, rest⟩
    · rw [answer] at stepped
      cases stepped
      exact ⟨List.suffix_cons _ _, fun same => absurd same (List.cons_ne_self _ _)⟩
    · rw [answer] at stepped
      cases stepped
      refine ⟨List.suffix_rfl, fun _ => ⟨?_, by simp [other.2]⟩⟩
      exact not_cutShort (by simp [called, answer]) (by simp [other.1]) (by simp [other.2])
  | literal kind opens other step =>
    rw [step, pushLiteral] at stepped
    by_cases cut : (literalScanner.run (.start limits.literals kind) s).1.truncated = true
    · simp only [cut, if_true] at stepped
      cases stepped
      exact ⟨List.suffix_cons _ _, fun same => absurd same (List.cons_ne_self _ _)⟩
    · simp only [cut] at stepped
      cases stepped
      refine ⟨List.suffix_rfl, fun _ => ⟨?_, by simp [other.2]⟩⟩
      exact not_cutShort (by simp [other.1]) (by simpa [opens] using cut) (by simp [other.2])
  | paint ref body paints other step =>
    rw [step] at stepped
    by_cases deep : limits.patterns ≤ level
    · rw [if_pos deep] at stepped
      cases stepped
      exact ⟨List.suffix_cons _ _, fun same => absurd same (List.cons_ne_self _ _)⟩
    · rw [if_neg deep] at stepped
      obtain ⟨done, answer, rfl⟩ := Option.map_eq_some_iff.mp stepped
      refine ⟨List.suffix_append _ _, fun same => ⟨?_, ?_⟩⟩
      · exact not_cutShort (by simp [other.1]) (by simp [other.2])
          fun _ _ => Nat.lt_of_not_le deep
      · -- the hits of the tile are put in front, so there are none if the list is the same
        intro body' done' paints' answer'
        obtain rfl : body = body' := Option.some.inj (paints.symm.trans paints')
        obtain rfl : done = done' := Option.some.inj (answer.symm.trans answer')
        exact List.append_left_eq_self.mp same
  | never c' books other step =>
    rw [step] at stepped
    obtain rfl := Option.some.inj stepped
    refine ⟨books.hits ▸ List.suffix_rfl, fun _ => ⟨?_, by simp [other.2.2]⟩⟩
    exact not_cutShort (by simp [other.1]) (by simp [other.2.1]) (by simp [other.2.2])

/-- Nothing is taken off the record. -/
theorem execute_hits {fuel : Nat} {s : TokenStream} {m m' : Machine}
    (ended : execute limits fuel level s m = some m') : m.hits <:+ m'.hits := by
  induction fuel generalizing s m with
  | zero => simp [execute] at ended
  | succ fuel ih =>
    rcases hn : s.next with ⟨_ | token, rest⟩
    · rw [execute_of_next_none (by rw [hn])] at ended
      cases ended
      exact List.suffix_rfl
    · rw [execute_of_next_some hn] at ended
      split at ended
      · cases ended
        exact List.suffix_cons _ _
      · obtain ⟨c, stepped, continued⟩ := Option.bind_eq_some_iff.mp ended
        exact (step_hits stepped).1.trans (ih continued)

/-- A token is executed in one way only. -/
theorem Step.unique {c c₁ c₂ : TokenStream × Machine} (h₁ : Step limits level c c₁)
    (h₂ : Step limits level c c₂) : c₁ = c₂ := by
  obtain ⟨token, rest, fuel₁, next₁, -, stepped₁⟩ := h₁
  obtain ⟨token', rest', fuel₂, next₂, -, stepped₂⟩ := h₂
  obtain ⟨rfl, rfl⟩ : token = token' ∧ rest = rest' := by simpa [next₁] using next₂
  exact Option.some.inj
    ((step_extends (paintWith_extends (Nat.le_max_left fuel₁ fuel₂)) stepped₁).symm.trans
      (step_extends (paintWith_extends (Nat.le_max_right fuel₁ fuel₂)) stepped₂))

/-- **Who is at work** is the machine that begins, or is at work after its first
token, or in the paint procedure which that token runs. -/
theorem AtWork.first {outermost count : Nat} {start c : TokenStream × Machine}
    (h : AtWork limits outermost start level count c) :
    level = outermost ∧ c = start
    ∨ (∃ next count', Step limits outermost start next
      ∧ AtWork limits outermost next level count' c)
    ∨ ∃ body count', RunsPaint limits outermost start body
      ∧ AtWork limits (outermost + 1) (.ofTokens body, initial) level count' c := by
  induction h with
  | start => exact .inl ⟨rfl, rfl⟩
  | step _ step ih =>
    obtain ⟨rfl, rfl⟩ | ⟨next, count', first, later⟩ | ⟨body, count', first, later⟩ := ih
    · exact .inr (.inl ⟨_, 0, step, .start⟩)
    · exact .inr (.inl ⟨next, _, first, later.step step⟩)
    · exact .inr (.inr ⟨body, _, first, later.step step⟩)
  | paint _ runs ih =>
    obtain ⟨rfl, rfl⟩ | ⟨next, count', first, later⟩ | ⟨body, count', first, later⟩ := ih
    · exact .inr (.inr ⟨_, 0, runs, .start⟩)
    · exact .inr (.inl ⟨next, _, first, later.paint runs⟩)
    · exact .inr (.inr ⟨body, _, first, later.paint runs⟩)

/-- **A run that adds nothing to the record** meets no limit, on any machine at
work in it. -/
theorem unhindered_of_hits {fuel : Nat} {s : TokenStream} {m m' : Machine}
    (ended : execute limits fuel level s m = some m') (same : m'.hits = m.hits) :
    Unhindered limits level (s, m) := by
  induction fuel generalizing level s m m' with
  | zero => simp [execute] at ended
  | succ fuel ih =>
    intro inner count c work
    rcases hn : s.next with ⟨_ | token, rest⟩
    · -- without a token nothing happens
      obtain ⟨rfl, rfl⟩ | ⟨next, -, ⟨_, _, _, next', -⟩, -⟩ | ⟨body, -, ⟨_, _, next', -⟩, -⟩ :=
        work.first
      · rintro ⟨token, rest, next, -⟩
        simp [hn] at next
      · simp [hn] at next'
      · simp [hn] at next'
    · rw [execute_of_next_some hn] at ended
      by_cases spent : m.isSpent limits = true
      · rw [if_pos spent] at ended
        cases ended
        exact absurd same (List.cons_ne_self _ _)
      · rw [if_neg spent] at ended
        obtain ⟨next, stepped, continued⟩ := Option.bind_eq_some_iff.mp ended
        obtain ⟨added, recorded⟩ := step_hits stepped
        have addedLater : next.2.hits <:+ m.counted.hits := same ▸ execute_hits continued
        -- nothing is taken off, so nothing was added on the way
        have sameNow : next.2.hits = m.counted.hits :=
          addedLater.eq_of_length_le added.length_le
        obtain ⟨whole, painted⟩ := recorded sameNow
        have step : Step limits level (s, m) next :=
          ⟨token, rest, fuel, hn, by simpa using spent, stepped⟩
        obtain ⟨rfl, rfl⟩ | ⟨next', count', first, later⟩ | ⟨body, count', first, later⟩ :=
          work.first
        · rintro ⟨token', rest', next', met⟩
          obtain ⟨rfl, rfl⟩ : token = token' ∧ rest = rest' := by simpa [hn] using next'
          exact met.elim spent whole
        · obtain rfl := first.unique step
          exact ih continued (same.trans sameNow.symm) _ _ _ later
        · obtain ⟨token', rest', next', -, paints, shallow⟩ := runsPaint_iff.mp first
          obtain ⟨rfl, rfl⟩ : token = token' ∧ rest = rest' := by simpa [hn] using next'
          -- the step was answered, and so was its paint procedure
          cases answer : paintWith limits fuel level body with
          | none =>
            have unanswered :
                m.counted.step limits level (paintWith limits fuel level) token rest = none :=
              step_eq_none_iff.mpr ⟨body, paints, shallow, answer⟩
            rw [unanswered] at stepped
            cases stepped
          | some done =>
            have clean := painted body done paints answer
            obtain ⟨inner, ran, rfl⟩ := Option.map_eq_some_iff.mp answer
            rw [finish, paintPath_eq] at clean
            exact ih ran clean _ _ _ later

/-- A program that calls a procedure, writes an array inside a dictionary, and
makes a pattern of it. -/
def oneOfEach : List Token :=
  [.name "f", .openBrace, .operator "newpath", .closeBrace, .operator "def", .operator "f",
    .openDict, .name "BBox", .openBracket, .name "x", .closeBracket, .name "PaintProc",
    .openBrace, .operator "moveto", .closeBrace, .closeDict, .operator "makepattern"]

/-- Limits that just suffice for it: seven tokens, one call, one level of
patterns, two literals open at once. Without any of them it ends the same. -/
theorem limits_unseen_until_met_tight :
    let limits : Limits := { operations := some 7, calls := some 1, patterns := 1, literals := 2 }
    limits.Within {} ∧ Unhindered limits 0 (.ofTokens oneOfEach, initial)
    ∧ ∃ m', initial.run limits 10 oneOfEach = some m' ∧ m'.executed = 7
      ∧ m'.picture.definitions.size = 1 ∧ initial.run {} 10 oneOfEach = some m' := by
  intro limits
  have wider : limits.Within {} := ⟨trivial, trivial, by decide, by decide⟩
  have ends : (execute limits 10 0 (.ofTokens oneOfEach) initial).map
      (fun m => (m.hits, m.executed, m.picture.definitions.size)) = some ([], 7, 1) := by
    decide +kernel
  obtain ⟨done, ended, seen⟩ := Option.map_eq_some_iff.mp ends
  obtain ⟨hits, executed, definitions⟩ : done.hits = [] ∧ done.executed = 7
      ∧ done.picture.definitions.size = 1 := by simpa using seen
  have free : Unhindered limits 0 (.ofTokens oneOfEach, initial) := unhindered_of_hits ended hits
  have ran : initial.run limits 10 oneOfEach = some done.finish := by
    rw [run, ended, Option.map_some]
  have finished : done.finish.executed = done.executed
      ∧ done.finish.picture.definitions = done.picture.definitions := by
    rw [finish, paintPath_eq]
    exact ⟨rfl, by dsimp only; split <;> rfl⟩
  exact ⟨wider, free, done.finish, ran, finished.1.trans executed,
    finished.2 ▸ definitions, limits_unseen_until_met wider _ _ _ _ ran free⟩

end Record

end Machine

end VectorPage
