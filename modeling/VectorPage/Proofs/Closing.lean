/-
Literals that are not closed are closed where the tokens end.

The end of the tokens is handled apart from the closing brackets: what is open is closed
in one go, and what was being passed over is forgotten. Writing out the brackets that are
missing comes to the same. One bracket of either kind ends each level that is being passed
over, and then each open literal has its own closer, from the inside out.

Closers mean this only outside procedures. Without braces a scan never comes to be inside
one, whatever else is out of place.
-/
import VectorPage.Proofs.Limits
import VectorPage.Proofs.Literals
import VectorPage.Proofs.Origins

set_option autoImplicit false

namespace VectorPage

open Scanner

namespace LiteralScan

/-! ## Outside procedures -/

/-- The scan is not collecting a procedure, nor passing over one. -/
def OutsideProcedures (scan : LiteralScan) : Prop :=
  scan.mode = .reading ∨ ∃ brackets, scan.mode = .skipping brackets

theorem OutsideProcedures.nest {scan : LiteralScan} (h : scan.OutsideProcedures)
    (kind : OpenLiteral) : (scan.nest kind).OutsideProcedures := by
  unfold LiteralScan.nest
  split
  · exact .inr ⟨0, rfl⟩
  · exact h

theorem OutsideProcedures.closeInner {scan : LiteralScan} (h : scan.OutsideProcedures) :
    scan.closeInner.Satisfies OutsideProcedures fun _ => True := by
  unfold LiteralScan.closeInner
  split
  · trivial
  · exact h

/-- **Only an opening brace leads into a procedure.** -/
theorem OutsideProcedures.step {scan : LiteralScan} (h : scan.OutsideProcedures) {token : Token}
    (other : token ≠ .openBrace) :
    (scan.step token).Satisfies OutsideProcedures fun _ => True := by
  obtain ⟨inner, outer, room, mode, truncated⟩ := scan
  rcases h with reading | ⟨brackets, skipping⟩
  · obtain rfl : mode = .reading := reading
    have here : OutsideProcedures ⟨inner, outer, room, .reading, truncated⟩ := .inl rfl
    cases inner with
    | array items =>
      cases token with
      | openBrace => exact absurd rfl other
      | openBracket => exact here.nest _
      | closeBracket => exact here.closeInner
      | number _ | string _ | hexString _ | name _ => exact .inl rfl
      | operator _ | closeBrace | openDict | closeDict => exact here
    | dict entries key =>
      cases token with
      | openBrace => exact absurd rfl other
      | openBracket | openDict => exact here.nest _
      | closeDict => exact here.closeInner
      | number _ | string _ | hexString _ => exact .inl rfl
      | name _ | operator _ => cases key <;> exact .inl rfl
      | closeBrace | closeBracket => exact here
  · obtain rfl : mode = .skipping brackets := skipping
    cases token with
    | openBrace => exact absurd rfl other
    | closeBracket | closeDict =>
      -- the bracket that ends the skipping, or one inside
      cases brackets with
      | zero => exact .inl rfl
      | succ brackets => exact .inr ⟨brackets, rfl⟩
    | openBracket | openDict => exact .inr ⟨brackets + 1, rfl⟩
    | number _ | string _ | hexString _ | name _ | operator _ | closeBrace =>
      exact .inr ⟨brackets, rfl⟩

/-- Without an opening brace the scan never collects a procedure, so no closing brace is
waited for. -/
theorem literalScanner_outsideProcedures :
    literalScanner.Keeps (· ≠ .openBrace) OutsideProcedures fun _ => True where
  step _ _ h other := h.step other
  finish _ _ := trivial

/-- **Without braces** a scan stays outside procedures. -/
theorem outsideProcedures_of_feed {limit : Nat} {kind : OpenLiteral} {tokens : List Token}
    {scan : LiteralScan} (braceFree : ∀ t ∈ tokens, t ≠ .openBrace)
    (fed : literalScanner.feed (.start limit kind) tokens = .more scan) :
    scan.OutsideProcedures := by
  have start : (LiteralScan.start limit kind).OutsideProcedures := .inl rfl
  have kept := literalScanner_outsideProcedures.feed start braceFree
  rw [fed] at kept
  exact kept

/-- There, the end of the tokens closes what is open and does no more. -/
theorem OutsideProcedures.finish {scan : LiteralScan} (h : scan.OutsideProcedures) :
    scan.finish = ⟨closeAll scan.inner scan.outer, scan.truncated⟩ := by
  obtain ⟨inner, outer, room, mode, truncated⟩ := scan
  rcases h with reading | ⟨brackets, skipping⟩
  · obtain rfl : mode = .reading := reading
    rfl
  · obtain rfl : mode = .skipping brackets := skipping
    rfl

/-! ## The closers that are missing -/

/-- How many levels are being passed over. -/
def skipped (scan : LiteralScan) : Nat :=
  match scan.mode with
  | .skipping brackets | .skippingProcedure brackets _ => brackets + 1
  | .reading | .procedure _ => 0

/-- **The tokens that are missing** where the scan stands: a closer of either kind for
each level that is being passed over, then the closer of each open literal, from the
innermost to the outermost. -/
def Misses (scan : LiteralScan) (missing : List Token) : Prop :=
  ∃ skips, skips.length = scan.skipped ∧ (∀ t ∈ skips, t = .closeBracket ∨ t = .closeDict)
    ∧ missing = skips ++ (scan.inner :: scan.outer).map OpenLiteral.closer

/-- A closer for each level ends the passing over. -/
theorem feed_skips (scan : LiteralScan) {brackets : Nat} {skips : List Token}
    (closers : ∀ t ∈ skips, t = .closeBracket ∨ t = .closeDict)
    (levels : skips.length = brackets + 1) :
    literalScanner.feed { scan with mode := .skipping brackets } skips
      = .more { scan with mode := .reading } := by
  induction brackets generalizing skips with
  | zero =>
    obtain ⟨t, rfl⟩ := List.length_eq_one_iff.mp levels
    rcases closers t List.mem_cons_self with rfl | rfl <;> rfl
  | succ brackets ih =>
    obtain ⟨t, skips, rfl⟩ := List.exists_cons_of_length_eq_add_one levels
    obtain ⟨first, later⟩ := List.forall_mem_cons.mp closers
    have stepped : literalScanner.step { scan with mode := .skipping (brackets + 1) } t
        = .more { scan with mode := .skipping brackets } := by
      rcases first with rfl | rfl <;> rfl
    rw [feed_cons_of_more stepped]
    exact ih later (Nat.succ.inj levels)

theorem step_closer (inner : OpenLiteral) (outer : List OpenLiteral) (room : Nat)
    (truncated : Bool) :
    step ⟨inner, outer, room, .reading, truncated⟩ inner.closer
      = closeInner ⟨inner, outer, room, .reading, truncated⟩ := by
  cases inner <;> rfl

/-- An element more does not change which bracket that is. -/
theorem closer_add (kind : OpenLiteral) (d : Datum) : (kind.add d).closer = kind.closer := by
  obtain items | ⟨entries, _ | key⟩ := kind <;> rfl

/-- **The closers of the open literals** close them one after the other, as the end of
the tokens would. The induction is on the literals around. -/
theorem feed_closers (inner : OpenLiteral) (outer : List OpenLiteral) (room : Nat)
    (truncated : Bool) (rest : List Token) :
    literalScanner.feed ⟨inner, outer, room, .reading, truncated⟩
        ((inner :: outer).map OpenLiteral.closer ++ rest)
      = .done (⟨closeAll inner outer, truncated⟩, rest) := by
  induction outer generalizing inner room with
  | nil =>
    have closed : literalScanner.step ⟨inner, [], room, .reading, truncated⟩ inner.closer
        = .done ⟨inner.close, truncated⟩ := step_closer inner [] room truncated
    rw [List.map_singleton, List.singleton_append, feed, closed]
    rfl
  | cons parent outer ih =>
    have closed : literalScanner.step ⟨inner, parent :: outer, room, .reading, truncated⟩
          inner.closer
        = .more ⟨parent.add inner.close, outer, room + 1, .reading, truncated⟩ :=
      step_closer inner (parent :: outer) room truncated
    rw [List.map_cons, List.cons_append, feed_cons_of_more closed, List.map_cons,
      ← closer_add parent inner.close, ← List.map_cons, ih]
    rfl

/-- **With the missing closers** the scan is done, with the result that it would have at
the end of the tokens. -/
theorem feed_missing {scan : LiteralScan} (h : scan.OutsideProcedures) {missing : List Token}
    (misses : scan.Misses missing) (rest : List Token) :
    literalScanner.feed scan (missing ++ rest) = .done (literalScanner.finish scan, rest) := by
  obtain ⟨skips, levels, closers, rfl⟩ := misses
  have finished : literalScanner.finish scan = _ := h.finish
  rw [finished, List.append_assoc]
  obtain ⟨inner, outer, room, mode, truncated⟩ := scan
  rcases h with reading | ⟨brackets, skipping⟩
  · obtain rfl : mode = .reading := reading
    obtain rfl : skips = [] := List.length_eq_zero_iff.mp levels
    exact feed_closers inner outer room truncated rest
  · obtain rfl : mode = .skipping brackets := skipping
    have skipped := feed_skips ⟨inner, outer, room, .reading, truncated⟩ closers levels
    rw [feed_append_of_more skipped]
    exact feed_closers inner outer room truncated rest

end LiteralScan

namespace Machine

/-- **Literals that are not closed are closed where the tokens end.** If the tokens have
no braces and end before the literal is closed, the machine is the same as if the
missing closers followed: the operand, the dictionaries and the comments. With the
closers, what follows them is left to read. -/
theorem unclosed_literals_close_at_end (m : Machine) (limits : Limits) (kind : OpenLiteral)
    {tokens : List Token} (braceFree : ∀ t ∈ tokens, t ≠ .openBrace ∧ t ≠ .closeBrace)
    {scan : LiteralScan}
    (unclosed : literalScanner.feed (.start limits.literals kind) tokens = .more scan)
    {missing : List Token} (misses : scan.Misses missing) (rest : List Token)
    (s s' : TokenStream) (ends : s.unread = tokens)
    (goesOn : s'.unread = tokens ++ (missing ++ rest)) :
    (m.pushLiteral limits kind s).2 = (m.pushLiteral limits kind s').2
    ∧ (m.pushLiteral limits kind s).1.unread = []
    ∧ (m.pushLiteral limits kind s').1.unread = rest := by
  have outside := LiteralScan.outsideProcedures_of_feed (fun t mem => (braceFree t mem).1) unclosed
  obtain ⟨result, left⟩ := literalScanner.run_flat (.start limits.literals kind) s
  obtain ⟨result', left'⟩ := literalScanner.run_flat (.start limits.literals kind) s'
  rw [ends, Scanner.scan, unclosed] at result left
  rw [goesOn, Scanner.scan, feed_append_of_more unclosed, LiteralScan.feed_missing outside misses]
    at result' left'
  simp only [pushLiteral, result, result', left, left']
  exact ⟨trivial, trivial, trivial⟩

/-- `<< /a [ (p) >> [ << /k` without its first bracket, for a limit of two: a closer
that does not match, two open literals, and two levels that are passed over. -/
def leftOpen : List Token :=
  [.name "a", .openBracket, .string "p", .closeDict, .openBracket, .openDict, .name "k"]

/-- `] >> ] >>` -/
def leftOut : List Token :=
  [.closeBracket, .closeDict, .closeBracket, .closeDict]

theorem unclosed_literals_close_at_end_skipping :
    (∀ t ∈ leftOpen, t ≠ .openBrace ∧ t ≠ .closeBrace)
    ∧ (∃ scan, literalScanner.feed (.start 2 (.dict [] none)) leftOpen = .more scan
      ∧ scan.Misses leftOut)
    ∧ (initial.pushLiteral { literals := 2 } (.dict [] none) (.ofTokens leftOpen)).2
      = (initial.pushLiteral { literals := 2 } (.dict [] none)
          ⟨[leftOpen, leftOut], [.name "z"]⟩).2
    ∧ (initial.pushLiteral { literals := 2 } (.dict [] none) (.ofTokens leftOpen)).1.unread = []
    ∧ (initial.pushLiteral { literals := 2 } (.dict [] none)
          ⟨[leftOpen, leftOut], [.name "z"]⟩).1.unread = [.name "z"] := by
  have misses : LiteralScan.Misses
      ⟨.array [.text "p"], [.dict [] (some "a")], 0, .skipping 1, true⟩ leftOut :=
    ⟨[.closeBracket, .closeDict], rfl, by simp, rfl⟩
  have braceFree : ∀ t ∈ leftOpen, t ≠ .openBrace ∧ t ≠ .closeBrace := by decide
  exact ⟨braceFree, ⟨_, rfl, misses⟩, unclosed_literals_close_at_end initial { literals := 2 }
    (.dict [] none) braceFree rfl misses [.name "z"] _ _ rfl rfl⟩

end Machine

end VectorPage
