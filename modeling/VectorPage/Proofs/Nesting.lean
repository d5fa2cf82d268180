/-
Literals are nested within the limit, whatever is written in them.

Brackets may be mismatched, left open or out of place, and the tokens may end while
something is passed over. Through all of this a scan keeps two facts. The room that
is left and the literals that are open make up the limit; and each open literal, if
it were closed now, would be nested within the limit together with those around it
(`Bounded`). Closing a literal, in its turn or at the end of the tokens, adds it to the
one around it, which is why the second fact counts those around.

A literal is refused where it would be one more than may be open. A scan notes that
it refused one, and forgets neither that nor adds to it, so a comment is drawn once,
if anything was refused at all.
-/
import VectorPage.Proofs.Limits
import VectorPage.Proofs.Origins
import VectorPage.Proofs.Storing

set_option autoImplicit false

namespace VectorPage

/-! ## Depth -/

namespace Datum

mutual

/-- How many literals are open at once; a literal counts itself. What stands in a
procedure is no literal yet. -/
def depth : Datum → Nat
  | number _ | text _ | name _ | procedure _ => 0
  | array items => itemsDepth items + 1
  | dict entries => entriesDepth entries + 1

def itemsDepth : List Datum → Nat
  | [] => 0
  | d :: rest => max d.depth (itemsDepth rest)

def entriesDepth : List (String × Datum) → Nat
  | [] => 0
  | (_, d) :: rest => max d.depth (entriesDepth rest)

end

theorem itemsDepth_le_iff {items : List Datum} {n : Nat} :
    itemsDepth items ≤ n ↔ ∀ d ∈ items, d.depth ≤ n := by
  induction items with
  | nil => simp [itemsDepth]
  | cons d rest ih => rw [itemsDepth, Nat.max_le, ih, List.forall_mem_cons]

theorem entriesDepth_le_iff {entries : List (String × Datum)} {n : Nat} :
    entriesDepth entries ≤ n ↔ ∀ entry ∈ entries, entry.2.depth ≤ n := by
  induction entries with
  | nil => simp [entriesDepth]
  | cons entry rest ih => rw [entriesDepth, Nat.max_le, ih, List.forall_mem_cons]

theorem depth_of_isLiteral {d : Datum} (single : d.isLiteral = false) : d.depth = 0 := by
  cases d with
  | array _ | dict _ => cases single
  | number _ | text _ | name _ | procedure _ => rfl

end Datum

namespace OpenLiteral

/-- How deeply the literal is nested if it is closed now. -/
def depth (kind : OpenLiteral) : Nat :=
  kind.close.depth

/-- **A value that is added** counts one more than by itself. -/
theorem depth_add_le (kind : OpenLiteral) (d : Datum) :
    (kind.add d).depth ≤ max kind.depth (d.depth + 1) := by
  have within : kind.depth ≤ max kind.depth (d.depth + 1) := Nat.le_max_left _ _
  generalize bound : max kind.depth (d.depth + 1) = n at within ⊢
  -- a literal is deeper than what is in it, so the bound is not zero
  obtain ⟨n, rfl⟩ : ∃ k, n = k + 1 := ⟨n - 1, by omega⟩
  have value : d.depth ≤ n := by omega
  cases kind with
  | array items =>
    have before := Datum.itemsDepth_le_iff.mp (Nat.le_of_succ_le_succ within)
    refine Nat.succ_le_succ (Datum.itemsDepth_le_iff.mpr fun d' mem => ?_)
    rcases List.mem_cons.mp (List.mem_reverse.mp mem) with rfl | old
    · exact value
    · exact before d' (List.mem_reverse.mpr old)
  | dict entries key =>
    cases key with
    | none => exact within
    | some key =>
      have before := Datum.entriesDepth_le_iff.mp (Nat.le_of_succ_le_succ within)
      refine Nat.succ_le_succ (Datum.entriesDepth_le_iff.mpr fun entry mem => ?_)
      rcases mem_setEntry mem with rfl | old
      · exact value
      · exact before entry old

/-- A literal that has just been opened has depth one, and so has the one at the
start. -/
theorem depth_of_nested? {inner kind : OpenLiteral} {token : Token}
    (opens : inner.nested? token = some kind) : kind.depth = 1 := by
  unfold nested? at opens
  split at opens <;> cases opens <;> rfl

end OpenLiteral

theorem Machine.depth_of_opening? {token : Token} {kind : OpenLiteral}
    (opens : opening? token = some kind) : kind.depth = 1 := by
  unfold opening? at opens
  split at opens <;> cases opens <;> rfl

/-! ## The bound -/

/-- Each open literal, closed now, is nested within a bound together with those around
it. -/
def NestedWithin (bound : Nat) : List OpenLiteral → Prop
  | [] => True
  | kind :: around => kind.depth + around.length ≤ bound ∧ NestedWithin bound around

/-- A value for the innermost literal may be as deep as the literals around leave
room for. -/
theorem NestedWithin.add {bound : Nat} {kind : OpenLiteral} {around : List OpenLiteral} {d : Datum}
    (within : NestedWithin bound (kind :: around)) (value : d.depth + around.length + 1 ≤ bound) :
    NestedWithin bound (kind.add d :: around) := by
  obtain ⟨here, beyond⟩ := within
  refine ⟨?_, beyond⟩
  have := kind.depth_add_le d
  omega

/-- Closing a literal makes it part of the one around it, one level higher, so the bound
is kept. -/
theorem NestedWithin.close {bound : Nat} {kind parent : OpenLiteral} {around : List OpenLiteral}
    (within : NestedWithin bound (kind :: parent :: around)) :
    NestedWithin bound (parent.add kind.close :: around) :=
  within.2.add within.1

namespace LiteralScan

/-- **A scan within its limit**: the room and the open literals make it up, and each of
these is nested within it. -/
structure Bounded (bound : Nat) (scan : LiteralScan) : Prop where
  level : scan.room + scan.outer.length + 1 = bound
  within : NestedWithin bound (scan.inner :: scan.outer)

variable {bound : Nat} {scan : LiteralScan}

/-- The bound in terms of a scan: the room and the open literals add up to it, and each
open literal has the depth that its level leaves. -/
theorem bounded_mk {inner : OpenLiteral} {outer : List OpenLiteral} {room : Nat}
    {mode : LiteralMode} {truncated : Bool} : Bounded bound ⟨inner, outer, room, mode, truncated⟩
      ↔ room + outer.length + 1 = bound ∧ NestedWithin bound (inner :: outer) :=
  ⟨fun h => ⟨h.level, h.within⟩, fun h => ⟨h.1, h.2⟩⟩

/-- At the start there is room for all levels but the first. A limit of zero counts as
one, since the literal itself is open already. -/
theorem bounded_start (limit : Nat) {kind : OpenLiteral} (single : kind.depth = 1) :
    (start limit kind).Bounded (max 1 limit) := by
  rw [start, bounded_mk, NestedWithin, List.length_nil, single]
  refine ⟨?_, ?_, trivial⟩ <;> omega

/-- Opening a literal uses up one level of room, and without room it is refused; either
way the sum stays. -/
theorem Bounded.nest (h : scan.Bounded bound) {kind : OpenLiteral} (single : kind.depth = 1) :
    (scan.nest kind).Bounded bound := by
  obtain ⟨inner, outer, room, mode, truncated⟩ := scan
  obtain ⟨level, within⟩ := bounded_mk.mp h
  cases room with
  | zero => exact bounded_mk.mpr ⟨level, within⟩
  | succ room =>
    have level' : room + (outer.length + 1) + 1 = bound := by omega
    have here : kind.depth + (outer.length + 1) ≤ bound := by omega
    exact bounded_mk.mpr ⟨level', here, within⟩

theorem Bounded.closeInner (h : scan.Bounded bound) :
    scan.closeInner.Satisfies (Bounded bound) fun literal => literal.datum.depth ≤ bound := by
  obtain ⟨inner, outer, room, mode, truncated⟩ := scan
  obtain ⟨level, within⟩ := bounded_mk.mp h
  cases outer with
  | nil => exact within.1
  | cons parent outer =>
    rw [List.length_cons] at level
    have level' : room + 1 + outer.length + 1 = bound := by omega
    exact bounded_mk.mpr ⟨level', within.close⟩

/-- **A token keeps the bound**, and a literal that it ends is within it. -/
theorem Bounded.step (h : scan.Bounded bound) (token : Token) :
    (scan.step token).Satisfies (Bounded bound) fun literal => literal.datum.depth ≤ bound := by
  obtain ⟨inner, outer, room, mode, truncated⟩ := scan
  obtain ⟨level, within⟩ := bounded_mk.mp h
  obtain ⟨inner', mode', changed, stays⟩ | ⟨kind, opens, -, nested⟩ | closes :=
    step_cases inner mode token
  · rw [stays]
    refine bounded_mk.mpr ⟨level, ?_⟩
    rcases changed with same | ⟨d, single, rfl⟩
    · -- what the literal would be if it were closed now is not changed
      rw [NestedWithin, OpenLiteral.depth, same]
      exact within
    · refine within.add ?_
      rw [Datum.depth_of_isLiteral single]
      omega
  · rw [nested]
    exact h.nest (OpenLiteral.depth_of_nested? opens)
  · rw [closes]
    exact h.closeInner

/-- **Closing all that is open** at the end of the tokens stays within the bound. The
induction is on the literals around. -/
theorem depth_closeAll_le {inner : OpenLiteral} {outer : List OpenLiteral}
    (within : NestedWithin bound (inner :: outer)) : (closeAll inner outer).depth ≤ bound := by
  induction outer generalizing inner with
  | nil => exact within.1
  | cons parent outer ih => exact ih within.close

/-- Literals closed at the end of the input are within the bound as well. -/
theorem Bounded.finish (h : scan.Bounded bound) : scan.finish.datum.depth ≤ bound := by
  obtain ⟨inner, outer, room, mode, truncated⟩ := scan
  obtain ⟨level, within⟩ := bounded_mk.mp h
  cases mode with
  | procedure body =>
    refine depth_closeAll_le (within.add ?_)
    rw [Datum.depth]
    omega
  | reading | skipping _ | skippingProcedure _ _ => exact depth_closeAll_le within

/-- **Every step keeps the bound**, whatever the token. -/
theorem literalScanner_bounded :
    literalScanner.Keeps (fun _ => True) (Bounded bound)
      fun literal => literal.datum.depth ≤ bound where
  step _ token h _ := h.step token
  finish _ h := h.finish

/-! ## Refusals -/

/-- **A literal is refused**: a token would open it inside the innermost one, and as
many are open as may be. -/
structure Refuses (limit : Nat) (scan : LiteralScan) (token : Token) : Prop where
  reading : scan.mode = .reading
  opens : (scan.inner.nested? token).isSome = true
  full : max 1 limit ≤ scan.outer.length + 1

/-- A bracket that opens a literal does so wherever the scan is reading. -/
theorem step_of_nested? {token : Token} {kind : OpenLiteral} (reading : scan.mode = .reading)
    (opens : scan.inner.nested? token = some kind) : scan.step token = .more (scan.nest kind) := by
  obtain ⟨inner, outer, room, mode, truncated⟩ := scan
  obtain rfl : mode = .reading := reading
  cases inner with
  | array items =>
    cases token with
    | openBracket =>
      cases opens
      rfl
    | _ => cases opens
  | dict entries key =>
    cases token with
    | openBracket | openDict =>
      cases opens
      rfl
    | _ => cases opens

/-- **A token is noted as refused** exactly if it is. -/
theorem passedOver_step_iff {limit : Nat} (h : scan.Bounded (max 1 limit)) (token : Token) :
    passedOver id (scan.step token) = true ↔ scan.truncated = true ∨ scan.Refuses limit token := by
  have level := h.level
  by_cases opens : scan.mode = .reading ∧ (scan.inner.nested? token).isSome = true
  · obtain ⟨reading, opens⟩ := opens
    obtain ⟨kind, opens'⟩ := Option.isSome_iff_exists.mp opens
    rw [step_of_nested? reading opens', nest]
    split
    · rename_i empty
      have refused : scan.Refuses limit token := ⟨reading, opens, by omega⟩
      simp [passedOver, refused]
    · rename_i room left
      have accepted : ¬ scan.Refuses limit token := fun refused => by
        have := refused.full
        omega
      simp [passedOver, accepted]
  · -- no literal is opened here, and only one that is could be refused
    have accepted : ¬ scan.Refuses limit token := fun refused => opens ⟨refused.1, refused.2⟩
    obtain ⟨inner, outer, room, mode, truncated⟩ := scan
    rw [or_iff_left accepted]
    obtain ⟨inner', mode', -, stays⟩ | ⟨kind, opens', reading, -⟩ | closes :=
      step_cases inner mode token
    · rw [stays]
      rfl
    · exact absurd ⟨reading, Option.isSome_of_eq_some opens'⟩ opens
    · rw [closes, closeInner]
      split <;> rfl

/-- **Somewhere in the tokens a literal is refused.** -/
def RefusesIn (limit : Nat) (scan : LiteralScan) (tokens : List Token) : Prop :=
  ∃ before token after scan', tokens = before ++ token :: after
    ∧ literalScanner.feed scan before = .more scan' ∧ scan'.Refuses limit token

theorem not_refusesIn_nil {limit : Nat} : ¬ scan.RefusesIn limit [] := by
  rintro ⟨before, token, after, -, parts, -, -⟩
  simp at parts

/-- At the first token, or later if the scan goes on. -/
theorem refusesIn_cons_iff {limit : Nat} {token : Token} {rest : List Token} :
    scan.RefusesIn limit (token :: rest) ↔ scan.Refuses limit token
      ∨ ∃ next, literalScanner.step scan token = .more next ∧ next.RefusesIn limit rest := by
  constructor
  · rintro ⟨before, refused, after, scan', parts, fed, refuses⟩
    cases before with
    | nil =>
      cases parts
      cases fed
      exact .inl refuses
    | cons first before =>
      obtain ⟨rfl, rfl⟩ := List.cons.inj parts
      rw [Scanner.feed] at fed
      split at fed
      · rename_i next stepped
        exact .inr ⟨next, stepped, before, refused, after, scan', rfl, fed, refuses⟩
      · cases fed
  · rintro (refuses | ⟨next, stepped, before, refused, after, scan', rfl, fed, refuses⟩)
    · exact ⟨[], token, rest, scan, rfl, rfl, refuses⟩
    · refine ⟨token :: before, refused, after, scan', rfl, ?_, refuses⟩
      rw [Scanner.feed, stepped]
      exact fed

/-- **A scan notes that something was passed over** exactly if it refused a literal. The
induction is on the tokens; the bound goes along, since it says when there is no room. -/
theorem passedOver_feed_iff {limit : Nat} (h : scan.Bounded (max 1 limit)) (tokens : List Token) :
    passedOver Prod.fst (literalScanner.feed scan tokens) = true
      ↔ scan.truncated = true ∨ scan.RefusesIn limit tokens := by
  induction tokens generalizing scan with
  | nil => exact (or_iff_left not_refusesIn_nil).symm
  | cons token rest ih =>
    have here : passedOver id (literalScanner.step scan token) = true
        ↔ scan.truncated = true ∨ scan.Refuses limit token := passedOver_step_iff h token
    have kept := literalScanner_bounded.step scan token h trivial
    rw [refusesIn_cons_iff, ← or_assoc, ← here, Scanner.feed]
    cases stepped : literalScanner.step scan token with
    | more next =>
      rw [stepped] at kept
      simpa [passedOver] using ih kept
    | done literal => simp [passedOver]

end LiteralScan

/-- **The result of a scan**: it is nested within the limit, and it is marked exactly if a
literal was refused. -/
theorem literalScanner_run_bounded (limit : Nat) {kind : OpenLiteral} (single : kind.depth = 1)
    (s : TokenStream) :
    (literalScanner.run (.start limit kind) s).1.datum.depth ≤ max 1 limit
    ∧ ((literalScanner.run (.start limit kind) s).1.truncated = true
      ↔ (LiteralScan.start limit kind).RefusesIn limit s.unread) := by
  have bounded := LiteralScan.bounded_start limit single
  refine ⟨LiteralScan.literalScanner_bounded.run bounded fun _ _ => trivial, ?_⟩
  have marked := LiteralScan.passedOver_feed_iff bounded s.unread
  rw [(literalScanner.run_flat _ s).1, Scanner.scan]
  -- at the start nothing has been refused
  rw [or_iff_right (by simp [LiteralScan.start])] at marked
  rw [← marked]
  cases fed : literalScanner.feed (.start limit kind) s.unread with
  | more scan => rw [finish_truncated, LiteralScan.passedOver]
  | done result => rfl

/-! ## Values -/

namespace Heap

/-- **The value is nested at most so deeply**, with its dictionaries read from the heap. -/
def NestedAtMost (heap : Heap) : Nat → Value → Prop
  | 0, .array _ | 0, .dict _ => False
  | n + 1, .array items => ∀ v ∈ items, heap.NestedAtMost n v
  | n + 1, .dict ref => ∀ entry ∈ heap.entries ref, heap.NestedAtMost n entry.2
  | _, _ => True

mutual

/-- A value that shows a literal is nested as that is. -/
theorem Shows.nestedAtMost {heap : Heap} {value : Value} {n : Nat} :
    {d : Datum} → heap.Shows value d → d.depth ≤ n → heap.NestedAtMost n value
  | .number _, shown, _ | .text _, shown, _ | .name _, shown, _ | .procedure _, shown, _ => by
    rw [Shows] at shown
    rw [shown]
    cases n <;> trivial
  | .array items, ⟨values, same, shown⟩, within => by
    obtain ⟨n, rfl⟩ : ∃ k, n = k + 1 := ⟨n - 1, by rw [Datum.depth] at within; omega⟩
    rw [same]
    exact ShowsItems.nestedAtMost shown (Nat.le_of_succ_le_succ within)
  | .dict entries, ⟨ref, cell, same, there, shown⟩, within => by
    obtain ⟨n, rfl⟩ : ∃ k, n = k + 1 := ⟨n - 1, by rw [Datum.depth] at within; omega⟩
    have found : heap.entries ref = cell := by
      rw [Heap.entries, Array.getD_eq_getD_getElem?, there, Option.getD_some]
    rw [same, NestedAtMost, found]
    exact ShowsEntries.nestedAtMost shown (Nat.le_of_succ_le_succ within)

/-- The items of an array are nested as deep as the data they show. -/
theorem ShowsItems.nestedAtMost {heap : Heap} {values : List Value} {n : Nat} :
    {items : List Datum} → heap.ShowsItems values items → Datum.itemsDepth items ≤ n →
      ∀ v ∈ values, heap.NestedAtMost n v
  | [], shown, _ => by
    rw [ShowsItems] at shown
    simp [shown]
  | _ :: _, ⟨value, rest, same, first, later⟩, within => by
    rw [Datum.itemsDepth, Nat.max_le] at within
    rw [same, List.forall_mem_cons]
    exact ⟨Shows.nestedAtMost first within.1, ShowsItems.nestedAtMost later within.2⟩

/-- So are the entries of a dictionary, through its cell. -/
theorem ShowsEntries.nestedAtMost {heap : Heap} {cell : Entries} {n : Nat} :
    {entries : List (String × Datum)} → heap.ShowsEntries cell entries →
      Datum.entriesDepth entries ≤ n → ∀ entry ∈ cell, heap.NestedAtMost n entry.2
  | [], shown, _ => by
    rw [ShowsEntries] at shown
    simp [shown]
  | (_, _) :: _, ⟨value, rest, same, first, later⟩, within => by
    rw [Datum.entriesDepth, Nat.max_le] at within
    rw [same, List.forall_mem_cons]
    exact ⟨Shows.nestedAtMost first within.1, ShowsEntries.nestedAtMost later within.2⟩

end

end Heap

theorem Picture.remark_ne (p : Picture) (message : String) : p.remark message ≠ p := by
  intro same
  have size := congrArg (fun p => p.shapes.size) same
  simp [Picture.remark, Picture.draw] at size

namespace Machine

/-- **Literals are nested within the limit.** Whatever tokens follow the opening bracket,
the operand is nested at most as deeply as the limit allows, itself included. A comment
is drawn exactly if a literal was refused on the way: one, for however many. -/
theorem literals_nested_within_limit (opener : Token) {kind : OpenLiteral}
    (opens : opening? opener = some kind) (limits : Limits) (m : Machine) (s : TokenStream) :
    (∃ value, (m.pushLiteral limits kind s).2.operands = value :: m.operands
      ∧ (m.pushLiteral limits kind s).2.heap.NestedAtMost (max 1 limits.literals) value)
    ∧ ((m.pushLiteral limits kind s).2.picture = m.picture.remark "literal nesting limit reached"
      ↔ (LiteralScan.start limits.literals kind).RefusesIn limits.literals s.unread)
    ∧ ((m.pushLiteral limits kind s).2.picture = m.picture
      ↔ ¬ (LiteralScan.start limits.literals kind).RefusesIn limits.literals s.unread) := by
  obtain ⟨within, marked⟩ := literalScanner_run_bounded limits.literals (depth_of_opening? opens) s
  rw [← marked]
  obtain ⟨value, heap, stored, -, shown⟩ :=
    m.heap.store_shows (literalScanner.run (.start limits.literals kind) s).1.datum
  have changed := m.picture.remark_ne "literal nesting limit reached"
  cases cut : (literalScanner.run (.start limits.literals kind) s).1.truncated with
  | false =>
    have pushed : (m.pushLiteral limits kind s).2 = { m with heap := heap }.push value := by
      simp [pushLiteral, cut, stored]
    rw [pushed]
    exact ⟨⟨value, rfl, shown.nestedAtMost within⟩, by simp [push, changed.symm], by simp [push]⟩
  | true =>
    have pushed : (m.pushLiteral limits kind s).2
        = { (m.remark "literal nesting limit reached").note .literal with heap := heap }.push
          value := by
      simp [pushLiteral, cut, note, remark, stored]
    rw [pushed]
    exact ⟨⟨value, rfl, shown.nestedAtMost within⟩, by simp [push, note, remark],
      by simp [push, note, remark, changed]⟩

/-- `[ [ /a >> [ << ] ] /b ] [ [ {` without its first bracket: closers that do not
match, and two literals nested too deeply for a limit of two. The tokens end in the
second one. -/
def refusedTwice : List Token :=
  [.openBracket, .name "a", .closeDict, .openBracket, .openDict, .closeBracket, .closeBracket,
    .name "b", .closeBracket, .openBracket, .openBracket, .openBrace]

/-- The machine after it. -/
def afterRefusals : Machine :=
  (initial.pushLiteral { literals := 2 } (.array []) (.ofTokens refusedTwice)).2

theorem literals_nested_within_limit_refused :
    opening? .openBracket = some (.array [])
    ∧ (LiteralScan.start 2 (.array [])).RefusesIn 2 refusedTwice
    ∧ afterRefusals.operands = [.array [.array [.name "a", .name "b"], .array []]]
    ∧ (∃ value, afterRefusals.operands = [value] ∧ afterRefusals.heap.NestedAtMost 2 value)
    ∧ afterRefusals.picture = initial.picture.remark "literal nesting limit reached" := by
  have refused : (LiteralScan.start 2 (.array [])).RefusesIn 2 refusedTwice :=
    ⟨refusedTwice.take 3, .openBracket, refusedTwice.drop 4, _, rfl, rfl, rfl, rfl, by decide⟩
  obtain ⟨nested, remarked, -⟩ := literals_nested_within_limit .openBracket rfl
    { literals := 2 } initial (.ofTokens refusedTwice)
  exact ⟨rfl, refused, rfl, nested, remarked.mpr refused⟩

end Machine

end VectorPage
