/-
Literals are read as they are written.

A scan of a literal is a loop over single tokens, with a stack of open literals
and a mode; the grammar of literals is recursive. For each part of the grammar,
one equation says from which state to which state its tokens take the scan: an
element of an array adds what is left of it after the cut, an entry of a
dictionary gives what is left of it, key and value, to the open entries. Neither
changes the literals around nor the room, and something is passed over if and
only if the part is nested deeper than the room.

The equations hold for any literals around the part and any room, so they go
through the recursion of the grammar. At the outermost literal they give the
whole scan: the tokens it takes, the value, and whether it was cut. A cut
dictionary has its names and values paired up anew, which is not what dropping
entries gives.
-/
import VectorPage.Proofs.Boundaries
import VectorPage.Proofs.Grammar
import VectorPage.Proofs.Storing

set_option autoImplicit false

namespace VectorPage

/-! ## Feeding part by part -/

namespace Scanner

variable {σ ρ : Type} {scanner : Scanner σ ρ} {state state' : σ}

/-- A scan that is not done goes on with the tokens that follow. -/
theorem feed_append_of_more {xs : List Token} (fed : scanner.feed state xs = .more state')
    (ys : List Token) : scanner.feed state (xs ++ ys) = scanner.feed state' ys := by
  rw [feed_append, fed]

theorem feed_cons_of_more {token : Token} (stepped : scanner.step state token = .more state')
    (rest : List Token) : scanner.feed state (token :: rest) = scanner.feed state' rest := by
  rw [feed, stepped]

end Scanner

open Scanner

/-! ## Procedures -/

/-- Tokens whose braces pair up are collected as they are. -/
theorem feed_balanced {body : List Token} (balanced : Balanced body) (scan : BodyScan) :
    bodyScanner.feed scan body = .more ⟨scan.depth, body.reverse ++ scan.tokens⟩ := by
  induction balanced generalizing scan with
  | nil => rfl
  | @token t rest opening closing _ ih =>
    have stepped : bodyScanner.step scan t = .more ⟨scan.depth, t :: scan.tokens⟩ := by
      cases t with
      | openBrace => exact absurd rfl opening
      | closeBrace => exact absurd rfl closing
      | _ => rfl
    rw [feed_cons_of_more stepped, ih, List.reverse_cons, List.append_assoc]
    rfl
  | @braces inner rest _ _ ihInner ihRest =>
    have opened : bodyScanner.step scan .openBrace
        = .more ⟨scan.depth + 1, .openBrace :: scan.tokens⟩ := rfl
    rw [feed_cons_of_more opened, feed_append_of_more (ihInner _)]
    have closed : bodyScanner.step
          ⟨scan.depth + 1, inner.reverse ++ .openBrace :: scan.tokens⟩ .closeBrace
        = .more ⟨scan.depth, .closeBrace :: (inner.reverse ++ .openBrace :: scan.tokens)⟩ := rfl
    rw [feed_cons_of_more closed, ihRest]
    simp

/-- A literal that hands its tokens on to a body goes on as long as that does. -/
theorem feed_of_body (within : BodyScan → LiteralScan)
    (follows : ∀ body token body', body.step token = .more body' →
      (within body).step token = .more (within body'))
    {tokens : List Token} {body body' : BodyScan} (fed : bodyScanner.feed body tokens = .more body') :
    literalScanner.feed (within body) tokens = .more (within body') := by
  induction tokens generalizing body with
  | nil =>
    cases fed
    rfl
  | cons token rest ih =>
    cases stepped : bodyScanner.step body token with
    | more next =>
      rw [feed_cons_of_more stepped] at fed
      have followed : literalScanner.step (within body) token = .more (within next) :=
        follows body token next stepped
      rw [feed_cons_of_more followed]
      exact ih fed
    | done result =>
      rw [feed, stepped] at fed
      cases fed

/-- A procedure in a dictionary is added to it. -/
theorem feed_procedure {body : List Token} (balanced : Balanced body)
    (entries : List (String × Datum)) (key : Option String) (outer : List OpenLiteral) (room : Nat)
    (truncated : Bool) :
    literalScanner.feed ⟨.dict entries key, outer, room, .reading, truncated⟩
        (.openBrace :: (body ++ [.closeBrace]))
      = .more ⟨(OpenLiteral.dict entries key).add (.procedure body), outer, room, .reading,
          truncated⟩ := by
  have opened : literalScanner.step ⟨.dict entries key, outer, room, .reading, truncated⟩ .openBrace
      = .more ⟨.dict entries key, outer, room, .procedure .start, truncated⟩ := rfl
  have collected := feed_of_body
    (fun body => ⟨.dict entries key, outer, room, .procedure body, truncated⟩)
    (fun body token body' stepped => by simp only [LiteralScan.step, stepped])
    (feed_balanced balanced .start)
  rw [feed_cons_of_more opened, feed_append_of_more collected]
  simp [feed, literalScanner, LiteralScan.step, BodyScan.step, BodyScan.start, LiteralScan.add]

/-! ## Passing over -/

/-- **Tokens that a scan passes over** without a trace, if it is passing over
something already. -/
def Skippable (tokens : List Token) : Prop :=
  ∀ (scan : LiteralScan) (brackets : Nat),
    literalScanner.feed { scan with mode := .skipping brackets } tokens
      = .more { scan with mode := .skipping brackets }

/-- The tokens of a literal, between brackets of either kind. -/
structure Brackets (opener closer : Token) : Prop where
  opens : opener = .openBracket ∨ opener = .openDict
  closes : closer = .closeBracket ∨ closer = .closeDict

namespace Skippable

theorem append {xs ys : List Token} (first : Skippable xs) (later : Skippable ys) :
    Skippable (xs ++ ys) := by
  intro scan brackets
  rw [feed_append_of_more (first scan brackets), later]

/-- A procedure is skipped up to the brace that closes it. -/
theorem procedure {body : List Token} (balanced : Balanced body) :
    Skippable (.openBrace :: (body ++ [.closeBrace])) := by
  intro scan brackets
  have opened : literalScanner.step { scan with mode := .skipping brackets } .openBrace
      = .more { scan with mode := .skippingProcedure brackets .start } := rfl
  have collected := feed_of_body
    (fun body => { scan with mode := .skippingProcedure brackets body })
    (fun body token body' stepped => by simp only [LiteralScan.step, stepped])
    (feed_balanced balanced .start)
  rw [feed_cons_of_more opened, feed_append_of_more collected]
  rfl

/-- A literal in brackets can be skipped, if what is inside can: brackets are
counted. -/
theorem nested {opener closer : Token} (pair : Brackets opener closer) {tokens : List Token}
    (inside : Skippable tokens) : Skippable (opener :: (tokens ++ [closer])) := by
  intro scan brackets
  have opened : literalScanner.step { scan with mode := .skipping brackets } opener
      = .more { scan with mode := .skipping (brackets + 1) } := by
    rcases pair.opens with rfl | rfl <;> rfl
  rw [feed_cons_of_more opened, feed_append_of_more (inside scan (brackets + 1))]
  rcases pair.closes with rfl | rfl <;> rfl

end Skippable

theorem Scalar.skippable (x : Scalar) : Skippable [x.token] := by
  intro scan brackets
  cases x <;> rfl

namespace Element

mutual

/-- **A whole element can be skipped**, by recursion on it. -/
theorem skippable : (e : Element) → Skippable e.tokens
  | scalar x => x.skippable
  | array elements => .nested ⟨.inl rfl, .inl rfl⟩ (allSkippable elements)

theorem allSkippable : (elements : List Element) → Skippable (allTokens elements)
  | [] => fun _ _ => rfl
  | e :: rest => (skippable e).append (allSkippable rest)

end

end Element

namespace Content

mutual

theorem skippable : (v : Content) → Skippable v.tokens
  | scalar x => x.skippable
  | word _ => fun _ _ => rfl
  | procedure _ balanced => .procedure balanced
  | array elements => (Element.array elements).skippable
  | dict entries => .nested ⟨.inr rfl, .inr rfl⟩ (entriesSkippable entries)

theorem entriesSkippable : (entries : List (String × Content)) → Skippable (entryTokens entries)
  | [] => fun _ _ => rfl
  | (key, value) :: rest =>
    (Scalar.name key).skippable.append ((skippable value).append (entriesSkippable rest))

end

end Content

/-! ## Literals inside a literal -/

section Nested

variable {inner kind : OpenLiteral} {outer : List OpenLiteral} {truncated : Bool}
  {opener closer : Token} {tokens : List Token}

/-- Without room, a literal is passed over. -/
theorem feed_refused
    (opened : LiteralScan.step ⟨inner, outer, 0, .reading, truncated⟩ opener
      = .more (.nest ⟨inner, outer, 0, .reading, truncated⟩ kind))
    (pair : Brackets opener closer) (inside : Skippable tokens) :
    literalScanner.feed ⟨inner, outer, 0, .reading, truncated⟩ (opener :: (tokens ++ [closer]))
      = .more ⟨inner, outer, 0, .reading, true⟩ := by
  have skipping : literalScanner.step ⟨inner, outer, 0, .reading, truncated⟩ opener
      = .more ⟨inner, outer, 0, .skipping 0, true⟩ := opened
  rw [feed_cons_of_more skipping,
    feed_append_of_more (inside ⟨inner, outer, 0, .reading, true⟩ 0)]
  rcases pair.closes with rfl | rfl <;> rfl

/-- With room, a literal becomes a value of the one around it. -/
theorem feed_nested {kind' : OpenLiteral} {room : Nat} {truncated' : Bool}
    (opened : LiteralScan.step ⟨inner, outer, room + 1, .reading, truncated⟩ opener
      = .more (.nest ⟨inner, outer, room + 1, .reading, truncated⟩ kind))
    (fed : literalScanner.feed ⟨kind, inner :: outer, room, .reading, truncated⟩ tokens
      = .more ⟨kind', inner :: outer, room, .reading, truncated'⟩)
    (closed : LiteralScan.step ⟨kind', inner :: outer, room, .reading, truncated'⟩ closer
      = LiteralScan.closeInner ⟨kind', inner :: outer, room, .reading, truncated'⟩) :
    literalScanner.feed ⟨inner, outer, room + 1, .reading, truncated⟩
        (opener :: (tokens ++ [closer]))
      = .more ⟨inner.add kind'.close, outer, room + 1, .reading, truncated'⟩ := by
  have nesting : literalScanner.step ⟨inner, outer, room + 1, .reading, truncated⟩ opener
      = .more ⟨kind, inner :: outer, room, .reading, truncated⟩ := opened
  have closing : literalScanner.step ⟨kind', inner :: outer, room, .reading, truncated'⟩ closer
      = .more ⟨inner.add kind'.close, outer, room + 1, .reading, truncated'⟩ := closed
  rw [feed_cons_of_more nesting, feed_append_of_more fed, feed_cons_of_more closing]
  rfl

/-- The outermost literal is the result, and what follows it is left. -/
theorem feed_outermost {kind' : OpenLiteral} {room : Nat} {truncated' : Bool}
    (fed : literalScanner.feed ⟨kind, [], room, .reading, truncated⟩ tokens
      = .more ⟨kind', [], room, .reading, truncated'⟩)
    (closed : LiteralScan.step ⟨kind', [], room, .reading, truncated'⟩ closer
      = LiteralScan.closeInner ⟨kind', [], room, .reading, truncated'⟩) (rest : List Token) :
    literalScanner.feed ⟨kind, [], room, .reading, truncated⟩ ((tokens ++ [closer]) ++ rest)
      = .done (⟨kind'.close, truncated'⟩, rest) := by
  have closing : literalScanner.step ⟨kind', [], room, .reading, truncated'⟩ closer
      = .done ⟨kind'.close, truncated'⟩ := closed
  rw [List.append_assoc, feed_append_of_more fed, List.singleton_append, feed, closing]

end Nested

/-- Something was passed over before, in the first part or in the second. -/
theorem or_decide_lt_max (truncated : Bool) (room a b : Nat) :
    ((truncated || decide (room < a)) || decide (room < b))
      = (truncated || decide (room < max a b)) := by
  have either : (room < a ∨ room < b) ↔ room < max a b := by omega
  rw [Bool.or_assoc, ← Bool.decide_or, decide_eq_decide.mpr either]

/-! ## Arrays -/

/-- A bracket opens a literal inside, wherever the scan is reading. -/
theorem step_openBracket (inner : OpenLiteral) (outer : List OpenLiteral) (room : Nat)
    (truncated : Bool) :
    LiteralScan.step ⟨inner, outer, room, .reading, truncated⟩ .openBracket
      = .more (.nest ⟨inner, outer, room, .reading, truncated⟩ (.array [])) := by
  cases inner <;> rfl

namespace Element

theorem data_append (xs ys : List Element) : data (xs ++ ys) = data xs ++ data ys := by
  induction xs with
  | nil => rfl
  | cons e rest ih => rw [List.cons_append, data, data, ih, List.cons_append]

/-- **What the elements of an array do to a scan**: they are added, as far as
they are left. -/
def Feeds (elements : List Element) : Prop :=
  ∀ (items : List Datum) (outer : List OpenLiteral) (room : Nat) (truncated : Bool),
    literalScanner.feed ⟨.array items, outer, room, .reading, truncated⟩ (allTokens elements)
      = .more ⟨.array ((data (cutAll room elements)).reverse ++ items), outer, room, .reading,
          truncated || decide (room < maxDepth elements)⟩

/-- An array is added to the literal it stands in, array or dictionary. -/
theorem Feeds.array {elements : List Element} (fed : Feeds elements) (inner : OpenLiteral)
    (outer : List OpenLiteral) (room : Nat) (truncated : Bool) :
    literalScanner.feed ⟨inner, outer, room, .reading, truncated⟩ (array elements).tokens
      = .more ⟨((array elements).cut room).elim inner fun e => inner.add e.datum, outer, room,
          .reading, truncated || decide (room < (array elements).depth)⟩ := by
  rw [tokens]
  cases room with
  | zero =>
    rw [feed_refused (step_openBracket inner outer 0 truncated) ⟨.inl rfl, .inl rfl⟩
      (allSkippable elements)]
    simp [cut, depth]
  | succ room =>
    rw [feed_nested (step_openBracket inner outer (room + 1) truncated)
      (fed [] (inner :: outer) room truncated) rfl]
    simp [cut, depth, datum, OpenLiteral.close]

mutual

/-- **One element of an array**: it is appended, cut to the room that there is, and that
something was cut is remembered. -/
theorem feeds_one : (e : Element) → (items : List Datum) → (outer : List OpenLiteral) →
    (room : Nat) → (truncated : Bool) →
    literalScanner.feed ⟨.array items, outer, room, .reading, truncated⟩ e.tokens
      = .more ⟨.array ((data (e.cut room).toList).reverse ++ items), outer, room, .reading,
          truncated || decide (room < e.depth)⟩
  | scalar x, items, outer, room, truncated => by
    rw [depth, decide_eq_false (Nat.not_lt_zero room), Bool.or_false]
    cases x <;> rfl
  | array elements, items, outer, room, truncated => by
    rw [(feeds elements).array]
    cases room <;> rfl

/-- Elements in a row, one after the other. -/
theorem feeds : (elements : List Element) → Feeds elements
  | [], items, outer, room, truncated => by simp [feed, allTokens, cutAll, data, maxDepth]
  | e :: rest, items, outer, room, truncated => by
    rw [allTokens, feed_append_of_more (feeds_one e items outer room truncated), feeds rest,
      or_decide_lt_max, cutAll, data_append, List.reverse_append, List.append_assoc, maxDepth]

end

end Element

/-! ## Dictionaries -/

/-- A dictionary that is not closed yet: its entries, and the key that waits. -/
structure OpenEntries where
  entries : List (String × Datum)
  key : Option String

namespace OpenEntries

def literal (d : OpenEntries) : OpenLiteral :=
  .dict d.entries d.key

/-- A value completes the entry of the key that waits. When none is waiting, a
name is a key, and anything else is dropped. -/
def take (d : OpenEntries) (v : Content) : OpenEntries :=
  match d.key, v with
  | some key, v => ⟨setEntry key v.datum d.entries, none⟩
  | none, .scalar (.name s) => ⟨d.entries, some s⟩
  | none, _ => d

/-- Taking names and values one after the other pairs them up. -/
theorem entries_take (d : OpenEntries) (vs : List Content) :
    (vs.foldl take d).entries
      = (Content.data (pairUp d.key vs)).foldl
          (fun done entry => setEntry entry.1 entry.2 done) d.entries := by
  obtain ⟨entries, key⟩ := d
  dsimp only
  fun_induction pairUp key vs generalizing entries with
  | case1 => rfl
  | case2 key v rest ih => exact ih _
  | case3 s rest ih => exact ih _
  | case4 v rest notName ih =>
    have idle : take ⟨entries, none⟩ v = ⟨entries, none⟩ := by
      unfold take
      split
      · cases ‹none = some _›
      · exact absurd rfl (notName _)
      · rfl
    rw [List.foldl_cons, idle]
    exact ih entries

/-- The dictionary that was open from the start, closed. -/
theorem close_take (vs : List Content) :
    (vs.foldl take ⟨[], none⟩).literal.close = (Content.dict (pairUp none vs)).datum :=
  congrArg Datum.dict (entries_take ⟨[], none⟩ vs)

end OpenEntries

/-- A number, a text or a name is taken by the dictionary under construction, as a key
or as a value. -/
theorem Scalar.feeds (x : Scalar) (d : OpenEntries) (outer : List OpenLiteral) (room : Nat)
    (truncated : Bool) :
    literalScanner.feed ⟨d.literal, outer, room, .reading, truncated⟩ [x.token]
      = .more ⟨(d.take (.scalar x)).literal, outer, room, .reading, truncated⟩ := by
  obtain ⟨entries, _ | key⟩ := d <;> cases x <;> rfl

namespace Content

mutual

/-- **What the value of an entry does to a scan**: it is taken, as far as it is
left. -/
theorem feeds : (v : Content) → (d : OpenEntries) → (outer : List OpenLiteral) → (room : Nat) →
    (truncated : Bool) →
    literalScanner.feed ⟨d.literal, outer, room, .reading, truncated⟩ v.tokens
      = .more ⟨((v.cut pairedAnew room).toList.foldl .take d).literal, outer, room, .reading,
          truncated || decide (room < v.depth)⟩
  | scalar x, d, outer, room, truncated => by
    rw [tokens, x.feeds, depth, decide_eq_false (Nat.not_lt_zero room), Bool.or_false]
    rfl
  | word s, d, outer, room, truncated => by
    rw [depth, decide_eq_false (Nat.not_lt_zero room), Bool.or_false]
    obtain ⟨entries, _ | key⟩ := d <;> rfl
  | procedure body balanced, d, outer, room, truncated => by
    rw [tokens, OpenEntries.literal, feed_procedure balanced, depth,
      decide_eq_false (Nat.not_lt_zero room), Bool.or_false]
    obtain ⟨entries, _ | key⟩ := d <;> rfl
  | array elements, d, outer, room, truncated => by
    have added := (Element.feeds elements).array d.literal outer room truncated
    refine added.trans ?_
    obtain ⟨entries, _ | key⟩ := d <;> cases room <;> rfl
  | dict entries, d, outer, room, truncated => by
    rw [tokens]
    cases room with
    | zero =>
      rw [feed_refused rfl ⟨.inr rfl, .inr rfl⟩ (entriesSkippable entries)]
      simp [cut, depth]
    | succ room =>
      have inside := entriesFeed entries ⟨[], none⟩ (d.literal :: outer) room truncated
      have deeper : room + 1 < (dict entries).depth ↔ room < maxDepth entries :=
        Nat.add_lt_add_iff_right
      rw [feed_nested rfl inside rfl, OpenEntries.close_take, decide_eq_decide.mpr deeper]
      obtain ⟨done, _ | key⟩ := d <;> rfl

/-- **Entries in a row.** Keys and values are taken one by one, so after something has
been left out the dictionary pairs them otherwise than they were written. -/
theorem entriesFeed : (entries : List (String × Content)) → (d : OpenEntries) →
    (outer : List OpenLiteral) → (room : Nat) → (truncated : Bool) →
    literalScanner.feed ⟨d.literal, outer, room, .reading, truncated⟩ (entryTokens entries)
      = .more ⟨(((cutAll pairedAnew room entries).flatMap leftOver).foldl .take d).literal, outer,
          room, .reading, truncated || decide (room < maxDepth entries)⟩
  | [], d, outer, room, truncated => by simp [feed, entryTokens, cutAll, maxDepth]
  | (key, value) :: rest, d, outer, room, truncated => by
    have keyFed := (Scalar.name key).feeds d outer room truncated
    refine (feed_append_of_more keyFed (value.tokens ++ entryTokens rest)).trans ?_
    rw [feed_append_of_more (feeds value (d.take (.scalar (.name key))) outer room truncated),
      entriesFeed rest, or_decide_lt_max, cutAll, List.flatMap_cons, leftOver, List.cons_append,
      List.foldl_cons, List.foldl_append, maxDepth]

end

end Content

/-! ## Whole literals -/

/-- **A scan of a literal as it is written**: it takes the tokens of the literal
and no more, and its value is that of the literal, cut at the limit. -/
theorem Written.feed_inside (w : Written) (limit : Nat) (rest : List Token) :
    literalScanner.feed (.start limit w.opening) (w.inside ++ rest)
      = .done (⟨(w.cut pairedAnew (max 1 limit)).datum, decide (max 1 limit < w.depth)⟩, rest) := by
  have room : max 1 limit - 1 = limit - 1 := by omega
  have deeper : ∀ deepest, decide (max 1 limit < deepest + 1) = decide (limit - 1 < deepest) := by
    intro deepest
    exact decide_eq_decide.mpr (by omega)
  cases w with
  | array elements =>
    rw [cut, depth, room, deeper]
    refine (feed_outermost (Element.feeds elements [] [] (limit - 1) false) rfl rest).trans ?_
    rw [List.append_nil, OpenLiteral.close, List.reverse_reverse, Bool.false_or]
    rfl
  | dict entries =>
    rw [cut, depth, room, deeper]
    refine (feed_outermost (Content.entriesFeed entries ⟨[], none⟩ [] (limit - 1) false) rfl
      rest).trans ?_
    rw [OpenEntries.close_take, Bool.false_or]
    rfl

/-- The same for a stream, wherever the calls end in it. -/
theorem Written.run_inside (w : Written) (limit : Nat) {s : TokenStream} {rest : List Token}
    (next : s.unread = w.inside ++ rest) :
    (literalScanner.run (.start limit w.opening) s).1
        = ⟨(w.cut pairedAnew (max 1 limit)).datum, decide (max 1 limit < w.depth)⟩
    ∧ (literalScanner.run (.start limit w.opening) s).2.unread = rest := by
  have flat := literalScanner.run_flat (.start limit w.opening) s
  rw [next, Scanner.scan, w.feed_inside] at flat
  exact flat

namespace Machine

/-- **Literals are read as they are written.** The tokens after a literal are
left to read. Within the limit, the operand shows the value that the literal
denotes, and nothing is drawn; a literal nested deeper leaves one comment. In a
dictionary, the last binding of a key wins. -/
theorem literals_read_as_written (w : Written) (limits : Limits) (m : Machine) {s : TokenStream}
    {rest : List Token} (next : s.unread = w.inside ++ rest) :
    (m.pushLiteral limits w.opening s).1.unread = rest
    ∧ (w.depth ≤ max 1 limits.literals →
        ∃ value heap, m.heap.Grows heap ∧ heap.Shows value w.datum
          ∧ (m.pushLiteral limits w.opening s).2 = { m with heap := heap }.push value)
    ∧ (max 1 limits.literals < w.depth →
        (m.pushLiteral limits w.opening s).2.picture
          = m.picture.remark "literal nesting limit reached")
    ∧ ∀ entries key, (bindings (Content.data entries)).lookup key
        = (Content.data entries).reverse.lookup key := by
  obtain ⟨result, left⟩ := w.run_inside limits.literals next
  refine ⟨left, ?_, ?_, fun entries => lookup_bindings (Content.data entries)⟩
  · intro shallow
    obtain ⟨value, heap, stored, grows, shown⟩ := m.heap.store_shows w.datum
    refine ⟨value, heap, grows, shown, ?_⟩
    rw [w.cut_of_depth_le shallow, decide_eq_false (Nat.not_lt.mpr shallow)] at result
    simp [pushLiteral, result, stored]
  · intro deep
    rw [decide_eq_true deep] at result
    simp [pushLiteral, result, push, note, remark]

/-- `<< /a [(p) [/q]] /b { { x } } /a << /c w >> >>`: a key bound twice, and
literals three deep. -/
def boundTwice : Written :=
  .dict
    [("a", .array [.scalar (.string "p"), .array [.scalar (.name "q")]]),
      ("b", .procedure [.openBrace, .operator "x", .closeBrace]
        (.braces (.token (by decide) (by decide) .nil) .nil)),
      ("a", .dict [("c", .word "w")])]

/-- It begins in a call and ends in the program, where a name follows. -/
def acrossCalls : TokenStream :=
  ⟨[boundTwice.inside.take 4, []], boundTwice.inside.drop 4 ++ [.name "z"]⟩

/-- It is read whole if three literals may be open, and leaves a comment if only
two may. -/
theorem literals_read_as_written_bound_twice :
    boundTwice.datum = .dict
      [("a", .dict [("c", .name "w")]), ("b", .procedure [.openBrace, .operator "x", .closeBrace])]
    ∧ (initial.pushLiteral { literals := 3 } boundTwice.opening acrossCalls).1.unread = [.name "z"]
    ∧ (∃ value heap, heap.Shows value boundTwice.datum
        ∧ (initial.pushLiteral { literals := 3 } boundTwice.opening acrossCalls).2
          = { initial with heap := heap }.push value)
    ∧ (initial.pushLiteral { literals := 2 } boundTwice.opening acrossCalls).1.unread = [.name "z"]
    ∧ (initial.pushLiteral { literals := 2 } boundTwice.opening acrossCalls).2.picture
      = initial.picture.remark "literal nesting limit reached" := by
  have denoted : boundTwice.datum = .dict [("a", .dict [("c", .name "w")]),
      ("b", .procedure [.openBrace, .operator "x", .closeBrace])] := by
    simp [boundTwice, Written.datum, Content.data, Content.datum, bindings, setEntry]
  have next : acrossCalls.unread = boundTwice.inside ++ [.name "z"] := rfl
  obtain ⟨left, shows, -, -⟩ := literals_read_as_written boundTwice { literals := 3 } initial next
  obtain ⟨left', -, remarks, -⟩ := literals_read_as_written boundTwice { literals := 2 } initial next
  obtain ⟨value, heap, -, shown, pushed⟩ := shows (by decide)
  exact ⟨denoted, left, ⟨value, heap, shown, pushed⟩, left', remarks (by decide)⟩

end Machine

/-! ## Cut literals -/

/-- **A literal that is nested too deeply is cut**, and in each dictionary that is
left, names and values are paired up anew. If only last values were removed, this
is the literal without the entries of what was removed. -/
theorem cut_literal_is_paired_anew (w : Written) (limit : Nat) {s : TokenStream}
    {rest : List Token} (next : s.unread = w.inside ++ rest) :
    (literalScanner.run (.start limit w.opening) s).1.datum
        = (w.cut pairedAnew (max 1 limit)).datum
    ∧ (w.LosesLastOnly (max 1 limit) →
        (literalScanner.run (.start limit w.opening) s).1.datum
          = (w.cut dropped (max 1 limit)).datum) := by
  rw [(w.run_inside limit next).1]
  exact ⟨rfl, fun last => by rw [w.cut_of_losesLastOnly last]⟩

/-- `<< /a << /b (p) /c [(q)] >> /d [(r) [(s)] (t)] >>`: the value of `c` and the
middle element are nested three deep, each where it can be removed alone. -/
def cutTwice : Written :=
  .dict
    [("a", .dict [("b", .scalar (.string "p")), ("c", .array [.scalar (.string "q")])]),
      ("d", .array [.scalar (.string "r"), .array [.scalar (.string "s")],
        .scalar (.string "t")])]

theorem cut_literal_is_paired_anew_twice :
    cutTwice.LosesLastOnly 2
    ∧ (literalScanner.run (.start 2 cutTwice.opening) (.ofTokens cutTwice.inside)).1.datum
      = .dict [("a", .dict [("b", .text "p")]), ("d", .array [.text "r", .text "t"])] := by
  have last : cutTwice.LosesLastOnly 2 := by
    simp [cutTwice, Written.LosesLastOnly, Content.EachLosesLastOnly, Content.LosesLastOnly,
      Content.depth]
  have next : (TokenStream.ofTokens cutTwice.inside).unread = cutTwice.inside ++ [] := by
    rw [List.append_nil]
    rfl
  refine ⟨last, ?_⟩
  rw [(cut_literal_is_paired_anew cutTwice 2 next).2 last]
  simp [cutTwice, Written.cut, Content.cutAll, Content.cut, Element.cutAll, Element.cut, dropped,
    Written.datum, Content.data, Content.datum, Element.data, Element.datum, Scalar.datum, bindings,
    setEntry]

/-- `<< /a [1] /b 2 >>` -/
def keyLeftOver : Written :=
  .dict [("a", .array [.scalar (.number "1")]), ("b", .scalar (.number "2"))]

/-- **A removed value does not take its key with it**: the key is left, and the
next one becomes its value. -/
theorem removed_value_leaves_its_key :
    (literalScanner.run (.start 1 keyLeftOver.opening) (.ofTokens keyLeftOver.inside)).1.datum
      = .dict [("a", .name "b")]
    ∧ (keyLeftOver.cut dropped 1).datum = .dict [("b", .number (numeralValue "2"))]
    ∧ (literalScanner.run (.start 1 keyLeftOver.opening) (.ofTokens keyLeftOver.inside)).1.datum
      ≠ (keyLeftOver.cut dropped 1).datum := by
  have next : (TokenStream.ofTokens keyLeftOver.inside).unread = keyLeftOver.inside ++ [] := by
    rw [List.append_nil]
    rfl
  have scanned : (keyLeftOver.cut pairedAnew 1).datum = .dict [("a", .name "b")] := by
    simp [keyLeftOver, Written.cut, Content.cutAll, Content.cut, pairedAnew, leftOver, pairUp,
      Written.datum, Content.data, Content.datum, Scalar.datum, bindings, setEntry]
  have pruned : (keyLeftOver.cut dropped 1).datum = .dict [("b", .number (numeralValue "2"))] := by
    simp [keyLeftOver, Written.cut, Content.cutAll, Content.cut, dropped,
      Written.datum, Content.data, Content.datum, Scalar.datum, bindings, setEntry]
  rw [(keyLeftOver.run_inside 1 next).1, Nat.max_self, scanned, pruned]
  simp

end VectorPage
