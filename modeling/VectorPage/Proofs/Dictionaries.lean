/-
What a program does to its dictionaries.

A dictionary is a place, and many things may lead to it: operands, names,
entries of other dictionaries or of itself, patterns, fonts, and several
positions of the dictionary stack. So an entry made through one of them is
seen through all others, and what matters is who can make one. `DictMove` says
it once: of all that can happen to a machine only a definition changes a
dictionary that is there, and it changes one entry of the innermost one. All
else leaves the heap alone or adds to it.

That a definition is never lost needs an invariant. The innermost dictionary
is a reference, and it has to lead somewhere (`Known`).
-/
import VectorPage.Proofs.Boundaries
import VectorPage.Proofs.References
import VectorPage.Proofs.Storing

set_option autoImplicit false

namespace VectorPage

namespace Heap

/-! ## Dictionaries of a heap -/

/-- There is a dictionary under a reference. -/
def Stores (heap : Heap) (ref : DictRef) : Prop :=
  ref.index < heap.cells.size

/-- A reference that leads to a dictionary leads to its cell. -/
theorem Stores.cell {heap : Heap} {ref : DictRef} (there : heap.Stores ref) :
    heap.cells[ref.index]? = some (heap.entries ref) := by
  rw [Heap.entries, Array.getD_eq_getD_getElem?, Array.getElem?_eq_getElem there]
  rfl

theorem stores_of_get? {heap : Heap} {ref : DictRef} {key : String} {v : Value}
    (found : heap.get? ref key = some v) : heap.Stores ref := by
  by_contra beyond
  have empty : heap.entries ref = [] := by
    rw [Heap.entries, Array.getD_eq_getD_getElem?,
      Array.getElem?_eq_none (Nat.le_of_not_lt beyond)]
    rfl
  simp [get?, empty] at found

/-- **One entry is set** in one dictionary, and nothing else happens. -/
structure Binds (heap heap' : Heap) (ref : DictRef) (key : String) (value : Value) : Prop where
  size : heap'.cells.size = heap.cells.size
  entry : ∀ k, heap'.get? ref k = if k = key then some value else heap.get? ref k
  others : ∀ other, other ≠ ref → heap'.entries other = heap.entries other

/-- Setting an entry does what `Binds` says, provided that the dictionary exists;
otherwise it would do nothing. -/
theorem binds_set {heap : Heap} {ref : DictRef} (there : heap.Stores ref) (key : String)
    (value : Value) : heap.Binds (heap.set ref key value) ref key value := by
  refine ⟨Array.size_modify, ?_, ?_⟩
  · intro k
    rw [get?, get?, Heap.entries, set, Array.getD_eq_getD_getElem?, Array.getElem?_modify,
      if_pos rfl, there.cell, Option.map_some, Option.getD_some, lookup_setEntry]
  · intro other different
    have index : ref.index ≠ other.index := by
      intro same
      exact different (congrArg DictRef.mk same.symm)
    rw [Heap.entries, Heap.entries, set, Array.getD_eq_getD_getElem?, Array.getElem?_modify,
      if_neg index, Array.getD_eq_getD_getElem?]

/-- A dictionary has the same entries in a heap that has grown. -/
theorem Grows.entries {heap heap' : Heap} (h : heap.Grows heap') {ref : DictRef}
    (there : heap.Stores ref) : heap'.entries ref = heap.entries ref := by
  rw [Heap.entries, Array.getD_eq_getD_getElem?, h _ _ there.cell]
  rfl

theorem Grows.stores {heap heap' : Heap} (h : heap.Grows heap') {ref : DictRef}
    (there : heap.Stores ref) : heap'.Stores ref :=
  (Array.getElem?_eq_some_iff.mp (h _ _ there.cell)).1

theorem Grows.size_le {heap heap' : Heap} (h : heap.Grows heap') :
    heap.cells.size ≤ heap'.cells.size := by
  by_contra shorter
  have there : heap.Stores ⟨heap'.cells.size⟩ := Nat.lt_of_not_le shorter
  exact Nat.lt_irrefl _ (h.stores there)

theorem stores_alloc (heap : Heap) (entries : Entries) :
    (heap.alloc entries).2.Stores (heap.alloc entries).1 := by
  rw [Stores, alloc, Array.size_push]
  exact Nat.lt_succ_self _

end Heap

/-! ## The dictionaries of a literal are new -/

/-- The value mentions a dictionary: it is one, or an array that holds one, or a
pattern made of one. -/
inductive Value.Mentions : Value → DictRef → Prop where
  | dict (ref : DictRef) : (Value.dict ref).Mentions ref
  | pattern (p : Pattern) : (Value.pattern p).Mentions p.dict
  | item {items : List Value} {v : Value} {ref : DictRef} (mem : v ∈ items)
      (within : v.Mentions ref) : (Value.array items).Mentions ref

namespace Heap

/-- The reference is to a dictionary of the heap that was not among the first
`n`. -/
def IsNew (heap : Heap) (n : Nat) (ref : DictRef) : Prop :=
  n ≤ ref.index ∧ heap.Stores ref

/-- Everything mentioned in a dictionary that was not among the first `n` is
such a dictionary again. -/
def ClosedSince (heap : Heap) (n : Nat) : Prop :=
  ∀ i entries, n ≤ i → heap.cells[i]? = some entries →
    ∀ entry ∈ entries, ∀ ref, entry.2.Mentions ref → heap.IsNew n ref

theorem IsNew.grown {heap heap' : Heap} {n : Nat} {ref : DictRef} (h : heap.IsNew n ref)
    (grows : heap.Grows heap') : heap'.IsNew n ref :=
  ⟨h.1, grows.stores h.2⟩

theorem ClosedSince.alloc {heap : Heap} {n : Nat} (h : heap.ClosedSince n) {entries : Entries}
    (new : ∀ entry ∈ entries, ∀ ref, entry.2.Mentions ref → heap.IsNew n ref) :
    (heap.alloc entries).2.ClosedSince n := by
  have grows := Grows.alloc heap entries
  intro i cell above here entry mem ref within
  rw [Heap.alloc, Array.getElem?_push] at here
  split at here
  · cases here
    exact (new entry mem ref within).grown grows
  · exact (h i cell above here entry mem ref within).grown grows

mutual

/-- **A literal mentions new dictionaries only**, and so do its
dictionaries. -/
theorem store_isNew {n : Nat} {heap : Heap} (le : n ≤ heap.cells.size)
    (closed : heap.ClosedSince n) : (d : Datum) →
    (heap.store d).2.ClosedSince n
      ∧ ∀ ref, (heap.store d).1.Mentions ref → (heap.store d).2.IsNew n ref
  | .number _ | .text _ | .name _ | .procedure _ => by
    refine ⟨closed, ?_⟩
    intro ref within
    cases within
  | .array items => by
    obtain ⟨closed', new⟩ := storeItems_isNew le closed [] (by simp) items
    refine ⟨closed', ?_⟩
    rintro ref (_ | _ | ⟨mem, within⟩)
    exact new _ mem ref within
  | .dict entries => by
    obtain ⟨closed', new⟩ := storeEntries_isNew le closed [] (by simp) entries
    refine ⟨closed'.alloc new, ?_⟩
    rintro ref (_ | _ | _)
    -- the dictionary is behind its entries, and so behind the first `n`
    obtain ⟨cell, heap', stored, grows, -⟩ := storeEntries_shows heap [] entries
    have longer : n ≤ (heap.storeEntries [] entries).2.cells.size := by
      rw [stored]
      exact le.trans grows.size_le
    exact ⟨longer, stores_alloc _ _⟩

/-- The items of an array mention new dictionaries only, and so do those done already.
Their number is not known beforehand, so the bound is any earlier size of the heap. -/
theorem storeItems_isNew {n : Nat} {heap : Heap} (le : n ≤ heap.cells.size)
    (closed : heap.ClosedSince n) (done : List Value)
    (old : ∀ v ∈ done, ∀ ref, v.Mentions ref → heap.IsNew n ref) : (items : List Datum) →
    (heap.storeItems done items).2.ClosedSince n
      ∧ ∀ v ∈ (heap.storeItems done items).1, ∀ ref, v.Mentions ref →
          (heap.storeItems done items).2.IsNew n ref
  | [] => ⟨closed, fun v mem => old v (List.mem_reverse.mp mem)⟩
  | item :: rest => by
    obtain ⟨value, heap', stored, grows, -⟩ := store_shows heap item
    have first := store_isNew le closed item
    rw [stored] at first
    have next := storeItems_isNew (le.trans grows.size_le) first.1 (value :: done) (by
      intro v mem ref within
      rcases List.mem_cons.mp mem with rfl | before
      · exact first.2 ref within
      · exact (old v before ref within).grown grows) rest
    simpa only [storeItems, stored] using next

/-- The entries of a dictionary, in the same way; that dictionary itself is allocated
when they are done. -/
theorem storeEntries_isNew {n : Nat} {heap : Heap} (le : n ≤ heap.cells.size)
    (closed : heap.ClosedSince n) (done : Entries)
    (old : ∀ entry ∈ done, ∀ ref, entry.2.Mentions ref → heap.IsNew n ref) :
    (entries : List (String × Datum)) →
    (heap.storeEntries done entries).2.ClosedSince n
      ∧ ∀ entry ∈ (heap.storeEntries done entries).1, ∀ ref, entry.2.Mentions ref →
          (heap.storeEntries done entries).2.IsNew n ref
  | [] => ⟨closed, fun entry mem => old entry (List.mem_reverse.mp mem)⟩
  | (key, item) :: rest => by
    obtain ⟨value, heap', stored, grows, -⟩ := store_shows heap item
    have first := store_isNew le closed item
    rw [stored] at first
    have next := storeEntries_isNew (le.trans grows.size_le) first.1 ((key, value) :: done) (by
      intro entry mem ref within
      rcases List.mem_cons.mp mem with rfl | before
      · exact first.2 ref within
      · exact (old entry before ref within).grown grows) rest
    simpa only [storeEntries, stored] using next

end

/-- A heap has nothing beyond its own dictionaries. -/
theorem closedSince_size (heap : Heap) : heap.ClosedSince heap.cells.size := by
  intro i entries above here
  exact absurd (Array.getElem?_eq_some_iff.mp here).1 (Nat.not_lt.mpr above)

end Heap

/-! ## A dictionary literal is a dictionary -/

/-- Whether a literal writes out a dictionary. -/
def Datum.isDict : Datum → Bool
  | dict _ => true
  | number _ | text _ | name _ | procedure _ | array _ => false

/-- Whether an open literal will be a dictionary. -/
def OpenLiteral.isDict : OpenLiteral → Bool
  | dict .. => true
  | array _ => false

theorem OpenLiteral.isDict_close (kind : OpenLiteral) : kind.close.isDict = kind.isDict := by
  cases kind <;> rfl

theorem OpenLiteral.isDict_add (kind : OpenLiteral) (value : Datum) :
    (kind.add value).isDict = kind.isDict := by
  cases kind with
  | array items => rfl
  | dict entries key => cases key <;> rfl

namespace LiteralScan

/-- Whether the outermost of the open literals will be a dictionary. -/
def willBeDict (scan : LiteralScan) : Bool :=
  (scan.outer.getLastD scan.inner).isDict

/-- What becomes of a scan depends on the kind of its outermost literal, which may be
the innermost one. -/
theorem willBeDict_of_inner {scan : LiteralScan} {inner : OpenLiteral} {room : Nat}
    {mode : LiteralMode} {truncated : Bool} (same : inner.isDict = scan.inner.isDict) :
    willBeDict ⟨inner, scan.outer, room, mode, truncated⟩ = scan.willBeDict := by
  unfold willBeDict
  cases scan.outer with
  | nil => exact same
  | cons parent outer => rfl

/-- A literal opened inside another does not change what the outermost one is; one that
is refused does not either. -/
theorem willBeDict_nest (scan : LiteralScan) (kind : OpenLiteral) :
    (scan.nest kind).willBeDict = scan.willBeDict := by
  unfold nest
  split
  · rfl
  · simp only [willBeDict, List.getLastD_cons]

/-- What a scan that goes on or is done comes to. -/
def endsAsDict {ρ : Type} (literal : ρ → Literal) : Scan LiteralScan ρ → Bool
  | .more scan => scan.willBeDict
  | .done result => (literal result).datum.isDict

/-- Closing the innermost literal gives it to the one around it, or ends the scan with
it. -/
theorem endsAsDict_closeInner (scan : LiteralScan) :
    endsAsDict id scan.closeInner = scan.willBeDict := by
  obtain ⟨inner, outer, room, mode, truncated⟩ := scan
  cases outer with
  | nil => exact inner.isDict_close
  | cons parent outer =>
    simp only [closeInner, endsAsDict, willBeDict, List.getLastD_cons]
    cases outer with
    | nil => exact parent.isDict_add _
    | cons => rfl

theorem endsAsDict_stepSkipping (scan : LiteralScan) (brackets : Nat) (token : Token) :
    (scan.stepSkipping brackets token).willBeDict = scan.willBeDict := by
  cases token with
  | closeBracket | closeDict => cases brackets <;> rfl
  | _ => rfl

/-- **No token changes** what the outermost literal will be. -/
theorem endsAsDict_step (scan : LiteralScan) (token : Token) :
    endsAsDict id (scan.step token) = scan.willBeDict := by
  have added : ∀ value, (scan.add value).willBeDict = scan.willBeDict := fun value =>
    willBeDict_of_inner (scan.inner.isDict_add value)
  unfold step
  cases scan.mode with
  | reading =>
    cases inner : scan.inner with
    | array items =>
      cases token with
      | openBracket => exact willBeDict_nest scan _
      | closeBracket => exact endsAsDict_closeInner scan
      | number | string | hexString | name => exact added _
      | _ => rfl
    | dict entries key =>
      cases token with
      | openBracket | openDict => exact willBeDict_nest scan _
      | closeDict => exact endsAsDict_closeInner scan
      | number | string | hexString => exact added _
      -- a name or a bare word is a key, or the value of the key before it
      | name s =>
        cases key with
        | none => exact willBeDict_of_inner (by rw [inner]; rfl)
        | some _ => exact added _
      | operator s =>
        cases key with
        | none => rfl
        | some _ => exact added _
      | _ => rfl
  | procedure body =>
    dsimp only
    cases body.step token with
    | more body => rfl
    | done tokens => exact added _
  | skipping brackets => exact endsAsDict_stepSkipping scan brackets token
  | skippingProcedure brackets body =>
    dsimp only
    cases body.step token <;> rfl

/-- **The kind of a literal is that of its opening bracket**, however many tokens are
fed to the scan. By induction on the tokens; each step keeps the kind. -/
theorem endsAsDict_feed (scan : LiteralScan) (tokens : List Token) :
    endsAsDict Prod.fst (literalScanner.feed scan tokens) = scan.willBeDict := by
  induction tokens generalizing scan with
  | nil => rfl
  | cons token rest ih =>
    have first : endsAsDict id (literalScanner.step scan token) = scan.willBeDict :=
      endsAsDict_step scan token
    rw [Scanner.feed]
    cases stepped : literalScanner.step scan token with
    | more next =>
      rw [stepped] at first
      exact (ih next).trans first
    | done literal =>
      rw [stepped] at first
      exact first

/-- Literals left open at the end of the input are closed from the inside out, and the
outermost is the result. -/
theorem isDict_closeAll (inner : OpenLiteral) (outer : List OpenLiteral) :
    (closeAll inner outer).isDict = (outer.getLastD inner).isDict := by
  induction outer generalizing inner with
  | nil => exact inner.isDict_close
  | cons parent outer ih =>
    rw [closeAll, ih, List.getLastD_cons]
    cases outer with
    | nil => exact parent.isDict_add _
    | cons => rfl

/-- So a literal without an end has the kind of its opening bracket as well. -/
theorem isDict_finish (scan : LiteralScan) : scan.finish.datum.isDict = scan.willBeDict := by
  unfold finish
  rw [isDict_closeAll]
  split
  · exact willBeDict_of_inner (scan.inner.isDict_add _)
  · rfl

/-- **A literal is a dictionary if it was opened as one.** -/
theorem isDict_run (scan : LiteralScan) (s : TokenStream) :
    (literalScanner.run scan s).1.datum.isDict = scan.willBeDict := by
  have fed := endsAsDict_feed scan s.unread
  rw [(literalScanner.run_flat scan s).1, Scanner.scan]
  cases outcome : literalScanner.feed scan s.unread with
  | more scan' =>
    rw [outcome] at fed
    exact (isDict_finish scan').trans fed
  | done result =>
    rw [outcome] at fed
    exact fed

end LiteralScan

/-- Whether an operator is about something else than dictionaries. -/
def Operator.leavesDicts : Operator → Bool
  | newDict | findFont | scaleFont | beginDict | endDict | define => false
  | _ => true

namespace Machine

/-! ## What a move does to dictionaries -/

/-- The machine has a dictionary at hand: on the operand stack or as an entry of
another one. -/
def HasAtHand (m : Machine) (ref : DictRef) : Prop :=
  .dict ref ∈ m.operands ∨ m.heap.Has (.dict ref)

/-- **What can become of dictionaries in one move**, by the operator that was
executed. The dictionary stack is the list of scopes and the global
dictionary. -/
inductive DictMove (op : Option Operator) (m m' : Machine) : Prop where
  /-- Nothing; a dictionary that comes onto the operand stack was at hand. -/
  | none (heap : m'.heap = m.heap) (scopes : m'.scopes = m.scopes)
      (globals : m'.globals = m.globals)
      (operands : ∀ ref, .dict ref ∈ m'.operands → m.HasAtHand ref)
  /-- A new dictionary on the operand stack. -/
  | new (entries : Entries) (heap : m'.heap = (m.heap.alloc entries).2)
      (scopes : m'.scopes = m.scopes) (globals : m'.globals = m.globals)
      (rest : List Value) (operands : m'.operands = .dict (m.heap.alloc entries).1 :: rest)
      (kept : rest ⊆ m.operands)
      (copied : ∀ key ref, entries.lookup key = some (.dict ref) → m.HasAtHand ref)
  /-- A dictionary written out, or an array. -/
  | literal (datum : Datum) (heap : m'.heap = (m.heap.store datum).2)
      (scopes : m'.scopes = m.scopes) (globals : m'.globals = m.globals)
      (operands : m'.operands = (m.heap.store datum).1 :: m.operands)
  /-- An entry of the innermost dictionary is set. -/
  | bound (define : op = some .define) (value key : Value) (rest : List Value)
      (taken : m.operands = value :: key :: rest)
      (heap : m'.heap = m.heap.set m.innermost key.display value)
      (scopes : m'.scopes = m.scopes) (globals : m'.globals = m.globals)
      (operands : m'.operands = rest)
  /-- A dictionary becomes the innermost one. -/
  | begun (ref : DictRef) (scopes : m'.scopes = ref :: m.scopes)
      (globals : m'.globals = m.globals)
      (heap : m'.heap = m.heap ∧ .dict ref ∈ m.operands
        ∨ m'.heap = (m.heap.alloc []).2 ∧ ref = (m.heap.alloc []).1)
      (operands : m'.operands = m.operands.tail)
  /-- The innermost dictionary is left. -/
  | ended (scopes : m'.scopes = m.scopes.tail) (globals : m'.globals = m.globals)
      (heap : m'.heap = m.heap) (operands : m'.operands = m.operands)

section Operators

variable (m : Machine) (s : TokenStream)

/-- A dictionary is made, and left on the operand stack. -/
theorem newDict_dicts : DictMove (some .newDict) m m.newDict := by
  simp only [newDict, pushDict, push, pop_eq]
  exact .new [] rfl rfl rfl _ rfl (List.tail_suffix m.operands).subset (by simp)

/-- The one entry of a font without a size is no dictionary. -/
theorem lookup_fontName {name key : String} {ref : DictRef} :
    [(fontNameKey, Value.text name)].lookup key ≠ some (.dict ref) := by
  rw [List.lookup_cons]
  split <;> simp

theorem findFont_dicts : DictMove (some .findFont) m m.findFont := by
  simp only [findFont, pushDict, push, popDisplay_eq]
  exact .new _ rfl rfl rfl _ rfl (List.tail_suffix m.operands).subset
    fun _ _ found => absurd found lookup_fontName

/-- A font in another size is a new dictionary too: the font it was made of stays as it
is. -/
theorem scaleFont_dicts : DictMove (some .scaleFont) m m.scaleFont := by
  simp only [scaleFont, pushDict, push, pop_eq, popNumber_eq]
  refine .new _ rfl rfl rfl _ rfl
    ((List.tail_suffix _).trans (List.tail_suffix m.operands)).subset ?_
  -- the new font is a copy of the old one, with a number for its size
  intro key ref found
  rw [lookup_setEntry] at found
  split at found
  · cases found
  · split at found
    · exact .inr ⟨_, key, found⟩
    · exact absurd found lookup_fontName

/-- A dictionary that is at hand becomes a scope, or a new one does. -/
theorem beginDict_dicts : DictMove (some .beginDict) m m.beginDict := by
  rw [beginDict_eq]
  rcases top : m.operands.head? with _ | v
  · exact .begun _ rfl rfl (.inr ⟨rfl, rfl⟩) rfl
  · cases v with
    | dict ref => exact .begun ref rfl rfl (.inl ⟨rfl, List.mem_of_mem_head? top⟩) rfl
    | _ => exact .begun _ rfl rfl (.inr ⟨rfl, rfl⟩) rfl

/-- A binding sets one entry of the innermost dictionary, or nothing if an operand is
missing. -/
theorem bindName_dicts : DictMove (some .define) m m.bindName := by
  rw [bindName_eq]
  rcases taken : m.operands with _ | ⟨value, _ | ⟨key, rest⟩⟩
  · exact .none rfl rfl rfl (by simp)
  · exact .none rfl rfl rfl (by simp)
  · exact .bound rfl value key rest taken rfl rfl rfl rfl

/-- **An operator that is not about dictionaries** touches none, and puts none
onto the operand stack that was not there. -/
theorem operate_leavesDicts (nested : m.ClipsNested) {op : Operator}
    (leaves : op.leavesDicts = true) : DictMove (some op) m (m.operate s op) := by
  cases op with
  | newDict | findFont | scaleFont | beginDict | endDict | define => cases leaves
  | restoreGraphics =>
    rcases saved : m.saved with _ | ⟨g, rest⟩
    · simp only [operate, restoreGraphics, saved]
      exact .none rfl rfl rfl fun _ => .inl
    · rw [operate, restoreGraphics_of_le saved (nested.length_le saved)]
      exact .none rfl rfl rfl fun _ => .inl
  | clip =>
    simp only [operate, clip_eq]
    split <;> exact .none rfl rfl rfl fun _ => .inl
  | lineTo =>
    have taken : m.operands.tail.tail ⊆ m.operands :=
      ((List.tail_suffix _).trans (List.tail_suffix _)).subset
    simp only [operate, lineTo_eq, paintPath_eq]
    split <;> exact .none rfl rfl rfl fun _ mem => .inl (taken mem)
  | exchange =>
    simp only [operate, exchange_eq]
    refine .none rfl rfl rfl fun ref mem => .inl ?_
    dsimp only at mem
    split at mem
    · rename_i u v rest operands
      rw [operands]
      exact (List.Perm.swap u v rest).subset mem
    · exact mem
  | duplicate =>
    simp only [operate, duplicate_eq]
    refine .none rfl rfl rfl fun ref mem => .inl ?_
    rcases List.mem_append.mp mem with top | old
    · exact List.mem_of_mem_head? (Option.mem_toList.mp top)
    · exact old
  | _ =>
    simp only [operate, negate, combine, saveGraphics, translate, scale, rotate, retransform,
      setLineWidth, setLineCap_eq, setLineJoin_eq, setDash, setRgbColor, setGray, setCmykColor,
      setPattern_eq, restyle, moveTo, moveBy, lineBy, curveTo, curveBy, closePath_eq, arc, build,
      reach, startText, paintPath_eq, dropPath, place, shadingFill_eq, showImage, remark, draw,
      setFont_eq, showText_eq, push, pop_eq, popNumber_eq, popPoint_eq, ← List.drop_one,
      List.drop_drop]
    refine .none rfl rfl rfl fun ref mem => .inl ?_
    -- what is left is an end of the operands, with a number on it at most
    grind [List.mem_of_mem_drop]

/-- **What an operator does to dictionaries** is one of the things listed in `DictMove`,
and the operator tells which. Those that are about something else leave them alone. -/
theorem operate_dicts (nested : m.ClipsNested) (op : Operator) :
    DictMove (some op) m (m.operate s op) := by
  by_cases leaves : op.leavesDicts = true
  · exact operate_leavesDicts m s nested leaves
  cases op with
  | newDict => exact newDict_dicts m
  | findFont => exact findFont_dicts m
  | scaleFont => exact scaleFont_dicts m
  | beginDict => exact beginDict_dicts m
  | endDict => exact .ended rfl rfl rfl rfl
  | define => exact bindName_dicts m
  | _ => exact absurd rfl leaves

end Operators

section Moves

variable {limits : Limits} {level : Nat} {m m' : Machine}

/-- Other tokens make a dictionary only by a literal, and touch no dictionary that
exists. -/
theorem Aside.dicts (h : Aside limits m m') : DictMove none m m' := by
  have pushed_dicts : ∀ v : Value, m' = m.push v → (∀ ref, v = .dict ref → m.HasAtHand ref) →
      DictMove none m m' := by
    rintro v rfl atHand
    refine .none rfl rfl rfl fun ref mem => ?_
    rcases List.mem_cons.mp mem with top | old
    · exact atHand ref top.symm
    · exact .inl old
  cases h with
  | nothing same =>
    subst same
    exact .none rfl rfl rfl fun _ => .inl
  | operand v scalar pushed =>
    exact pushed_dicts v pushed fun ref dict => by simp [dict, Value.isScalar] at scalar
  -- the value of a bound name is an entry, so a dictionary in it was at hand
  | bound name v found pushed =>
    exact pushed_dicts v pushed fun ref dict => .inr (dict ▸ has_of_lookup found)
  | literal kind s pushed =>
    subst pushed
    simp only [pushLiteral]
    split <;> exact .literal _ rfl rfl rfl rfl
  | unknown message remarked =>
    subst remarked
    exact .none rfl rfl rfl fun _ => .inl
  | refused message hit remarked =>
    subst remarked
    exact .none rfl rfl rfl fun _ => .inl

/-- A pattern refers to the dictionary it is made of, and leaves it as it is. Its paint
procedure works on a heap of its own. -/
theorem makePattern_dicts {fuel : Nat}
    (made : m.makePattern limits level (paintWith limits fuel level) = some m') :
    DictMove (some .makePattern) m m' := by
  obtain ⟨ref, tile, hits, -, -, rfl⟩ | rfl := makePattern_cases made
  · refine .none rfl rfl rfl fun ref mem => .inl ?_
    rcases List.mem_cons.mp mem with top | old
    · cases top
    · exact List.mem_of_mem_tail old
  · exact .none rfl rfl rfl fun ref mem => .inl (List.mem_of_mem_tail mem)

/-- **What one token does to dictionaries.** -/
theorem Step.dicts {s s' : TokenStream} (nested : m.ClipsNested)
    (step : Step limits level (s, m) (s', m')) :
    DictMove (operatorAt? (s, m)) m.counted m' := by
  have nested' : m.counted.ClipsNested := nested.of_same ⟨rfl, rfl⟩
  cases step.effect with
  | operate op rest stands result =>
    dsimp only at result
    rw [stands, result]
    exact operate_dicts _ rest nested' op
  | makePattern fuel stands made =>
    rw [stands]
    exact makePattern_dicts made
  | aside stands result =>
    rw [stands]
    exact result.dicts

/-- Every move is such a move, for the operator that it executes or for none. -/
theorem Move.dicts (nested : m.ClipsNested) (move : Move limits level m m') :
    ∃ op, DictMove op m.counted m' := by
  cases move with
  | step step => exact ⟨_, step.dicts nested⟩
  | stop => exact ⟨none, .none rfl rfl rfl fun _ => .inl⟩
  | finish =>
    refine ⟨none, ?_⟩
    rw [Machine.finish, paintPath_eq]
    exact .none rfl rfl rfl fun _ => .inl

/-! ## References lead to dictionaries -/

/-- **The references of a machine are known**: those at hand, and those of the
dictionary stack, lead to a dictionary. -/
structure Known (m : Machine) : Prop where
  atHand : ∀ ref, m.HasAtHand ref → m.heap.Stores ref
  scopes : ∀ ref ∈ m.scopes, m.heap.Stores ref
  globals : m.heap.Stores m.globals

/-- So names are bound in a dictionary that exists. -/
theorem Known.innermost (h : m.Known) : m.heap.Stores m.innermost := by
  unfold Machine.innermost
  rcases scopes : m.scopes with _ | ⟨ref, outer⟩
  · exact h.globals
  · exact h.scopes ref (scopes ▸ List.mem_cons_self)

/-- **The heap grows**, or a definition sets an entry of the innermost
dictionary. -/
theorem DictMove.heap_cases {op : Option Operator} (h : DictMove op m m') :
    m.heap.Grows m'.heap
    ∨ op = some .define ∧ ∃ value key rest, m.operands = value :: key :: rest
        ∧ m'.heap = m.heap.set m.innermost key.display value := by
  cases h with
  | none heap => exact .inl (heap ▸ .refl _)
  | new entries heap => exact .inl (heap ▸ .alloc _ entries)
  | literal datum heap =>
    obtain ⟨value, heap', stored, grows, -⟩ := m.heap.store_shows datum
    rw [heap, stored]
    exact .inl grows
  | bound define value key rest taken heap => exact .inr ⟨define, value, key, rest, taken, heap⟩
  | begun ref _ _ heap =>
    rcases heap with ⟨same, -⟩ | ⟨new, -⟩
    · exact .inl (same ▸ .refl _)
    · exact .inl (new ▸ .alloc _ [])
  | ended _ _ heap => exact .inl (heap ▸ .refl _)

/-- No dictionary goes away. -/
theorem DictMove.stores {op : Option Operator} (h : DictMove op m m') {ref : DictRef}
    (there : m.heap.Stores ref) : m'.heap.Stores ref := by
  rcases h.heap_cases with grows | ⟨-, value, key, rest, -, heap⟩
  · exact grows.stores there
  · rw [heap, Heap.Stores, Heap.set, Array.size_modify]
    exact there

/-- **A dictionary at hand after a move** was at hand before, or there is one
under its reference now. -/
theorem DictMove.atHand {op : Option Operator} (h : DictMove op m m') {ref : DictRef}
    (atHand : m'.HasAtHand ref) : m.HasAtHand ref ∨ m'.heap.Stores ref := by
  cases h with
  | none heap _ _ operands =>
    rcases atHand with operand | entry
    · exact .inl (operands ref operand)
    · exact .inl (.inr (heap ▸ entry))
  | new entries heap _ _ rest operands kept copied =>
    rw [HasAtHand, heap, operands] at atHand
    rw [heap]
    rcases atHand with operand | entry
    · rcases List.mem_cons.mp operand with top | old
      · cases top
        exact .inr (Heap.stores_alloc _ _)
      · exact .inl (.inl (kept old))
    · rcases entry.of_alloc with old | ⟨key, found⟩
      · exact .inl (.inr old)
      · exact .inl (copied key ref found)
  | literal datum heap _ _ operands =>
    obtain ⟨closed, new⟩ :=
      m.heap.store_isNew (Nat.le_refl _) (Heap.closedSince_size _) datum
    obtain ⟨value, heap', stored, grows, -⟩ := m.heap.store_shows datum
    rw [stored] at closed new
    rw [HasAtHand, heap, operands, stored] at atHand
    rw [heap, stored]
    rcases atHand with operand | ⟨holder, key, found⟩
    · rcases List.mem_cons.mp operand with top | old
      · exact .inr (new ref (top ▸ .dict ref)).2
      · exact .inl (.inl old)
    -- the entry is one of an old dictionary, or of one that the literal has made
    · by_cases old : m.heap.Stores holder
      · rw [Heap.get?, grows.entries old] at found
        exact .inl (.inr ⟨holder, key, found⟩)
      · obtain ⟨before, after, entries, -⟩ := List.lookup_eq_some_iff.mp found
        exact .inr (closed _ _ (Nat.le_of_not_lt old) (Heap.stores_of_get? found).cell
          (key, .dict ref) (by simp [entries]) ref (.dict ref)).2
  | bound _ value key rest taken heap _ _ operands =>
    rw [HasAtHand, heap, operands] at atHand
    rcases atHand with operand | entry
    · exact .inl (.inl (by simp [taken, operand]))
    · rcases entry.of_set with old | rfl
      · exact .inl (.inr old)
      · exact .inl (.inl (by simp [taken]))
  | begun _ _ _ heap operands =>
    rw [HasAtHand, operands] at atHand
    rcases atHand with operand | entry
    · exact .inl (.inl (List.mem_of_mem_tail operand))
    · rcases heap with ⟨same, -⟩ | ⟨new, -⟩
      · exact .inl (.inr (same ▸ entry))
      · rcases (new ▸ entry).of_alloc with old | ⟨key, found⟩
        · exact .inl (.inr old)
        · cases found
  | ended _ _ heap operands =>
    rw [HasAtHand, heap, operands] at atHand
    exact .inl atHand

/-- A dictionary on the stack after a move was there or at hand before, or is
there under its reference now. -/
theorem DictMove.scopes_cases {op : Option Operator} (h : DictMove op m m') {ref : DictRef}
    (mem : ref ∈ m'.scopes) : ref ∈ m.scopes ∨ m.HasAtHand ref ∨ m'.heap.Stores ref := by
  cases h with
  | none _ scopes => exact .inl (scopes ▸ mem)
  | new _ _ scopes => exact .inl (scopes ▸ mem)
  | literal _ _ scopes => exact .inl (scopes ▸ mem)
  | bound _ _ _ _ _ _ scopes => exact .inl (scopes ▸ mem)
  | begun opened scopes _ heap =>
    rw [scopes] at mem
    rcases List.mem_cons.mp mem with rfl | old
    · rcases heap with ⟨-, operand⟩ | ⟨heap, rfl⟩
      · exact .inr (.inl (.inl operand))
      · exact .inr (.inr (heap ▸ Heap.stores_alloc _ _))
    · exact .inl old
  | ended scopes => exact .inl (List.mem_of_mem_tail (scopes ▸ mem))

theorem DictMove.globals_eq {op : Option Operator} (h : DictMove op m m') :
    m'.globals = m.globals := by
  cases h <;> assumption

/-- A move keeps references known, since new ones are to new dictionaries, and old ones
go on leading where they led. -/
theorem Known.of_dicts {op : Option Operator} (h : m.Known) (move : DictMove op m m') :
    m'.Known := by
  refine ⟨?_, ?_, ?_⟩
  · intro ref atHand
    rcases move.atHand atHand with old | there
    · exact move.stores (h.atHand ref old)
    · exact there
  · intro ref mem
    rcases move.scopes_cases mem with old | atHand | there
    · exact move.stores (h.scopes ref old)
    · exact move.stores (h.atHand ref atHand)
    · exact there
  · rw [move.globals_eq]
    exact move.stores h.globals

/-- **Every reference leads to a dictionary**, at every moment of a life. -/
theorem Known.of_moves (moves : Moves limits level initial m) : m.Known := by
  induction moves with
  | refl =>
    refine ⟨?_, by simp [initial], Nat.zero_lt_one⟩
    rintro ref (operand | ⟨⟨i⟩, key, entry⟩)
    · cases operand
    · cases i <;> cases entry
  | @tail m m' moves move ih =>
    obtain ⟨op, dicts⟩ := move.dicts (Identified.of_moves moves).2
    have counted : m.counted.Known := ⟨ih.atHand, ih.scopes, ih.globals⟩
    exact counted.of_dicts dicts

/-! ## New dictionaries -/

/-- **The next token makes a dictionary**: it opens a dictionary literal, or it
is executed as one of the operators that make one. -/
def makesDict (c : TokenStream × Machine) : Bool :=
  c.1.next.1 == some .openDict
    || operatorAt? c == some .newDict || operatorAt? c == some .findFont
    || operatorAt? c == some .scaleFont

/-- What the literal of an opening bracket leaves. -/
theorem Step.eq_pushLiteral {s s' : TokenStream} (step : Step limits level (s, m) (s', m'))
    (opens : s.next.1 = some .openDict) :
    ∃ rest, m' = (m.counted.pushLiteral limits (.dict [] none) rest).2 := by
  obtain ⟨token, rest, fuel, next, -, stepped⟩ := step
  dsimp only at next
  rw [next] at opens
  cases opens
  exact ⟨rest, (congrArg Prod.snd (Option.some.inj stepped)).symm⟩

/-- A literal is stored, and its value is left on the operand stack. The kind is that of
its opening bracket. -/
theorem pushLiteral_stored (m : Machine) (limits : Limits) (kind : OpenLiteral)
    (s : TokenStream) :
    ∃ datum : Datum, datum.isDict = kind.isDict
      ∧ (m.pushLiteral limits kind s).2.heap = (m.heap.store datum).2
      ∧ (m.pushLiteral limits kind s).2.operands = (m.heap.store datum).1 :: m.operands := by
  refine ⟨_, LiteralScan.isDict_run (.start limits.literals kind) s, ?_⟩
  simp only [pushLiteral]
  split <;> exact ⟨rfl, rfl⟩

/-- **A dictionary literal yields a new dictionary**, and all that is mentioned
in new dictionaries is new. -/
theorem Step.literal_isNew {s s' : TokenStream} (step : Step limits level (s, m) (s', m'))
    (opens : s.next.1 = some .openDict) :
    m'.heap.ClosedSince m.heap.cells.size
    ∧ ∃ ref, m'.operands.head? = some (.dict ref) ∧ m'.heap.IsNew m.heap.cells.size ref := by
  obtain ⟨rest, rfl⟩ := step.eq_pushLiteral opens
  obtain ⟨datum, isDict, heap, operands⟩ :=
    pushLiteral_stored m.counted limits (.dict [] none) rest
  obtain ⟨closed, new⟩ := m.heap.store_isNew (Nat.le_refl _) (Heap.closedSince_size _) datum
  rw [heap, operands]
  refine ⟨closed, ?_⟩
  cases datum with
  | dict entries => exact ⟨_, rfl, new _ (.dict _)⟩
  | _ => cases isDict

/-- A dictionary made now is not among those that were there. -/
theorem isNew_alloc (heap : Heap) (entries : Entries) :
    (heap.alloc entries).2.IsNew heap.cells.size (heap.alloc entries).1 :=
  ⟨Nat.le_refl _, Heap.stores_alloc _ _⟩

/-- **What makes a dictionary makes a new one.** -/
theorem Step.makes_isNew {s s' : TokenStream} (step : Step limits level (s, m) (s', m'))
    (makes : makesDict (s, m) = true) :
    ∃ ref, m'.operands.head? = some (.dict ref) ∧ m'.heap.IsNew m.heap.cells.size ref := by
  -- the three operators allocate, and leave the reference on top
  have operator : ∀ op, op = .newDict ∨ op = .findFont ∨ op = .scaleFont →
      operatorAt? (s, m) = some op →
      ∃ ref, m'.operands.head? = some (.dict ref) ∧ m'.heap.IsNew m.heap.cells.size ref := by
    intro op one stands
    have other : op ≠ .makePattern := by
      rintro rfl
      simp at one
    have executes : Executes limits level op m m' := ⟨s, s', stands, step⟩
    obtain ⟨rest, rfl⟩ := executes.eq_operate other
    rcases one with rfl | rfl | rfl
    · simp only [operate, newDict, pushDict, push, pop_eq]
      exact ⟨_, rfl, isNew_alloc _ _⟩
    · simp only [operate, findFont, pushDict, push, popDisplay_eq]
      exact ⟨_, rfl, isNew_alloc _ _⟩
    · simp only [operate, scaleFont, pushDict, push, pop_eq, popNumber_eq]
      exact ⟨_, rfl, isNew_alloc _ _⟩
  simp only [makesDict, Bool.or_eq_true, beq_iff_eq] at makes
  rcases makes with ((literal | new) | find) | scale
  · exact (step.literal_isNew literal).2
  · exact operator .newDict (.inl rfl) new
  · exact operator .findFont (.inr (.inl rfl)) find
  · exact operator .scaleFont (.inr (.inr rfl)) scale

/-! ## The dictionary stack -/

/-- **The dictionary stack**, the global dictionary first and the innermost one
last. -/
def dictStack (m : Machine) : List DictRef :=
  m.globals :: m.scopes.reverse

theorem dictStack_length (m : Machine) : m.dictStack.length = m.scopes.length + 1 := by
  rw [dictStack, List.length_cons, List.length_reverse]

/-- Moves during which the dictionary stack never gets lower than a given
height. -/
def MovesWithin (limits : Limits) (level height : Nat) : Machine → Machine → Prop :=
  Relation.ReflTransGen fun m m' => Move limits level m m' ∧ height ≤ m'.dictStack.length

theorem MovesWithin.moves {height : Nat} (h : MovesWithin limits level height m m') :
    Moves limits level m m' :=
  h.lift id fun _ _ last => last.1

/-- **A move keeps the bottom of the stack**, if it leaves the stack at least
that high. -/
theorem DictMove.keeps_bottom {op : Option Operator} (h : DictMove op m m')
    {bottom : List DictRef} (below : bottom <:+ m.scopes)
    (high : bottom.length ≤ m'.scopes.length) : bottom <:+ m'.scopes := by
  cases h with
  | none _ scopes => exact scopes ▸ below
  | new _ _ scopes => exact scopes ▸ below
  | literal _ _ scopes => exact scopes ▸ below
  | bound _ _ _ _ _ _ scopes => exact scopes ▸ below
  | begun _ scopes =>
    rw [scopes]
    exact below.trans (List.suffix_cons _ _)
  | ended scopes =>
    rw [scopes] at high ⊢
    exact suffix_tail_of_length_le below high

theorem Moves.globals_eq (reached : Moves limits level initial m)
    (moves : Moves limits level m m') : m'.globals = m.globals := by
  induction moves with
  | refl => rfl
  | tail before last ih =>
    obtain ⟨op, dicts⟩ := last.dicts (Identified.of_moves (reached.trans before)).2
    exact dicts.globals_eq.trans ih

/-- **Below a height that the stack never falls under, the same dictionaries stay.**
By induction on the moves: each keeps the bottom if it leaves the stack at least that
high. -/
theorem MovesWithin.keeps_bottom {bottom : List DictRef}
    (reached : Moves limits level initial m)
    (moves : MovesWithin limits level (bottom.length + 1) m m') (below : bottom <:+ m.scopes) :
    bottom <:+ m'.scopes := by
  induction moves with
  | refl => exact below
  | tail before last ih =>
    have before' : Moves limits level m _ := MovesWithin.moves before
    obtain ⟨op, dicts⟩ := last.1.dicts (Identified.of_moves (reached.trans before')).2
    have high := last.2
    rw [dictStack_length] at high
    exact dicts.keeps_bottom ih (Nat.le_of_succ_le_succ high)

/-- **A bracket of begin and end restores the dictionary stack**, if the stack
gets lower than the begin left it with that end and not before. -/
theorem dictStack_of_bracket {begun inner ended : Machine}
    (reached : Moves limits level initial m) (begins : Executes limits level .beginDict m begun)
    (inside : MovesWithin limits level begun.dictStack.length begun inner)
    (ends : Executes limits level .endDict inner ended)
    (lower : ended.dictStack.length < begun.dictStack.length) :
    ended.dictStack = m.dictStack := by
  obtain ⟨rest, hbegun⟩ := begins.eq_operate (by decide)
  obtain ⟨rest', hended⟩ := ends.eq_operate (by decide)
  have reached' : Moves limits level initial begun := reached.tail begins.move
  obtain ⟨ref, pushed⟩ : ∃ ref, begun.scopes = ref :: m.scopes := by
    rw [hbegun, operate, beginDict_eq]
    exact ⟨_, rfl⟩
  have popped : ended.scopes = inner.scopes.tail := by
    rw [hended]
    rfl
  -- the stack is back at its height, so its bottom is all of it
  have bottom : begun.scopes <:+ inner.scopes := by
    rw [dictStack_length] at inside
    exact inside.keeps_bottom reached' List.suffix_rfl
  have height : begun.scopes.length = inner.scopes.length := by
    have high := bottom.length_le
    rw [dictStack_length, dictStack_length, popped, List.length_tail] at lower
    omega
  have stack : ended.scopes = m.scopes := by
    rw [popped, ← bottom.eq_of_length height, pushed, List.tail_cons]
  have globals : ended.globals = m.globals := by
    have begun_inner : Moves limits level begun inner := inside.moves
    exact Moves.globals_eq reached (.head begins.move (begun_inner.tail ends.move))
  rw [dictStack, dictStack, stack, globals]

/-- **Dictionaries keep their contents.** On every reachable machine:

* A definition with two operands sets one entry of the innermost dictionary,
  under the text of the key, and touches nothing else. Every other token leaves
  every dictionary that is there as it is.
* A dictionary literal, and each of the operators that make a dictionary, yields
  a dictionary that was not there before, and so are those inside the literal.
* Whatever happens from then on, the stack begins with the dictionary that was
  the global one of the fresh machine.
* A begin and an end restore the dictionary stack, if it gets lower than the
  begin left it with that end and not before. -/
theorem dictionaries_keep_contents {limits : Limits} {level : Nat} {m : Machine}
    (reachable : Reachable limits level m) :
    (∀ s s' m', Step limits level (s, m) (s', m') →
      (∀ value key rest, operatorAt? (s, m) = some .define →
        m.operands = value :: key :: rest →
          m.heap.Stores m.innermost
          ∧ m.heap.Binds m'.heap m.innermost key.display value)
      ∧ (operatorAt? (s, m) ≠ some .define ∨ m.operands.length < 2 →
          ∀ ref, m.heap.Stores ref →
            m'.heap.Stores ref ∧ m'.heap.entries ref = m.heap.entries ref)
      ∧ (makesDict (s, m) = true →
          ∃ ref, m'.operands.head? = some (.dict ref) ∧ ¬ m.heap.Stores ref
            ∧ m'.heap.Stores ref)
      ∧ (s.next.1 = some .openDict → m'.heap.ClosedSince m.heap.cells.size))
    ∧ (∀ m', Moves limits level m m' → m'.dictStack[0]? = some initial.globals)
    ∧ ∀ begun inner ended, Executes limits level .beginDict m begun →
        MovesWithin limits level begun.dictStack.length begun inner →
        Executes limits level .endDict inner ended →
        ended.dictStack.length < begun.dictStack.length → ended.dictStack = m.dictStack := by
  have reached := reachable.moves
  refine ⟨?_, ?_, ?_⟩
  · intro s s' m' step
    have dicts := step.dicts (Identified.of_moves reached).2
    refine ⟨?_, ?_, ?_, fun opens => (step.literal_isNew opens).1⟩
    · intro value key rest stands taken
      have known : m.heap.Stores m.innermost := (Known.of_moves reached).innermost
      have executes : Executes limits level .define m m' := ⟨s, s', stands, step⟩
      obtain ⟨rest', rfl⟩ := executes.eq_operate (by decide)
      refine ⟨known, ?_⟩
      rw [operate, bindName_eq, counted_operands, taken]
      exact Heap.binds_set known key.display value
    · intro other ref there
      -- dictionaries only grow in number, unless one entry is set; and that takes two operands
      rcases dicts.heap_cases with grows | ⟨define, value, key, rest, taken, -⟩
      · exact ⟨grows.stores there, grows.entries there⟩
      · rw [counted_operands] at taken
        rcases other with undefined | few
        · exact absurd define undefined
        · rw [taken, List.length_cons, List.length_cons] at few
          omega
    · intro makes
      -- the new reference is not below the number of cells, so nothing was there
      obtain ⟨ref, top, above, there⟩ := step.makes_isNew makes
      exact ⟨ref, top, Nat.not_lt.mpr above, there⟩
  · intro m' moves
    have globals : m'.globals = initial.globals := Moves.globals_eq .refl (reached.trans moves)
    rw [dictStack, List.getElem?_cons_zero, globals]
  · intro begun inner ended begins inside ends lower
    exact dictStack_of_bracket reached begins inside ends lower

/-- A dictionary that is bound to a name, is the innermost one and holds itself
gets one more entry. And of two dictionaries begun one inside the other on the
fresh machine none is left on the stack. -/
theorem dictionaries_keep_contents_self :
    (∃ m m' : Machine, Reachable {} 0 m ∧ Executes {} 0 .define m m'
      ∧ (m.heap.entries ⟨1⟩).map (fun entry => (entry.1, entry.2.display))
          = [("self", "--nostringval--")]
      ∧ m.heap.Stores ⟨1⟩ ∧ ∃ value, m.heap.Binds m'.heap ⟨1⟩ "x" value)
    ∧ ∃ begun inner ended : Machine, Executes {} 0 .beginDict initial begun
      ∧ MovesWithin {} 0 begun.dictStack.length begun inner
      ∧ Executes {} 0 .endDict inner ended
      ∧ begun.dictStack = [⟨0⟩, ⟨1⟩] ∧ inner.heap.cells.size = 3
      ∧ ended.dictStack = initial.dictStack := by
  constructor
  · have advanced : (advance {} 0 11 (.ofTokens [.name "d", .number "1", .operator "dict",
        .operator "def", .operator "d", .operator "begin", .name "self", .operator "d",
        .operator "def", .name "x", .number "7"], initial)).map (fun c =>
          ((c.2.lookup "def").isSome, c.2.operands.map Value.display, c.2.innermost,
            (c.2.heap.entries ⟨1⟩).map fun entry => (entry.1, entry.2.display)))
        = some (false, ["7", "x"], ⟨1⟩, [("self", "--nostringval--")]) := by decide +kernel
    obtain ⟨⟨s, m⟩, advanced, facts⟩ := Option.map_eq_some_iff.mp advanced
    obtain ⟨unbound, facts⟩ := Prod.mk.inj facts
    obtain ⟨operands, facts⟩ := Prod.mk.inj facts
    obtain ⟨innermost, entries⟩ := Prod.mk.inj facts
    have reachable : Reachable {} 0 m := ⟨_, _, s, .fresh, .of_advance advanced⟩
    have executes : Executes {} 0 .define m _ :=
      .of_name "def" rfl (by simpa using unbound) rfl (by decide)
    obtain ⟨value, key, taken, -, named⟩ : ∃ value key : Value,
        m.operands = [value, key] ∧ value.display = "7" ∧ key.display = "x" := by
      simpa [List.map_eq_cons_iff] using operands
    obtain ⟨s₀, s₁, stands, step⟩ := id executes
    obtain ⟨bound, -⟩ := (dictionaries_keep_contents reachable).1 _ _ _ step
    obtain ⟨there, binds⟩ := bound value key [] stands taken
    rw [innermost, named] at binds
    rw [innermost] at there
    exact ⟨m, _, reachable, executes, entries, there, value, binds⟩
  · have begins : Executes {} 0 .beginDict initial _ := .of_name "begin" rfl rfl rfl (by decide)
    have again : Executes {} 0 .beginDict (initial.counted.operate (.ofTokens []) .beginDict) _ :=
      .of_name "begin" rfl rfl rfl (by decide)
    have leaves : Executes {} 0 .endDict
        ((initial.counted.operate (.ofTokens []) .beginDict).counted.operate (.ofTokens [])
          .beginDict) _ :=
      .of_name "end" rfl rfl rfl (by decide)
    have inside : MovesWithin {} 0 2 (initial.counted.operate (.ofTokens []) .beginDict) _ :=
      .head ⟨again.move, by decide⟩ (.head ⟨leaves.move, by decide⟩ .refl)
    have ends : Executes {} 0 .endDict
        (((initial.counted.operate (.ofTokens []) .beginDict).counted.operate (.ofTokens [])
          .beginDict).counted.operate (.ofTokens []) .endDict) _ :=
      .of_name "end" rfl rfl rfl (by decide)
    have fresh : Reachable {} 0 initial := ⟨_, [], _, .fresh, .refl⟩
    exact ⟨_, _, _, begins, inside, ends, rfl, rfl,
      (dictionaries_keep_contents fresh).2.2 _ _ _ begins inside ends (by decide)⟩

end Moves

end Machine

end VectorPage
