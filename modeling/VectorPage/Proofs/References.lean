/-
What paths and texts are filled with is defined.

A fill refers to a gradient or a pattern by its id. The reference to a
gradient is made and used in one move, together with its definition. The
reference to a pattern is a value: it lies on the operand stack, is bound to
names, becomes the paint of a graphics state, is saved with it, and may reach
the page long after it was made. `Holds` lists these places. No operator makes
a reference up (`operate_holds`): whatever a machine holds comes from a shading
or from the making of a pattern, and both define what they refer to, except for
a pattern made of a dictionary without a paint procedure.

The tile of a pattern is painted on a machine of its own, with ids and
definitions of its own. The references inside it are that machine's, and are
defined there.
-/
import VectorPage.Proofs.Identifiers

set_option autoImplicit false

namespace VectorPage

/-! ## References -/

/-- The id that a paint refers to. -/
def Paint.resource? : Paint → Option String
  | resource id => some id
  | keyword _ | color _ => none

/-- What the areas of a path are filled with. -/
def fillPaint (look : GraphicsState) (mode : PaintMode) (ref : Option String) : Paint :=
  match ref with
  | some id => .resource id
  | none => if mode.fill then look.areaPaint else .keyword "none"

/-- It is what the path element says. -/
theorem fill_attribute (data : PathData) (look : GraphicsState) (mode : PaintMode)
    (ref : Option String) :
    (pathAttributes data look mode ref)[1]?
      = some (attr "fill" (fillPaint look mode ref).text) := by
  cases ref with
  | some id => rfl
  | none =>
    simp only [pathAttributes, fillPaint, List.getElem?_cons_succ, List.getElem?_cons_zero]
    split <;> rfl

/-- The id that the fill of a shape refers to. -/
def Shape.fillReference? : Shape → Option String
  | path _ look mode ref => (fillPaint look mode ref).resource?
  | comment _ | placeholder => none

/-- The shapes that a definition repeats. -/
def Definition.tile : Definition → List Shape
  | pattern _ _ _ _ _ tile => tile
  | clipPath .. | linearGradient .. | radialGradient .. => []

/-- Whether a definition is something to fill areas with. -/
def Definition.isPaint : Definition → Bool
  | linearGradient .. | radialGradient .. | pattern .. => true
  | clipPath .. => false

theorem Definition.isPaint_of_isGradient {d : Definition} (h : d.isGradient = true) :
    d.isPaint = true :=
  gradient_cases h (fun _ _ _ _ _ _ _ => rfl) fun _ _ _ => rfl

theorem Definition.tile_of_isGradient {d : Definition} (h : d.isGradient = true) :
    d.tile = [] :=
  gradient_cases h (fun _ _ _ _ _ _ _ => rfl) fun _ _ _ => rfl

namespace Picture

/-- The ids that the fills of paths and texts refer to. -/
def fillReferences (p : Picture) : List String :=
  p.shapes.toList.filterMap Shape.fillReference?
    ++ p.texts.toList.filterMap fun t => t.fill.resource?

/-- **The picture defines a paint under an id**, and nothing else under it. -/
def DefinesPaint (p : Picture) (id : String) : Prop :=
  ∃ d : Definition, d.isPaint = true ∧ p.definitions.toList.filter (fun e => e.id = id) = [d]

/-- A shape that is drawn adds the reference of its fill, if it has one. -/
@[simp] theorem mem_fillReferences_draw (p : Picture) (s : Shape) (id : String) :
    id ∈ (p.draw s).fillReferences ↔ id ∈ p.fillReferences ∨ s.fillReference? = some id := by
  simp only [fillReferences, draw, Array.toList_push, List.filterMap_append, List.mem_append,
    List.mem_filterMap, List.mem_singleton, exists_eq_left]
  exact or_right_comm

/-- So does a text that is written; texts are filled like areas. -/
@[simp] theorem mem_fillReferences_write (p : Picture) (t : TextElement) (id : String) :
    id ∈ (p.write t).fillReferences ↔ id ∈ p.fillReferences ∨ t.fill.resource? = some id := by
  simp only [fillReferences, write, Array.toList_push, List.filterMap_append, List.mem_append,
    List.mem_filterMap, List.mem_singleton, exists_eq_left]
  exact or_assoc.symm

@[simp] theorem fillReferences_define (p : Picture) (d : Definition) :
    (p.define d).fillReferences = p.fillReferences := rfl

@[simp] theorem fillReferences_remark (p : Picture) (message : String) :
    (p.remark message).fillReferences = p.fillReferences := by
  simp [fillReferences, remark, draw, Shape.fillReference?]

end Picture

/-- The paint of areas refers to an id only if the state has a resource for its fill;
the paint that stands in for a missing one is a keyword. -/
theorem GraphicsState.fill_of_areaPaint {g : GraphicsState} {id : String}
    (h : g.areaPaint.resource? = some id) : g.fill = some (.resource id) := by
  rw [areaPaint] at h
  cases fill : g.fill with
  | none => simp [fill, Paint.resource?] at h
  | some paint =>
    rw [fill, Option.getD_some] at h
    cases paint with
    | resource id' => rw [Option.some.inj h]
    | keyword word => cases h
    | color c => cases h

/-- A path painted without a gradient of its own gets its reference from the graphics
state. -/
theorem fill_of_fillPaint {look : GraphicsState} {mode : PaintMode} {id : String}
    (h : (fillPaint look mode none).resource? = some id) : look.fill = some (.resource id) := by
  simp only [fillPaint] at h
  split at h
  · exact GraphicsState.fill_of_areaPaint h
  · cases h

/-! ## Values in dictionaries -/

/-- Whether a value is one of those that an operator can make: a number, a text
or a dictionary. -/
def Value.isMade : Value → Bool
  | number _ | text _ | dict _ => true
  | name _ | array _ | procedure _ | pattern _ => false

namespace Heap

/-- The value is an entry of some dictionary. -/
def Has (heap : Heap) (v : Value) : Prop :=
  ∃ ref key, heap.get? ref key = some v

/-- A new dictionary has its own entries, and no other dictionary gets new ones. -/
theorem Has.of_alloc {heap : Heap} {entries : Entries} {v : Value}
    (h : (heap.alloc entries).2.Has v) : heap.Has v ∨ ∃ key, entries.lookup key = some v := by
  obtain ⟨ref, key, h⟩ := h
  simp only [get?, Heap.entries, alloc, Array.getD_eq_getD_getElem?, Array.getElem?_push] at h
  split at h
  · exact .inr ⟨key, h⟩
  · refine .inl ⟨ref, key, ?_⟩
    rw [get?, Heap.entries, Array.getD_eq_getD_getElem?]
    exact h

/-- Setting an entry adds one value. The entry may take the place of an older one, so
values can disappear, but none appears from elsewhere. -/
theorem Has.of_set {heap : Heap} {ref : DictRef} {key : String} {v v' : Value}
    (h : (heap.set ref key v').Has v) : heap.Has v ∨ v = v' := by
  obtain ⟨ref', key', h⟩ := h
  simp only [get?, Heap.entries, set, Array.getD_eq_getD_getElem?, Array.getElem?_modify] at h
  have unset : (heap.cells[ref'.index]?.getD []).lookup key' = some v → heap.Has v := by
    intro old
    refine ⟨ref', key', ?_⟩
    rwa [get?, Heap.entries, Array.getD_eq_getD_getElem?]
  split at h
  · cases cell : heap.cells[ref'.index]? with
    | none => simp [cell] at h
    | some entries =>
      rw [cell, Option.getD_some] at unset
      rw [cell, Option.map_some, Option.getD_some, lookup_setEntry] at h
      split at h
      · exact .inr (Option.some.inj h).symm
      · exact .inl (unset h)
  · exact .inl (unset h)

/-- Every value that has come into the heap is of a kind. -/
def Keeps (kind : Value → Prop) (heap heap' : Heap) : Prop :=
  ∀ v, heap'.Has v → heap.Has v ∨ kind v

variable {kind : Value → Prop}

theorem Keeps.refl (heap : Heap) : Keeps kind heap heap :=
  fun _ h => .inl h

/-- Values that come in one after the other are all of the kind. -/
theorem Keeps.trans {heap₁ heap₂ heap₃ : Heap} (h₁ : Keeps kind heap₁ heap₂)
    (h₂ : Keeps kind heap₂ heap₃) : Keeps kind heap₁ heap₃ :=
  fun v h => (h₂ v h).elim (h₁ v) .inr

theorem of_lookup (kind : Value → Prop) {entries : Entries} (each : ∀ entry ∈ entries, kind entry.2)
    {key : String} {v : Value} (h : entries.lookup key = some v) : kind v := by
  obtain ⟨before, after, rfl, -⟩ := List.lookup_eq_some_iff.mp h
  exact each (key, v) (by simp)

/-- A new dictionary brings in its entries, and these are of the kind. -/
theorem Keeps.alloc (kind : Value → Prop) (heap : Heap) {entries : Entries}
    (each : ∀ entry ∈ entries, kind entry.2) : Keeps kind heap (heap.alloc entries).2 := by
  intro v h
  rcases h.of_alloc with old | ⟨key, new⟩
  · exact .inl old
  · exact .inr (of_lookup kind each new)

end Heap

/-- A procedure is part of a literal. -/
inductive Datum.HasProcedure : Datum → List Token → Prop where
  | here (body : List Token) : HasProcedure (.procedure body) body
  | item {items : List Datum} {d : Datum} {body : List Token} (mem : d ∈ items)
      (inside : HasProcedure d body) : HasProcedure (.array items) body
  | entry {entries : List (String × Datum)} {entry : String × Datum} {body : List Token}
      (mem : entry ∈ entries) (inside : HasProcedure entry.2 body) :
      HasProcedure (.dict entries) body

namespace Heap

/-! **A literal holds no pattern**, and no procedure but those written in it. So
what it brings to the heap is of any kind that has these and all other values.
The three statements follow the three functions that store one. -/

/-- The kind has all values that are neither patterns nor procedures. -/
def HasPassive (kind : Value → Prop) : Prop :=
  ∀ v : Value, v.isPlain = true → (∀ body, v ≠ .procedure body) → kind v

mutual

/-- **What a literal brings to the heap.** By recursion on the literal: an array or a
dictionary is passive itself, and its parts are covered by the other two statements. -/
theorem store_keeps {kind : Value → Prop} (passive : HasPassive kind) (heap : Heap) :
    (d : Datum) → (∀ body, d.HasProcedure body → kind (.procedure body)) →
      kind (heap.store d).1 ∧ Keeps kind heap (heap.store d).2
  | .number _, _ | .text _, _ | .name _, _ => ⟨passive _ rfl fun _ => Value.noConfusion, .refl heap⟩
  | .procedure body, written => ⟨written body (.here body), .refl heap⟩
  | .array items, written =>
    ⟨passive _ rfl fun _ => Value.noConfusion,
      storeItems_keeps passive heap [] items fun _ mem body inside =>
        written body (.item mem inside)⟩
  | .dict entries, written => by
    obtain ⟨each, kept⟩ := storeEntries_keeps passive heap [] entries (by simp)
      fun _ mem body inside => written body (.entry mem inside)
    exact ⟨passive _ rfl fun _ => Value.noConfusion, kept.trans (.alloc kind _ each)⟩

/-- The items of an array, stored one after the other. Arrays are values and not cells,
so only what is inside the items reaches the heap. -/
theorem storeItems_keeps {kind : Value → Prop} (passive : HasPassive kind) (heap : Heap)
    (done : List Value) : (items : List Datum) →
      (∀ d ∈ items, ∀ body, d.HasProcedure body → kind (.procedure body)) →
      Keeps kind heap (heap.storeItems done items).2
  | [], _ => .refl heap
  | item :: rest, written => by
    obtain ⟨first, later⟩ := List.forall_mem_cons.mp written
    have kept := (store_keeps passive heap item first).2
    exact kept.trans (storeItems_keeps passive (heap.store item).2 _ rest later)

/-- The entries of a dictionary. Here the values end up in a cell, so each of them has
to be of the kind, along with those done already. -/
theorem storeEntries_keeps {kind : Value → Prop} (passive : HasPassive kind) (heap : Heap)
    (done : Entries) : (entries : List (String × Datum)) → (∀ entry ∈ done, kind entry.2) →
      (∀ entry ∈ entries, ∀ body, entry.2.HasProcedure body → kind (.procedure body)) →
      (∀ entry ∈ (heap.storeEntries done entries).1, kind entry.2)
        ∧ Keeps kind heap (heap.storeEntries done entries).2
  | [], each, _ => ⟨fun entry mem => each entry (List.mem_reverse.mp mem), .refl heap⟩
  | (key, item) :: rest, each, written => by
    obtain ⟨first, later⟩ := List.forall_mem_cons.mp written
    obtain ⟨stored, kept⟩ := store_keeps passive heap item first
    obtain ⟨eachRest, keptRest⟩ := storeEntries_keeps passive (heap.store item).2
      ((key, (heap.store item).1) :: done) rest (List.forall_mem_cons.mpr ⟨stored, each⟩) later
    exact ⟨eachRest, kept.trans keptRest⟩

end

end Heap

namespace Machine

/-! ## Where references are held -/

/-- **The machine holds a reference**: a pattern is an operand or an entry of a
dictionary, a graphics state paints with it, or the picture shows it. -/
inductive Holds (m : Machine) (id : String) : Prop where
  | operand (p : Pattern) (named : p.id = id) (here : Value.pattern p ∈ m.operands)
  | entry (p : Pattern) (named : p.id = id) (here : m.heap.Has (.pattern p))
  | paint (g : GraphicsState) (here : g ∈ m.graphics :: m.saved)
      (fill : g.fill = some (.resource id))
  | drawn (here : id ∈ m.picture.fillReferences)

section Operators

variable {m : Machine} {s : TokenStream} {op : Operator} {id : String}

/-- **Operands** are old ones or made by the operator. -/
theorem operate_operands (restore : op ≠ .restoreGraphics) {v : Value}
    (h : v ∈ (m.operate s op).operands) : v ∈ m.operands ∨ v.isMade = true := by
  cases op with
  | restoreGraphics => exact absurd rfl restore
  | exchange =>
    simp only [operate, exchange_eq] at h
    split at h
    · rename_i u w rest operands
      rw [operands]
      exact .inl ((List.Perm.swap u w rest).subset h)
    · exact .inl h
  | duplicate =>
    simp only [operate, duplicate_eq, List.mem_append, Option.mem_toList] at h
    exact .inl (h.elim List.mem_of_mem_head? id)
  | _ =>
    simp only [operate, negate, combine, newDict, beginDict_eq, endDict, bindName_eq, saveGraphics,
      translate, scale, rotate, retransform, setLineWidth, setLineCap_eq, setLineJoin_eq, setDash,
      setRgbColor, setGray, setCmykColor, setPattern_eq, restyle, moveTo, moveBy, lineTo_eq,
      drawLine, lineBy, curveTo, curveBy, closePath_eq, arc, build, reach, startText, paintPath_eq,
      dropPath, clip_eq, place, shadingFill_eq, showImage, remark, draw, findFont, scaleFont,
      setFont_eq, showText_eq, push, pushDict, pop_eq, popNumber_eq, popPoint_eq,
      popDisplay_eq, ← List.drop_one, List.drop_drop] at h
    -- what is left is an end of the operands, with a number or a dictionary on it at most
    grind [List.mem_of_mem_drop, Value.isMade]

/-- **Entries of dictionaries** are old ones, operands, or made by the operator. -/
theorem operate_heap (restore : op ≠ .restoreGraphics) {v : Value}
    (h : (m.operate s op).heap.Has v) : m.heap.Has v ∨ v ∈ m.operands ∨ v.isMade = true := by
  cases op with
  | restoreGraphics => exact absurd rfl restore
  | newDict =>
    simp only [operate, newDict, pushDict, push, pop_eq] at h
    exact (Heap.Keeps.alloc (·.isMade = true) m.heap (by simp) v h).imp_right .inr
  | beginDict =>
    simp only [operate, beginDict_eq] at h
    split at h
    · exact .inl h
    · exact (Heap.Keeps.alloc (·.isMade = true) m.heap (by simp) v h).imp_right .inr
  | define =>
    simp only [operate, bindName_eq] at h
    split at h
    · rename_i value _ top
      rcases h.of_set with old | rfl
      · exact .inl old
      · exact .inr (.inl (List.mem_of_mem_head? top))
    · exact .inl h
  | findFont =>
    simp only [operate, findFont, pushDict, push, popDisplay_eq] at h
    exact (Heap.Keeps.alloc (·.isMade = true) m.heap (by simp [Value.isMade]) v h).imp_right .inr
  | scaleFont =>
    simp only [operate, scaleFont, pushDict, push, pop_eq, popNumber_eq] at h
    -- the new font is a copy of the old one, with a number for its size
    rcases h.of_alloc with old | ⟨key, new⟩
    · exact .inl old
    · rw [lookup_setEntry] at new
      split at new
      · cases new
        exact .inr (.inr rfl)
      · split at new
        · exact .inl ⟨_, key, new⟩
        · exact .inr (.inr (Heap.of_lookup (·.isMade = true) (by simp [Value.isMade]) new))
  | lineTo =>
    simp only [operate, lineTo_eq, paintPath_eq] at h
    split at h <;> exact .inl h
  | clip =>
    simp only [operate, clip_eq] at h
    split at h <;> exact .inl h
  | _ =>
    simp only [operate, negate, combine, exchange_eq, duplicate_eq, endDict, saveGraphics,
      translate, scale, rotate, setLineWidth, setLineCap_eq, setLineJoin_eq, setDash, setRgbColor,
      setGray, setCmykColor, setPattern_eq, moveTo, moveBy, lineBy, curveTo, curveBy, closePath_eq,
      arc, paintPath_eq, shadingFill_eq, setFont_eq, showText_eq, pop_eq, popNumber_eq,
      popPoint_eq] at h
    exact .inl h

/-- **The paint of areas** is the old one or the pattern on top of the stack. -/
theorem operate_fill (restore : op ≠ .restoreGraphics)
    (h : (m.operate s op).graphics.fill = some (.resource id)) :
    m.graphics.fill = some (.resource id)
    ∨ ∃ p : Pattern, p.id = id ∧ Value.pattern p ∈ m.operands := by
  cases op with
  | restoreGraphics => exact absurd rfl restore
  | setPattern =>
    simp only [operate, setPattern_eq] at h
    split at h
    · rename_i p top
      exact .inr ⟨p, Paint.resource.inj (Option.some.inj h), List.mem_of_mem_head? top⟩
    · cases h
  | lineTo =>
    simp only [operate, lineTo_eq, paintPath_eq] at h
    split at h <;> exact .inl h
  | clip =>
    simp only [operate, clip_eq] at h
    split at h <;> exact .inl h
  | setRgbColor | setGray | setCmykColor => cases h
  | setLineCap =>
    simp only [operate, setLineCap_eq] at h
    split at h <;> exact .inl h
  | setLineJoin =>
    simp only [operate, setLineJoin_eq] at h
    split at h <;> exact .inl h
  | setFont =>
    simp only [operate, setFont_eq] at h
    split at h <;> exact .inl h
  | _ =>
    simp only [operate, negate, combine, exchange_eq, duplicate_eq, newDict, beginDict_eq, endDict,
      bindName_eq, saveGraphics, translate, scale, rotate, setLineWidth, setDash, moveTo, moveBy,
      lineBy, curveTo, curveBy, closePath_eq, arc, paintPath_eq, shadingFill_eq, findFont,
      scaleFont, showText_eq, pop_eq, popNumber_eq, popPoint_eq, popDisplay_eq] at h
    exact .inl h

/-- A saved state was saved before, or is the one that was in force. Restoring is left
out: it takes a state off. -/
theorem operate_saved (restore : op ≠ .restoreGraphics) {g : GraphicsState}
    (h : g ∈ (m.operate s op).saved) : g ∈ m.graphics :: m.saved := by
  by_cases save : op = .saveGraphics
  · subst save
    exact h
  by_cases clip : op = .clip
  · subst clip
    simp only [operate, clip_eq] at h
    split at h <;> exact List.mem_cons_of_mem _ h
  rw [(operate_layers m s clip save restore).saved] at h
  exact List.mem_cons_of_mem _ h

/-- A painted path refers to what the current state fills areas with. -/
theorem paintPath_drawn {mode : PaintMode} (h : id ∈ (m.paintPath mode).picture.fillReferences) :
    id ∈ m.picture.fillReferences ∨ m.graphics.fill = some (.resource id) := by
  rw [paintPath_eq] at h
  dsimp only at h
  split at h
  · exact .inl h
  · exact (Picture.mem_fillReferences_draw _ _ _ |>.mp h).imp_right fill_of_fillPaint

/-- The picture has something to fill areas with under an id. -/
def Defined (m : Machine) (id : String) : Prop :=
  ∃ d ∈ m.picture.definitions.toList, d.id = id ∧ d.isPaint = true

/-- A shading refers to the gradient that it has just defined; that is the one reference
an operator makes by itself. -/
theorem shadingFill_drawn (h : id ∈ m.shadingFill.picture.fillReferences) :
    id ∈ m.picture.fillReferences ∨ m.shadingFill.Defined id := by
  simp only [Defined, shadingFill_eq] at h ⊢
  rcases drawn : m.shading? with _ | _ | ⟨gradient, outline⟩ <;> simp only [drawn] at h ⊢
  · exact .inl h
  · rw [Picture.fillReferences_remark] at h
    exact .inl h
  · obtain ⟨named, kind⟩ := gradient_of_shading drawn
    rw [Picture.mem_fillReferences_draw, Picture.fillReferences_define] at h
    refine h.imp_right fun here => ⟨gradient, by simp [Picture.draw, Picture.define], ?_⟩
    exact ⟨named.trans (Option.some.inj here), Definition.isPaint_of_isGradient kind⟩

/-- **Fills** drawn are filled with the paint in force, or with a gradient that
is defined along with them. -/
theorem operate_drawn (restore : op ≠ .restoreGraphics)
    (h : id ∈ (m.operate s op).picture.fillReferences) :
    id ∈ m.picture.fillReferences ∨ m.graphics.fill = some (.resource id)
    ∨ (m.operate s op).Defined id := by
  by_cases draws : op.draws = false
  · rw [(operate_idle m s draws restore).picture] at h
    exact .inl h
  · cases op with
    | stroke => exact (paintPath_drawn h).imp_right .inl
    | fill => exact (paintPath_drawn h).imp_right .inl
    | lineTo =>
      simp only [operate, lineTo_eq] at h
      split at h
      · exact (paintPath_drawn h).imp_right .inl
      · exact .inl h
    | clip =>
      simp only [operate, clip_eq] at h
      split at h <;> exact .inl h
    | shadingFill => exact (shadingFill_drawn h).imp_right .inr
    | image =>
      simp only [operate, showImage, draw, remark, Picture.mem_fillReferences_draw,
        Picture.fillReferences_remark] at h
      rcases h with old | new
      · exact .inl old
      · cases new
    | showText =>
      simp only [operate, showText_eq] at h
      split at h
      · exact (Picture.mem_fillReferences_write _ _ _ |>.mp h).imp_right fun fill =>
          .inl (GraphicsState.fill_of_areaPaint fill)
      · exact .inl h
    | makePattern => exact .inl h
    | _ => exact absurd rfl draws

/-- References are held in four places, so a machine that agrees in these holds no new
ones. -/
theorem Holds.of_same {m' : Machine} (h : m'.Holds id) (operands : m'.operands ⊆ m.operands)
    (heap : m'.heap = m.heap) (graphics : m'.graphics = m.graphics) (saved : m'.saved = m.saved)
    (picture : m'.picture.fillReferences = m.picture.fillReferences) : m.Holds id := by
  cases h with
  | operand p named here => exact .operand p named (operands here)
  | entry p named here => exact .entry p named (heap ▸ here)
  | paint g here fill => exact .paint g (graphics ▸ saved ▸ here) fill
  | drawn here => exact .drawn (picture ▸ here)

/-- Restoring brings back a fill that a saved state had all along. Clips nested, it
draws and defines nothing. -/
theorem restoreGraphics_holds (nested : m.ClipsNested) (h : m.restoreGraphics.Holds id) :
    m.Holds id := by
  rcases saved : m.saved with _ | ⟨g, rest⟩
  · rwa [restoreGraphics, saved] at h
  · rw [restoreGraphics_of_le saved (nested.length_le saved)] at h
    cases h with
    | operand p named here => exact .operand p named here
    | entry p named here => exact .entry p named here
    | paint g' here fill => exact .paint g' (List.mem_cons_of_mem _ (saved ▸ here)) fill
    | drawn here => exact .drawn here

/-- **No operator makes a reference up.** What the machine holds afterwards, it
held before, or it is a gradient that is now defined. -/
theorem operate_holds (nested : m.ClipsNested) (h : (m.operate s op).Holds id) :
    m.Holds id ∨ (m.operate s op).Defined id := by
  by_cases restore : op = .restoreGraphics
  · subst restore
    exact .inl (restoreGraphics_holds nested h)
  cases h with
  | operand p named here =>
    rcases operate_operands restore here with old | plain
    · exact .inl (.operand p named old)
    · cases plain
  | entry p named here =>
    rcases operate_heap restore here with old | operand | plain
    · exact .inl (.entry p named old)
    · exact .inl (.operand p named operand)
    · cases plain
  -- a state in force may have a new fill, and that was an operand; saved states are old
  | paint g here fill =>
    rcases List.mem_cons.mp here with rfl | saved
    · rcases operate_fill restore fill with old | ⟨p, named, operand⟩
      · exact .inl (.paint m.graphics List.mem_cons_self old)
      · exact .inl (.operand p named operand)
    · exact .inl (.paint g (operate_saved restore saved) fill)
  | drawn here =>
    rcases operate_drawn restore here with old | fill | defined
    · exact .inl (.drawn old)
    · exact .inl (.paint m.graphics List.mem_cons_self fill)
    · exact .inr defined

end Operators

section Tokens

variable {limits : Limits} {level : Nat} {m m' : Machine} {id : String}

/-- An operand that is pushed may hold a reference only if it is a pattern. -/
theorem Holds.of_push {v : Value} (h : (m.push v).Holds id)
    (known : ∀ p : Pattern, v = .pattern p → m.Holds p.id) : m.Holds id := by
  cases h with
  | operand p named here =>
    rcases List.mem_cons.mp here with top | old
    · exact named ▸ known p top.symm
    · exact .operand p named old
  | entry p named here => exact .entry p named here
  | paint g here fill => exact .paint g here fill
  | drawn here => exact .drawn here

/-- The value of a bound name is an entry of some dictionary on the stack. -/
theorem has_of_lookup {name : String} {v : Value} (found : m.lookup name = some v) :
    m.heap.Has v := by
  rcases Option.or_eq_some_iff.mp found with inner | ⟨-, outer⟩
  · obtain ⟨ref, -, here⟩ := List.exists_of_findSome?_eq_some inner
    exact ⟨ref, name, here⟩
  · exact ⟨m.globals, name, outer⟩

/-- A literal holds no pattern, so neither the value it leaves nor what it stores refers
to anything. -/
theorem Holds.of_store {d : Datum}
    (h : ({ m with heap := (m.heap.store d).2 }.push (m.heap.store d).1).Holds id) :
    m.Holds id := by
  have passive : Heap.HasPassive (·.isPlain = true) := fun _ plain _ => plain
  obtain ⟨plain, kept⟩ := Heap.store_keeps passive m.heap d fun _ _ => rfl
  have stored := h.of_push fun p pattern => by simp [pattern, Value.isPlain] at plain
  cases stored with
  | operand p named here => exact .operand p named here
  | entry p named here =>
    rcases kept _ here with old | plain
    · exact .entry p named old
    · cases plain
  | paint g here fill => exact .paint g here fill
  | drawn here => exact .drawn here

theorem pushLiteral_holds {kind : OpenLiteral} {s : TokenStream}
    (h : (m.pushLiteral limits kind s).2.Holds id) : m.Holds id := by
  simp only [pushLiteral] at h
  split at h
  · have remarked := h.of_store
    exact remarked.of_same (List.Subset.refl _) rfl rfl rfl (Picture.fillReferences_remark _ _)
  · exact h.of_store

/-- **No token other than an operator makes a reference.** A bound name pushes a value
that is in the heap already, and a literal has none to push. -/
theorem Aside.holds (aside : Aside limits m m') (h : m'.Holds id) : m.Holds id := by
  cases aside with
  | nothing same => exact same ▸ h
  | operand v scalar pushed =>
    subst pushed
    exact h.of_push fun p pattern => by simp [pattern, Value.isScalar] at scalar
  | bound name v found pushed =>
    subst pushed
    exact h.of_push fun p pattern => .entry p rfl (pattern ▸ has_of_lookup found)
  | literal kind s pushed =>
    subst pushed
    exact pushLiteral_holds h
  | unknown message remarked =>
    subst remarked
    exact h.of_same (List.Subset.refl _) rfl rfl rfl (Picture.fillReferences_remark _ _)
  | refused message hit remarked =>
    subst remarked
    exact h.of_same (List.Subset.refl _) rfl rfl rfl (Picture.fillReferences_remark _ _)

/-- Making a pattern adds one reference, under the fresh id. -/
theorem withPattern_holds {ref : DictRef} {tile : Option (List Shape)} {hits : List LimitHit}
    (h : (m.withPattern ref tile hits).Holds id) :
    m.Holds id ∨ id = (m.freshId "pattern").1 := by
  cases h with
  | operand p named here =>
    rcases List.mem_cons.mp here with top | old
    · cases top
      exact .inr named.symm
    · exact .inl (.operand p named (List.mem_of_mem_tail old))
  | entry p named here => exact .inl (.entry p named here)
  | paint g here fill => exact .inl (.paint g here fill)
  | drawn here =>
    refine .inl (.drawn ?_)
    cases tile with
    | none => exact here
    | some tile => exact here

end Tokens

/-! ## The making of patterns -/

section Patterns

variable {limits : Limits} {level : Nat} {m m' : Machine} {id : String}

/-- **A pattern was made without a tile**: in a life of the machine, of a
dictionary that had no paint procedure at that moment. -/
def MadeBare (limits : Limits) (level : Nat) (m : Machine) (id : String) : Prop :=
  Happened limits level m fun before after =>
    ∃ ref hits, before.operands.head? = some (.dict ref)
      ∧ (∀ body, before.heap.get? ref "PaintProc" ≠ some (.procedure body))
      ∧ id = (before.freshId "pattern").1
      ∧ after = before.counted.withPattern ref none hits

/-- **A pattern was painted**: in a life of the machine it was made of a
dictionary with a paint procedure, whose run on a machine of its own ended, and
its tile is what that run left. -/
def PaintedBy (limits : Limits) (level : Nat) (m : Machine) (d : Definition) (body : List Token)
    (painted : Machine) : Prop :=
  Happened limits level m fun before after =>
    ∃ ref hits, before.operands.head? = some (.dict ref)
      ∧ before.heap.get? ref "PaintProc" = some (.procedure body)
      ∧ Ends limits (level + 1) (.ofTokens body) initial painted
      ∧ d = patternDefinition before.heap ref (before.freshId "pattern").1
          (tileOf painted.finish)
      ∧ after = before.counted.withPattern ref (some (tileOf painted.finish)) hits

theorem Defined.mono (h : m.Defined id)
    (more : m.picture.definitions.toList ⊆ m'.picture.definitions.toList) : m'.Defined id := by
  obtain ⟨d, mem, named, kind⟩ := h
  exact ⟨d, more mem, named, kind⟩

/-- A pattern with a tile is defined under the id that the operand refers to. -/
theorem withPattern_defined (m : Machine) (ref : DictRef) (tile : List Shape)
    (hits : List LimitHit) :
    (m.withPattern ref (some tile) hits).Defined (m.freshId "pattern").1 :=
  ⟨patternDefinition m.heap ref (m.freshId "pattern").1 tile,
    by simp [withPattern, Picture.define], rfl, rfl⟩

/-- **A move makes no reference up**: what the machine holds after it, it held
before, or it is defined, or it is a pattern made without a tile. -/
theorem Move.holds (moves : Moves limits level initial m) (move : Move limits level m m')
    (h : m'.Holds id) : m.Holds id ∨ m'.Defined id ∨ MadeBare limits level m' id := by
  obtain ⟨-, nested⟩ := Identified.counted_of_moves moves
  have uncounted : m.counted.Holds id → m.Holds id := fun held =>
    held.of_same (List.Subset.refl _) rfl rfl rfl rfl
  cases move with
  | step step =>
    cases step.effect with
    | operate op rest _ result =>
      dsimp only at result
      subst result
      exact (operate_holds nested h).imp uncounted .inl
    | makePattern fuel _ made =>
      obtain ⟨ref, tile, hits, source, tiled, rfl⟩ | rfl := makePattern_cases made
      · rcases withPattern_holds h with old | new
        · exact .inl (uncounted old)
        -- the new pattern is defined as soon as it has a tile, be it empty
        · cases tiled with
          | missing unpainted =>
            exact .inr (.inr (.now moves (.step step) ⟨ref, hits, source, unpainted, new, rfl⟩))
          | empty => exact .inr (.inl (new ▸ withPattern_defined _ ref _ hits))
          | painted => exact .inr (.inl (new ▸ withPattern_defined _ ref _ hits))
      · exact .inl (h.of_same (List.tail_suffix _).subset rfl rfl rfl rfl)
    | aside _ result => exact .inl (uncounted (result.holds h))
  | stop =>
    exact .inl (h.of_same (List.Subset.refl _) rfl rfl rfl (Picture.fillReferences_remark _ _))
  | finish =>
    -- a run ends as with a stroke
    have nested' : m.ClipsNested := nested.of_same ⟨rfl, rfl⟩
    change (m.operate (.ofTokens []) .stroke).Holds id at h
    exact (operate_holds nested' h).imp_right .inl

/-- **What a machine holds is defined**, except for patterns made without a
tile. -/
theorem Holds.defined (moves : Moves limits level initial m) (h : m.Holds id) :
    m.Defined id ∨ MadeBare limits level m id := by
  induction moves with
  | refl =>
    cases h with
    | operand p named here => cases here
    | entry p named here =>
      obtain ⟨⟨i⟩, key, here⟩ := here
      cases i <;> cases here
    | paint g here fill =>
      obtain rfl := List.mem_singleton.mp here
      cases fill
    | drawn here => cases here
  | @tail m m' moves move ih =>
    obtain ⟨-, nested⟩ := Identified.counted_of_moves moves
    have more := move.page.definitions_subset nested
    rcases move.holds moves h with old | new
    · rcases ih old with defined | bare
      · exact .inl (defined.mono more)
      · exact .inr (bare.later move)
    · exact new

/-- The number was drawn, and no pattern is defined under it. -/
def Unused (m : Machine) (n : Nat) : Prop :=
  n < m.nextId ∧ ∀ d ∈ m.picture.definitions.toList, d.id ≠ "pattern" ++ Nat.repr n

/-- The word in the ids of patterns has no digit, which is what makes the number behind
it readable. -/
theorem patternWord_digitless : ∀ c ∈ "pattern".toList, c.isDigit = false :=
  isDigit_of_all (by decide +kernel)

/-- A number that was passed over is never used again. -/
theorem Unused.of_moves {n : Nat} (h : m.Unused n) (moves : Moves limits level initial m)
    (since : Moves limits level m m') : m'.Unused n := by
  induction since with
  | refl => exact h
  | tail before move ih =>
    obtain ⟨lt, unused⟩ := ih
    obtain ⟨-, nested⟩ := Identified.counted_of_moves (moves.trans before)
    rcases move.page.definitions nested with ⟨same, le⟩ | ⟨d, more, fresh, next⟩
    · exact ⟨Nat.lt_of_lt_of_le lt le, fun e mem => unused e (same ▸ mem)⟩
    · refine ⟨next ▸ Nat.lt_succ_of_lt lt, fun e mem same => ?_⟩
      rcases List.mem_append.mp (more ▸ mem) with old | new
      · exact unused e old same
      · obtain rfl := List.mem_singleton.mp new
        -- a later definition has a later number
        have number := eq_of_append_repr_eq e.isDigit_of_mem_word patternWord_digitless
          (fresh.symm.trans same)
        exact absurd number (Nat.ne_of_gt lt)

/-- **A pattern made without a tile is not defined**, then or later. -/
theorem MadeBare.not_defined (h : MadeBare limits level m id) : ¬ m.Defined id := by
  obtain ⟨before, after, moves, move, since, ref, hits, -, -, rfl, made⟩ := h
  have numbered := (Identified.of_moves moves).1.numbered
  -- the definitions that were there have smaller numbers
  have unused : after.Unused before.nextId := by
    subst made
    refine ⟨Nat.lt_succ_self _, fun d mem same => ?_⟩
    obtain ⟨n, lt, named⟩ := numbered.below d mem
    have number := eq_of_append_repr_eq d.isDigit_of_mem_word patternWord_digitless
      (named.symm.trans same)
    exact absurd number (Nat.ne_of_lt lt)
  rintro ⟨d, mem, named, -⟩
  exact (unused.of_moves (moves.tail move) since).2 d mem named

/-- Ids are distinct, so what is defined under an id is the only thing defined under
it. -/
theorem Defined.definesPaint (h : m.Defined id) (identified : m.Identified) :
    m.picture.DefinesPaint id := by
  obtain ⟨d, mem, rfl, kind⟩ := h
  exact ⟨d, kind, identified.numbered.filter_id mem⟩

/-- The converse needs no more than that there is a definition. -/
theorem defined_of_definesPaint (h : m.picture.DefinesPaint id) : m.Defined id := by
  obtain ⟨d, kind, only⟩ := h
  have mem : d ∈ m.picture.definitions.toList.filter (fun e => e.id = id) := by simp [only]
  obtain ⟨mem, named⟩ := List.mem_filter.mp mem
  exact ⟨d, mem, by simpa using named, kind⟩

/-- **What the fills of a picture refer to** is defined in it, or was made
without a tile. -/
theorem definesPaint_iff (moves : Moves limits level initial m)
    (here : id ∈ m.picture.fillReferences) :
    m.picture.DefinesPaint id ↔ ¬ MadeBare limits level m id := by
  constructor
  · intro defined bare
    exact bare.not_defined (defined_of_definesPaint defined)
  · intro made
    have held : m.Holds id := .drawn here
    have defined : m.Defined id := (held.defined moves).resolve_right made
    exact defined.definesPaint (Identified.of_moves moves).1

/-! ## Tiles -/

/-- A tile with a shape comes with a pattern. -/
theorem PageMove.tiles (nested : m.ClipsNested) (page : PageMove limits level m m')
    {d : Definition} (mem : d ∈ m'.picture.definitions.toList) (shaped : d.tile ≠ []) :
    d ∈ m.picture.definitions.toList
    ∨ ∃ ref tile hits, m.operands.head? = some (.dict ref)
        ∧ Tile limits level m.heap ref (some tile)
        ∧ d = patternDefinition m.heap ref (m.freshId "pattern").1 tile
        ∧ m' = m.withPattern ref (some tile) hits := by
  cases page with
  | quiet _ definitions _ _ _ _ => exact .inl (definitions ▸ mem)
  | save _ _ picture _ => exact .inl (picture ▸ mem)
  | restore restored =>
    rw [restored, (restoreGraphics_page nested).2.picture] at mem
    exact .inl mem
  | paint _ _ _ picture _ =>
    rw [picture] at mem
    exact .inl mem
  | clip _ _ _ picture _ =>
    rw [picture, Picture.define, Array.toList_push] at mem
    rcases List.mem_append.mp mem with old | new
    · exact .inl old
    · obtain rfl := List.mem_singleton.mp new
      exact absurd rfl shaped
  | shade gradient _ _ kind _ picture _ =>
    rw [picture, Picture.draw, Picture.define, Array.toList_push] at mem
    rcases List.mem_append.mp mem with old | new
    · exact .inl old
    · obtain rfl := List.mem_singleton.mp new
      exact absurd (Definition.tile_of_isGradient kind) shaped
  | pattern ref tile hits source made result =>
    subst result
    cases tile with
    | none => exact .inl mem
    | some tile =>
      rw [withPattern, Picture.define, Array.toList_push] at mem
      rcases List.mem_append.mp mem with old | new
      · exact .inl old
      · exact .inr ⟨ref, tile, hits, source, made, List.mem_singleton.mp new, rfl⟩

/-- **A tile with a shape was painted.** -/
theorem paintedBy_of_moves (moves : Moves limits level initial m) {d : Definition}
    (mem : d ∈ m.picture.definitions.toList) (shaped : d.tile ≠ []) :
    ∃ body painted, PaintedBy limits level m d body painted := by
  induction moves with
  | refl => cases mem
  | @tail m m' moves move ih =>
    obtain ⟨-, nested⟩ := Identified.counted_of_moves moves
    rcases move.page.tiles nested mem shaped with old | ⟨ref, tile, hits, source, made, is, result⟩
    · obtain ⟨body, painted, by'⟩ := ih old
      exact ⟨body, painted, by'.later move⟩
    · cases made with
      | empty => exact absurd (is ▸ rfl) shaped
      | painted body paint painted ran =>
        exact ⟨body, painted, .now moves move ⟨ref, hits, source, paint, ran, is, result⟩⟩

/-- The tile is what the machine of the paint procedure painted, taken after its last
path was painted as well. -/
theorem PaintedBy.tile_eq {d : Definition} {body : List Token} {painted : Machine}
    (h : PaintedBy limits level m d body painted) : d.tile = tileOf painted.finish := by
  obtain ⟨before, after, -, -, -, ref, hits, -, -, -, is, -⟩ := h
  rw [is]
  rfl

/-- The machine of a paint procedure is a reachable one, a level further in. -/
theorem PaintedBy.reachable {d : Definition} {body : List Token} {painted : Machine}
    (h : PaintedBy limits level m d body painted) :
    Reachable limits (level + 1) painted.finish := by
  obtain ⟨before, after, -, -, -, ref, hits, -, -, ran, -, -⟩ := h
  exact ⟨_, [], _, .run body .fresh ran, .refl⟩

/-- A tile has no references but those of the picture it is taken from. -/
theorem mem_fillReferences_of_tileOf
    (h : id ∈ (tileOf m).filterMap Shape.fillReference?) : id ∈ m.picture.fillReferences := by
  obtain ⟨shape, mem, named⟩ := List.mem_filterMap.mp h
  have drawn : shape ∈ m.picture.shapes.toList := (List.mem_filter.mp mem).1
  exact List.mem_append_left _ (List.mem_filterMap.mpr ⟨shape, drawn, named⟩)

/-- **Fills refer to what is defined.** In every reachable machine, what the
fill of a path or a text refers to is defined in the picture, under an id that
nothing else has, unless it is a pattern that was made of a dictionary without
a paint procedure. And a tile that is not empty was painted by a run of the
paint procedure on a machine of its own: what the fills of its paths refer to
is defined in the picture of that machine, with the same proviso. -/
theorem fills_refer_to_definitions (reachable : Reachable limits level m) :
    (∀ id ∈ m.picture.fillReferences,
      m.picture.DefinesPaint id ↔ ¬ MadeBare limits level m id)
    ∧ ∀ d ∈ m.picture.definitions.toList, d.tile ≠ [] →
        (∃ body painted, PaintedBy limits level m d body painted)
        ∧ ∀ body painted, PaintedBy limits level m d body painted →
            d.tile = tileOf painted.finish
            ∧ ∀ id ∈ d.tile.filterMap Shape.fillReference?,
                painted.finish.picture.DefinesPaint id
                  ↔ ¬ MadeBare limits (level + 1) painted.finish id := by
  refine ⟨fun id here => definesPaint_iff reachable.moves here, ?_⟩
  intro d mem shaped
  refine ⟨paintedBy_of_moves reachable.moves mem shaped, ?_⟩
  intro body painted history
  have tile := history.tile_eq
  refine ⟨tile, fun id here => ?_⟩
  rw [tile] at here
  exact definesPaint_iff history.reachable.moves (mem_fillReferences_of_tileOf here)

/-- A path filled with a pattern, whose paint procedure fills a path with a
pattern of its own, then a shading, and a text: the two definitions are those
that paths and text refer to, and the tile has its own. -/
theorem fills_refer_to_definitions_nested :
    ∃ m : Machine, Reachable {} 0 m
      ∧ m.picture.fillReferences = ["pattern0", "grad1", "pattern0"]
      ∧ m.picture.definitions.toList.map
          (fun d => (d.id, d.tile.filterMap Shape.fillReference?))
        = [("pattern0", ["pattern0"]), ("grad1", [])]
      ∧ (∀ id ∈ m.picture.fillReferences, m.picture.DefinesPaint id ↔ ¬ MadeBare {} 0 m id)
      ∧ ∀ d ∈ m.picture.definitions.toList, d.tile ≠ [] →
          (∃ body painted, PaintedBy {} 0 m d body painted)
          ∧ ∀ body painted, PaintedBy {} 0 m d body painted →
              d.tile = tileOf painted.finish
              ∧ ∀ id ∈ d.tile.filterMap Shape.fillReference?,
                  painted.finish.picture.DefinesPaint id ↔ ¬ MadeBare {} 1 painted.finish id := by
  have ran : (initial.run {} 40 [.openDict, .name "PaintProc", .openBrace, .openDict,
      .name "PaintProc", .openBrace, .operator "moveto", .operator "fill", .closeBrace, .closeDict,
      .operator "makepattern", .operator "setpattern", .operator "moveto", .operator "fill",
      .closeBrace, .closeDict, .operator "makepattern", .operator "setpattern", .operator "moveto",
      .operator "fill", .openDict, .name "ShadingType", .number "2", .closeDict, .operator "shfill",
      .operator "moveto", .string "a", .operator "show"]).map
        (fun m => (m.picture.fillReferences, m.picture.definitions.toList.map
          fun d => (d.id, d.tile.filterMap Shape.fillReference?)))
      = some (["pattern0", "grad1", "pattern0"],
          [("pattern0", ["pattern0"]), ("grad1", [])]) := by decide +kernel
  obtain ⟨m, ran, facts⟩ := Option.map_eq_some_iff.mp ran
  obtain ⟨references, tiles⟩ := Prod.mk.inj facts
  have reachable := Reachable.of_run ran
  exact ⟨m, reachable, references, tiles, fills_refer_to_definitions reachable⟩

/-- **Not every fill refers to a definition of its own picture.** A pattern made
of an empty dictionary fills a path and is not defined. And where a paint
procedure fills a path with a pattern of its own, that pattern is not among the
definitions, and the id by which the tile refers to it is that of the pattern
that the tile belongs to. -/
theorem fill_without_definition :
    (∃ m : Machine, Reachable {} 0 m ∧ m.picture.fillReferences = ["pattern0"]
      ∧ m.picture.definitions.toList.map Definition.id = [])
    ∧ ∃ m : Machine, Reachable {} 0 m
      ∧ m.picture.definitions.toList.map
          (fun d => (d.id, d.tile.filterMap Shape.fillReference?))
        = [("pattern0", ["pattern0"])] := by
  constructor
  · have ran : (initial.run {} 10 [.openDict, .closeDict, .operator "makepattern",
        .operator "setpattern", .operator "moveto", .operator "fill"]).map
          (fun m => (m.picture.fillReferences, m.picture.definitions.toList.map Definition.id))
        = some (["pattern0"], []) := by decide +kernel
    obtain ⟨m, ran, facts⟩ := Option.map_eq_some_iff.mp ran
    obtain ⟨references, definitions⟩ := Prod.mk.inj facts
    exact ⟨m, .of_run ran, references, definitions⟩
  · have ran : (initial.run {} 40 [.openDict, .name "PaintProc", .openBrace, .openDict,
        .name "PaintProc", .openBrace, .operator "moveto", .operator "stroke", .closeBrace,
        .closeDict, .operator "makepattern", .operator "setpattern", .operator "moveto",
        .operator "fill", .closeBrace, .closeDict, .operator "makepattern"]).map
          (fun m => m.picture.definitions.toList.map
            fun d => (d.id, d.tile.filterMap Shape.fillReference?))
        = some [("pattern0", ["pattern0"])] := by decide +kernel
    obtain ⟨m, ran, tiles⟩ := Option.map_eq_some_iff.mp ran
    exact ⟨m, .of_run ran, tiles⟩

end Patterns

end Machine

end VectorPage
