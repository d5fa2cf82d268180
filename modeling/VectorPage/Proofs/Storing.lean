/-
What the heap shows of a literal.

A literal is stored from the inside out: its dictionaries become new cells of the
heap, one after the other. A value *shows* a datum in a heap if they have the same
shape, and each reference leads to a cell whose entries show those of the datum,
under the same keys and in the same order. Cells are only added, so what a value
shows it goes on to show while the rest of the literal is stored.
-/
import VectorPage.Value

set_option autoImplicit false

namespace VectorPage

namespace Heap

/-! ## Growing -/

/-- Every dictionary of the first heap is in the second one, as it was. -/
def Grows (heap heap' : Heap) : Prop :=
  ∀ (i : Nat) (entries : Entries), heap.cells[i]? = some entries → heap'.cells[i]? = some entries

theorem Grows.refl (heap : Heap) : heap.Grows heap := fun _ _ cell => cell

/-- Cells are kept from one heap to the next. Storing a literal allocates many times
over, so what holds after its first part has to be carried through the rest. -/
theorem Grows.trans {heap₁ heap₂ heap₃ : Heap} (h₁ : heap₁.Grows heap₂) (h₂ : heap₂.Grows heap₃) :
    heap₁.Grows heap₃ :=
  fun i entries cell => h₂ i entries (h₁ i entries cell)

/-- A new dictionary gets the next free cell, behind all that exist. -/
theorem Grows.alloc (heap : Heap) (entries : Entries) : heap.Grows (heap.alloc entries).2 := by
  intro i old cell
  have inside := (Array.getElem?_eq_some_iff.mp cell).1
  rw [Heap.alloc, Array.getElem?_push, if_neg (Nat.ne_of_lt inside), cell]

/-! ## Showing -/

mutual

/-- **The value is the datum**, with its dictionaries read from the heap. -/
def Shows (heap : Heap) (value : Value) : Datum → Prop
  | .number x => value = .number x
  | .text s => value = .text s
  | .name s => value = .name s
  | .procedure body => value = .procedure body
  | .array items => ∃ values, value = .array values ∧ ShowsItems heap values items
  | .dict entries =>
    ∃ ref cell, value = .dict ref ∧ heap.cells[ref.index]? = some cell
      ∧ ShowsEntries heap cell entries

def ShowsItems (heap : Heap) (values : List Value) : List Datum → Prop
  | [] => values = []
  | item :: items =>
    ∃ value rest, values = value :: rest ∧ Shows heap value item ∧ ShowsItems heap rest items

def ShowsEntries (heap : Heap) (cell : Entries) : List (String × Datum) → Prop
  | [] => cell = []
  | (key, item) :: entries =>
    ∃ value rest, cell = (key, value) :: rest ∧ Shows heap value item
      ∧ ShowsEntries heap rest entries

end

mutual

/-- **A value shows the same datum in a heap that has grown**: what it refers to are
cells, and these are kept. The three notions refer to each other, and so do their
proofs. -/
theorem Shows.grown {heap heap' : Heap} (grows : heap.Grows heap') {value : Value} :
    {d : Datum} → Shows heap value d → Shows heap' value d
  | .number _, h | .text _, h | .name _, h | .procedure _, h => h
  | .array _, ⟨values, same, items⟩ => ⟨values, same, ShowsItems.grown grows items⟩
  | .dict _, ⟨ref, cell, same, there, entries⟩ =>
    ⟨ref, cell, same, grows _ cell there, ShowsEntries.grown grows entries⟩

/-- So do the items of an array, one by one. -/
theorem ShowsItems.grown {heap heap' : Heap} (grows : heap.Grows heap') {values : List Value} :
    {items : List Datum} → ShowsItems heap values items → ShowsItems heap' values items
  | [], h => h
  | _ :: _, ⟨value, rest, same, first, later⟩ =>
    ⟨value, rest, same, Shows.grown grows first, ShowsItems.grown grows later⟩

/-- So do the entries of a dictionary; its keys are texts and do not need the heap. -/
theorem ShowsEntries.grown {heap heap' : Heap} (grows : heap.Grows heap') {cell : Entries} :
    {entries : List (String × Datum)} → ShowsEntries heap cell entries →
      ShowsEntries heap' cell entries
  | [], h => h
  | (_, _) :: _, ⟨value, rest, same, first, later⟩ =>
    ⟨value, rest, same, Shows.grown grows first, ShowsEntries.grown grows later⟩

end

mutual

/-- **A stored literal is shown** by its value, in a heap that has grown. -/
theorem store_shows (heap : Heap) : (d : Datum) →
    ∃ value heap', heap.store d = (value, heap') ∧ heap.Grows heap' ∧ heap'.Shows value d
  | .number _ | .text _ | .name _ | .procedure _ => ⟨_, heap, rfl, .refl heap, rfl⟩
  | .array items => by
    obtain ⟨values, heap', stored, grows, shown⟩ := storeItems_shows heap [] items
    exact ⟨.array values, heap', by rw [store, stored]; rfl, grows, values, rfl, shown⟩
  | .dict entries => by
    obtain ⟨cell, heap', stored, grows, shown⟩ := storeEntries_shows heap [] entries
    have further := Grows.alloc heap' cell
    exact ⟨.dict (heap'.alloc cell).1, (heap'.alloc cell).2, by rw [store, stored]; rfl,
      grows.trans further, _, cell, rfl, Array.getElem?_push_size, shown.grown further⟩

/-- The items of an array are stored in order behind those done already, each in the
heap that the one before has left. -/
theorem storeItems_shows (heap : Heap) (done : List Value) : (items : List Datum) →
    ∃ values heap', heap.storeItems done items = (done.reverse ++ values, heap')
      ∧ heap.Grows heap' ∧ heap'.ShowsItems values items
  | [] => ⟨[], heap, by rw [storeItems, List.append_nil], .refl heap, rfl⟩
  | item :: rest => by
    obtain ⟨value, heap₁, stored, grows, first⟩ := store_shows heap item
    obtain ⟨values, heap₂, storedRest, further, later⟩ := storeItems_shows heap₁ (value :: done) rest
    refine ⟨value :: values, heap₂, ?_, grows.trans further,
      value, values, rfl, first.grown further, later⟩
    simp only [storeItems, stored, storedRest, List.reverse_cons, List.append_assoc,
      List.singleton_append]

/-- The entries of a dictionary, in the same way. A dictionary inside one of them has
its cell before the outer dictionary has its own. -/
theorem storeEntries_shows (heap : Heap) (done : Entries) : (entries : List (String × Datum)) →
    ∃ cell heap', heap.storeEntries done entries = (done.reverse ++ cell, heap')
      ∧ heap.Grows heap' ∧ heap'.ShowsEntries cell entries
  | [] => ⟨[], heap, by rw [storeEntries, List.append_nil], .refl heap, rfl⟩
  | (key, item) :: rest => by
    obtain ⟨value, heap₁, stored, grows, first⟩ := store_shows heap item
    obtain ⟨cell, heap₂, storedRest, further, later⟩ :=
      storeEntries_shows heap₁ ((key, value) :: done) rest
    refine ⟨(key, value) :: cell, heap₂, ?_, grows.trans further,
      value, cell, rfl, first.grown further, later⟩
    simp only [storeEntries, stored, storedRest, List.reverse_cons, List.append_assoc,
      List.singleton_append]

end

end Heap

end VectorPage
