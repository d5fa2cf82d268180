/-
Association lists with one entry a key.
-/
set_option autoImplicit false

namespace VectorPage

variable {κ α : Type} [DecidableEq κ]

/-- Sets a key: its entry is replaced where it stands, or a new one is added
at the end. -/
def setEntry (key : κ) (value : α) : List (κ × α) → List (κ × α)
  | [] => [(key, value)]
  | (k, v) :: rest =>
    if k = key then (key, value) :: rest else (k, v) :: setEntry key value rest

/-- Setting a key changes what that key is bound to, and nothing else. -/
theorem lookup_setEntry (key k : κ) (value : α) (entries : List (κ × α)) :
    (setEntry key value entries).lookup k = if k = key then some value else entries.lookup k := by
  induction entries with
  | nil =>
    simp only [setEntry, List.lookup_cons, List.lookup_nil]
    split <;> simp_all
  | cons entry rest ih =>
    obtain ⟨k', v'⟩ := entry
    by_cases same : k' = key
    · simp only [setEntry, same, if_true, List.lookup_cons]
      split <;> simp_all
    · simp only [setEntry, same, if_false, List.lookup_cons, ih]
      split <;> simp_all

/-- An entry afterwards is the one that was set, or an old one. -/
theorem mem_setEntry {key : κ} {value : α} {entries : List (κ × α)} {entry : κ × α}
    (mem : entry ∈ setEntry key value entries) : entry = (key, value) ∨ entry ∈ entries := by
  induction entries with
  | nil => exact .inl (List.mem_singleton.mp mem)
  | cons first rest ih =>
    rw [setEntry] at mem
    split at mem
    · exact (List.mem_cons.mp mem).imp_right (List.mem_cons_of_mem first)
    · rcases List.mem_cons.mp mem with rfl | mem
      · exact .inr List.mem_cons_self
      · exact (ih mem).imp_right (List.mem_cons_of_mem _)

end VectorPage
