/-
Literals as they are written.

An array holds numbers, strings, names and arrays. A dictionary holds entries,
each a name and a value, and a value may also be a bare word, a procedure whose
braces pair up, or a dictionary. The types below are this grammar, so that
nothing outside of it can be written; from them come the tokens of a literal, how
deeply it is nested, and the value that it denotes.

A literal may also be cut: the literals inside it that are nested too deeply are
removed. An array closes up over a removed element. For a dictionary there are
two ways to go on without a value: its entry can be dropped, or what is left of
the entries, names and values in order, can be paired up anew. `Pairing` stands
for either. They give the same entries if nothing is removed before the last
value.
-/
import VectorPage.Literal

set_option autoImplicit false

namespace VectorPage

/-! ## The grammar -/

/-- Tokens whose braces pair up. -/
inductive Balanced : List Token → Prop where
  | nil : Balanced []
  | token {t : Token} {rest : List Token} (opening : t ≠ .openBrace) (closing : t ≠ .closeBrace) :
      Balanced rest → Balanced (t :: rest)
  | braces {inner rest : List Token} :
      Balanced inner → Balanced rest → Balanced (.openBrace :: (inner ++ .closeBrace :: rest))

/-- A value that is one token, in arrays and dictionaries alike. -/
inductive Scalar where
  | number (text : String)
  | string (s : String)
  | hexString (s : String)
  | name (s : String)

/-- What stands in an array. -/
inductive Element where
  | scalar (x : Scalar)
  | array (elements : List Element)

/-- What stands for the value of an entry. -/
inductive Content where
  | scalar (x : Scalar)
  | word (s : String)
  | procedure (body : List Token) (balanced : Balanced body)
  | array (elements : List Element)
  | dict (entries : List (String × Content))

/-- **A literal**, an array or a dictionary. -/
inductive Written where
  | array (elements : List Element)
  | dict (entries : List (String × Content))

/-! ## Tokens -/

def Scalar.token : Scalar → Token
  | number text => .number text
  | string s => .string s
  | hexString s => .hexString s
  | name s => .name s

namespace Element

mutual

def tokens : Element → List Token
  | scalar x => [x.token]
  | array elements => .openBracket :: (allTokens elements ++ [.closeBracket])

def allTokens : List Element → List Token
  | [] => []
  | e :: rest => e.tokens ++ allTokens rest

end

end Element

namespace Content

mutual

def tokens : Content → List Token
  | scalar x => [x.token]
  | word s => [.operator s]
  | procedure body _ => .openBrace :: (body ++ [.closeBrace])
  | array elements => .openBracket :: (Element.allTokens elements ++ [.closeBracket])
  | dict entries => .openDict :: (entryTokens entries ++ [.closeDict])

def entryTokens : List (String × Content) → List Token
  | [] => []
  | (key, value) :: rest => .name key :: (value.tokens ++ entryTokens rest)

end

end Content

namespace Written

/-- The literal just opened. -/
def opening : Written → OpenLiteral
  | array _ => .array []
  | dict _ => .dict [] none

/-- **The tokens after the opening bracket**, the closing one included. -/
def inside : Written → List Token
  | array elements => Element.allTokens elements ++ [.closeBracket]
  | dict entries => Content.entryTokens entries ++ [.closeDict]

end Written

/-! ## Nesting -/

namespace Element

mutual

/-- How many literals are open at once; a literal counts itself. -/
def depth : Element → Nat
  | scalar _ => 0
  | array elements => maxDepth elements + 1

def maxDepth : List Element → Nat
  | [] => 0
  | e :: rest => max e.depth (maxDepth rest)

end

end Element

namespace Content

mutual

/-- How many literals are open at once. What stands in a procedure is no
literal yet. -/
def depth : Content → Nat
  | scalar _ | word _ | procedure _ _ => 0
  | array elements => Element.maxDepth elements + 1
  | dict entries => maxDepth entries + 1

def maxDepth : List (String × Content) → Nat
  | [] => 0
  | (_, value) :: rest => max value.depth (maxDepth rest)

end

end Content

/-- **The nesting depth of a literal.** -/
def Written.depth : Written → Nat
  | array elements => Element.maxDepth elements + 1
  | dict entries => Content.maxDepth entries + 1

/-! ## Values -/

def Scalar.datum : Scalar → Datum
  | number text => .number (numeralValue text)
  | string s | hexString s => .text s
  | name s => .name s

namespace Element

mutual

/-- The value of an element; an array has its elements in order. -/
def datum : Element → Datum
  | scalar x => x.datum
  | array elements => .array (data elements)

def data : List Element → List Datum
  | [] => []
  | e :: rest => e.datum :: data rest

end

end Element

/-- The entries of a dictionary, from bindings one after the other. A later
binding of a key takes the place of an earlier one. -/
def bindings (entries : List (String × Datum)) : List (String × Datum) :=
  entries.foldl (fun done entry => setEntry entry.1 entry.2 done) []

namespace Content

mutual

/-- The value of an entry. A bare word stands for its name, a procedure for its
tokens as they are. -/
def datum : Content → Datum
  | scalar x => x.datum
  | word s => .name s
  | procedure body _ => .procedure body
  | array elements => .array (Element.data elements)
  | dict entries => .dict (bindings (data entries))

def data : List (String × Content) → List (String × Datum)
  | [] => []
  | (key, value) :: rest => (key, value.datum) :: data rest

end

end Content

/-- **The value that a literal denotes.** -/
def Written.datum : Written → Datum
  | array elements => .array (Element.data elements)
  | dict entries => .dict (bindings (Content.data entries))

/-- **The last binding of a key wins.** -/
theorem lookup_bindings (entries : List (String × Datum)) (key : String) :
    (bindings entries).lookup key = entries.reverse.lookup key := by
  have onto : ∀ done : List (String × Datum),
      (entries.foldl (fun done entry => setEntry entry.1 entry.2 done) done).lookup key
        = (entries.reverse.lookup key).or (done.lookup key) := by
    induction entries with
    | nil => simp
    | cons entry rest ih =>
      intro done
      rw [List.foldl_cons, ih, lookup_setEntry, List.reverse_cons, List.lookup_append,
        Option.or_assoc, List.lookup_cons, List.lookup_nil]
      by_cases same : key = entry.1
      · simp [same]
      · simp [same, beq_false_of_ne same]
  rw [bindings, onto, List.lookup_nil, Option.or_none]

/-! ## Cutting

What may be opened further is counted down on the way in; where it is zero, a
literal is removed. -/

namespace Element

mutual

/-- An element without what is nested too deeply in it; nothing, if it is
nested too deeply itself. -/
def cut (room : Nat) : Element → Option Element
  | scalar x => some (scalar x)
  | array elements =>
    match room with
    | 0 => none
    | room + 1 => some (array (cutAll room elements))

def cutAll (room : Nat) : List Element → List Element
  | [] => []
  | e :: rest => (e.cut room).toList ++ cutAll room rest

end

end Element

/-- How entries go on without the values that were removed from them. -/
abbrev Pairing := List (String × Option Content) → List (String × Content)

/-- A removed value takes its entry with it. -/
def dropped : Pairing :=
  List.filterMap fun entry => entry.2.map fun value => (entry.1, value)

/-- Names and values in order, paired up from the left: a name is a key when none
is waiting, and any other value is then dropped. -/
def pairUp : Option String → List Content → List (String × Content)
  | _, [] => []
  | some key, value :: rest => (key, value) :: pairUp none rest
  | none, .scalar (.name s) :: rest => pairUp (some s) rest
  | none, _ :: rest => pairUp none rest

/-- What is left of an entry. -/
def leftOver (entry : String × Option Content) : List Content :=
  .scalar (.name entry.1) :: entry.2.toList

/-- A removed value leaves its key behind, and what is left is paired up. -/
def pairedAnew : Pairing := fun entries => pairUp none (entries.flatMap leftOver)

namespace Content

mutual

/-- The value of an entry without what is nested too deeply in it; nothing, if
it is nested too deeply itself. -/
def cut (pair : Pairing) (room : Nat) : Content → Option Content
  | scalar x => some (scalar x)
  | word s => some (word s)
  | procedure body balanced => some (procedure body balanced)
  | array elements =>
    match room with
    | 0 => none
    | room + 1 => some (array (Element.cutAll room elements))
  | dict entries =>
    match room with
    | 0 => none
    | room + 1 => some (dict (pair (cutAll pair room entries)))

def cutAll (pair : Pairing) (room : Nat) :
    List (String × Content) → List (String × Option Content)
  | [] => []
  | (key, value) :: rest => (key, value.cut pair room) :: cutAll pair room rest

end

end Content

/-- **The literal without what is nested deeper than a limit.** -/
def Written.cut (pair : Pairing) (limit : Nat) : Written → Written
  | array elements => array (Element.cutAll (limit - 1) elements)
  | dict entries => dict (pair (Content.cutAll pair (limit - 1) entries))

/-! ### Where nothing is removed -/

namespace Element

mutual

/-- **What is not too deep is left whole.** By recursion on the element; the room gets
less as the elements inside get shallower. -/
theorem cut_of_depth_le {room : Nat} : (e : Element) → e.depth ≤ room → e.cut room = some e
  | scalar _, _ => rfl
  | array elements, shallow => by
    cases room with
    | zero => simp [depth] at shallow
    | succ room =>
      rw [cut, cutAll_of_maxDepth_le elements (Nat.le_of_succ_le_succ shallow)]

theorem cutAll_of_maxDepth_le {room : Nat} :
    (elements : List Element) → maxDepth elements ≤ room → cutAll room elements = elements
  | [], _ => rfl
  | e :: rest, shallow => by
    rw [maxDepth, Nat.max_le] at shallow
    rw [cutAll, cut_of_depth_le e shallow.1, cutAll_of_maxDepth_le rest shallow.2]
    rfl

end

end Element

/-- Entries that kept all their values are paired up as they were. -/
theorem pairedAnew_of_kept (entries : List (String × Content)) :
    pairedAnew (entries.map fun entry => (entry.1, some entry.2)) = entries := by
  induction entries with
  | nil => rfl
  | cons entry rest ih =>
    obtain ⟨key, value⟩ := entry
    exact congrArg ((key, value) :: ·) ih

namespace Content

mutual

theorem cut_of_depth_le {room : Nat} :
    (v : Content) → v.depth ≤ room → v.cut pairedAnew room = some v
  | scalar _, _ | word _, _ | procedure _ _, _ => rfl
  | array elements, shallow => by
    cases room with
    | zero => simp [depth] at shallow
    | succ room =>
      rw [cut, Element.cutAll_of_maxDepth_le elements (Nat.le_of_succ_le_succ shallow)]
  | dict entries, shallow => by
    cases room with
    | zero => simp [depth] at shallow
    | succ room =>
      rw [cut, cutAll_of_maxDepth_le entries (Nat.le_of_succ_le_succ shallow),
        pairedAnew_of_kept]

/-- Of entries in a row none loses its value, so they are paired as they were
written. -/
theorem cutAll_of_maxDepth_le {room : Nat} :
    (entries : List (String × Content)) → maxDepth entries ≤ room →
      cutAll pairedAnew room entries = entries.map fun entry => (entry.1, some entry.2)
  | [], _ => rfl
  | (key, value) :: rest, shallow => by
    rw [maxDepth, Nat.max_le] at shallow
    rw [cutAll, cut_of_depth_le value shallow.1, cutAll_of_maxDepth_le rest shallow.2]
    rfl

end

end Content

/-- **A literal that is nested within the limit is not cut.** -/
theorem Written.cut_of_depth_le {limit : Nat} (w : Written) (shallow : w.depth ≤ limit) :
    w.cut pairedAnew limit = w := by
  cases w with
  | array elements =>
    rw [cut, Element.cutAll_of_maxDepth_le elements (Nat.le_sub_one_of_lt shallow)]
  | dict entries =>
    rw [cut, Content.cutAll_of_maxDepth_le entries (Nat.le_sub_one_of_lt shallow),
      pairedAnew_of_kept]

/-! ### Where only last values are removed -/

namespace Content

mutual

/-- In no dictionary that is left is a value removed before the last one. -/
def LosesLastOnly (room : Nat) : Content → Prop
  | scalar _ | word _ | procedure _ _ | array _ => True
  | dict entries =>
    match room with
    | 0 => True
    | room + 1 => EachLosesLastOnly room entries

def EachLosesLastOnly (room : Nat) : List (String × Content) → Prop
  | [] => True
  | (_, value) :: rest =>
    value.LosesLastOnly room ∧ (room = 0 → 0 < value.depth → rest = [])
      ∧ EachLosesLastOnly room rest

end

/-- A literal is left out just if there is no room for it; what is no literal always
stays. -/
theorem cut_eq_none_iff {pair : Pairing} {room : Nat} (v : Content) :
    v.cut pair room = none ↔ room = 0 ∧ 0 < v.depth := by
  cases v with
  | scalar _ | word _ | procedure _ _ => simp [cut, depth]
  | array _ | dict _ => cases room <;> simp [cut, depth]

mutual

/-- **Pairing anew makes no difference** where only last values are lost: a key at the
end without a value is dropped in either way. -/
theorem cut_of_losesLastOnly {room : Nat} : (v : Content) → v.LosesLastOnly room →
    v.cut pairedAnew room = v.cut dropped room
  | scalar _, _ | word _, _ | procedure _ _, _ => rfl
  | array _, _ => by cases room <;> rfl
  | dict entries, last => by
    cases room with
    | zero => rfl
    | succ room =>
      obtain ⟨same, paired⟩ := cutAll_of_losesLastOnly entries last
      rw [cut, cut, same, paired]

/-- The entries of one dictionary, and of those inside them. -/
theorem cutAll_of_losesLastOnly {room : Nat} : (entries : List (String × Content)) →
    EachLosesLastOnly room entries →
    cutAll pairedAnew room entries = cutAll dropped room entries
    ∧ pairedAnew (cutAll dropped room entries) = dropped (cutAll dropped room entries)
  | [], _ => ⟨rfl, rfl⟩
  | (key, value) :: rest, ⟨inner, last, later⟩ => by
    obtain ⟨same, paired⟩ := cutAll_of_losesLastOnly rest later
    refine ⟨by rw [cutAll, cutAll, cut_of_losesLastOnly value inner, same], ?_⟩
    rw [cutAll]
    cases removed : value.cut dropped room with
    | some left => exact congrArg ((key, left) :: ·) paired
    | none =>
      -- a key that is left over at the end waits for nothing
      obtain ⟨empty, deep⟩ := (cut_eq_none_iff value).mp removed
      rw [last empty deep]
      rfl

end

end Content

/-- In no dictionary that is left is a value removed before the last one. -/
def Written.LosesLastOnly (limit : Nat) : Written → Prop
  | array _ => True
  | dict entries => Content.EachLosesLastOnly (limit - 1) entries

/-- **If only last values are removed**, dropping entries and pairing anew are
the same. -/
theorem Written.cut_of_losesLastOnly {limit : Nat} (w : Written) (last : w.LosesLastOnly limit) :
    w.cut pairedAnew limit = w.cut dropped limit := by
  cases w with
  | array _ => rfl
  | dict entries =>
    obtain ⟨same, paired⟩ := Content.cutAll_of_losesLastOnly entries last
    rw [cut, cut, same, paired]

end VectorPage
