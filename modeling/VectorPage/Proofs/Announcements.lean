/-
Where a page program announces its box.

The box is found by hand-written readers of runs, in one pass. Here the
announcement is described on its own, once as the regular expression of the
comment and once by its four fields, each a run that goes as far as it can. The
two descriptions hold at the same places. What the readers find is the first of
these places, and what stands there is decisive: a box comes from it or none at
all.
-/
import VectorPage.Document.BoundingBox
import VectorPage.Proofs.TextPatterns

set_option autoImplicit false

namespace VectorPage

/-- **A run of a class that goes as far as it can**, before a rest. -/
structure MaximalRun (p : Char → Bool) (run rest : List Char) : Prop where
  present : run ≠ []
  all : ∀ c ∈ run, p c = true
  ends : ∀ c ∈ rest.head?, p c = false

namespace MaximalRun

variable {p : Char → Bool} {run rest : List Char}

theorem takeRun_eq (maximal : MaximalRun p run rest) : takeRun p (run ++ rest) = (run, rest) :=
  VectorPage.takeRun_eq maximal.all maximal.ends

/-- Where a run begins, the longest one is maximal. -/
theorem of_takeRun {cs : List Char} (present : (takeRun p cs).1 ≠ []) :
    MaximalRun p (takeRun p cs).1 (takeRun p cs).2 where
  present := present
  all _ := mem_takeRun
  ends _ := head_takeRun

/-- The first character of a run, with something behind it. -/
theorem head?_append (maximal : MaximalRun p run rest) {c : Char} (head : c ∈ (run ++ rest).head?) :
    p c = true := by
  obtain ⟨d, run, rfl⟩ := List.exists_cons_of_ne_nil maximal.present
  obtain rfl : d = c := by simpa using head
  exact maximal.all d List.mem_cons_self

end MaximalRun

namespace BoundingBox

/-! ## The fields of an announcement -/

/-- **A row of fields at the front of a text**, with white space between them. -/
inductive FieldRow : List (List Char) → List Char → Prop where
  | last {field rest : List Char} (maximal : MaximalRun isFieldChar field rest) :
      FieldRow [field] (field ++ rest)
  | next {field space behind : List Char} {fields : List (List Char)}
      (maximal : MaximalRun isFieldChar field (space ++ behind)) (present : space ≠ [])
      (blank : ∀ c ∈ space, isWhiteSpace c = true) (row : FieldRow fields behind) :
      FieldRow (field :: fields) (field ++ (space ++ behind))

/-- **The comment stands at the front of a text**, with these four fields. -/
def Announces (cs : List Char) (fields : List (List Char)) : Prop :=
  fields.length = 4 ∧ ∃ space row, (∀ c ∈ space, isWhiteSpace c = true) ∧ FieldRow fields row
    ∧ marker ++ (space ++ row) = cs

/-- An announcement needs its marker, so there is none at the end of a text. -/
theorem not_announces_nil (fields : List (List Char)) : ¬ Announces [] fields := by
  rintro ⟨-, space, row, -, -, parts⟩
  have unmarked : marker = [] := (List.append_eq_nil_iff.mp parts).1
  exact absurd unmarked (by decide +kernel)

/-- A field has the characters of a numeral. -/
theorem isFieldChar_eq (c : Char) : isFieldChar c = isNumeralChar c := by
  simp only [isFieldChar, isNumeralChar, isNumeralStart]
  rw [Bool.or_comm (isDigit c)]

/-- The two classes have no character in common. -/
theorem isWhiteSpace_of_isFieldChar {c : Char} (inField : isFieldChar c = true) :
    isWhiteSpace c = false := by
  have ascii := TextPattern.toNat_lt_of_isNumeralChar (isFieldChar_eq c ▸ inField)
  have codes : ∀ n < 128, isFieldChar (Char.ofNat n) = true →
      isWhiteSpace (Char.ofNat n) = false := by decide
  have apart := codes c.toNat ascii
  rw [Char.ofNat_toNat] at apart
  exact apart inField

/-- White space is no part of a field; so fields and the gaps between them can be told
apart by one character. -/
theorem not_isFieldChar_of_isWhiteSpace {c : Char} (blank : isWhiteSpace c = true) :
    isFieldChar c = false := by
  by_contra inField
  rw [isWhiteSpace_of_isFieldChar (by simpa using inField)] at blank
  cases blank

/-- A row begins with a field, so white space in front of it ends there. -/
theorem FieldRow.head?_not_blank {fields : List (List Char)} {row : List Char}
    (isRow : FieldRow fields row) : ∀ c ∈ row.head?, isWhiteSpace c = false := by
  intro c head
  cases isRow with
  | last maximal => exact isWhiteSpace_of_isFieldChar (maximal.head?_append head)
  | next maximal present blank row => exact isWhiteSpace_of_isFieldChar (maximal.head?_append head)

theorem FieldRow.takeRun_space {fields : List (List Char)} {space row : List Char}
    (isRow : FieldRow fields row) (blank : ∀ c ∈ space, isWhiteSpace c = true) :
    takeRun isWhiteSpace (space ++ row) = (space, row) :=
  VectorPage.takeRun_eq blank isRow.head?_not_blank

/-! ## The readers of fields -/

theorem takeField?_eq_some_iff {cs field rest : List Char} :
    takeField? cs = some (field, rest)
      ↔ MaximalRun isFieldChar field rest ∧ field ++ rest = cs := by
  constructor
  · intro taken
    simp only [takeField?, List.isEmpty_iff] at taken
    split at taken
    · cases taken
    · rename_i present
      obtain ⟨rfl, rfl⟩ := Prod.mk.inj (Option.some.inj taken)
      exact ⟨.of_takeRun present, takeRun_append _ _⟩
  · rintro ⟨maximal, rfl⟩
    simp [takeField?, maximal.takeRun_eq, maximal.present]

/-- Before every further field there is a gap, also of any length. -/
theorem takeNextField?_eq_some_iff {cs field rest : List Char} :
    takeNextField? cs = some (field, rest) ↔ ∃ space, space ≠ []
      ∧ (∀ c ∈ space, isWhiteSpace c = true) ∧ MaximalRun isFieldChar field rest
      ∧ space ++ (field ++ rest) = cs := by
  constructor
  · intro taken
    simp only [takeNextField?, List.isEmpty_iff] at taken
    split at taken
    · cases taken
    · rename_i present
      obtain ⟨maximal, parts⟩ := takeField?_eq_some_iff.mp taken
      refine ⟨_, present, fun c => mem_takeRun, maximal, ?_⟩
      rw [parts, takeRun_append]
  · rintro ⟨space, present, blank, maximal, rfl⟩
    have split := (FieldRow.last maximal).takeRun_space blank
    simp [takeNextField?, split, present, takeField?_eq_some_iff.mpr ⟨maximal, rfl⟩]

/-- White space before a field ends the field in front of it. -/
theorem maximalRun_before_space {field space rest : List Char} (present : field ≠ [])
    (all : ∀ c ∈ field, isFieldChar c = true) (gap : space ≠ [])
    (blank : ∀ c ∈ space, isWhiteSpace c = true) :
    MaximalRun isFieldChar field (space ++ rest) := by
  refine ⟨present, all, ?_⟩
  intro c head
  obtain ⟨d, space, rfl⟩ := List.exists_cons_of_ne_nil gap
  obtain rfl : d = c := by simpa using head
  exact not_isFieldChar_of_isWhiteSpace (blank d List.mem_cons_self)

/-- **The reader at a place** finds the fields that the announcement has there. -/
theorem fieldsAt?_eq_some_iff {cs : List Char} {fields : List (List Char)} :
    fieldsAt? cs = some fields ↔ Announces cs fields := by
  constructor
  · intro found
    simp only [fieldsAt?, Option.bind_eq_bind, Option.bind_eq_some_iff, Prod.exists,
      Option.pure_def, Option.some.injEq] at found
    obtain ⟨afterMarker, marked, a, afterA, takenA, b, afterB, takenB, c, afterC, takenC, d, afterD,
      takenD, rfl⟩ := found
    obtain ⟨maximalA, partsA⟩ := takeField?_eq_some_iff.mp takenA
    obtain ⟨gapB, someB, blankB, maximalB, rfl⟩ := takeNextField?_eq_some_iff.mp takenB
    obtain ⟨gapC, someC, blankC, maximalC, rfl⟩ := takeNextField?_eq_some_iff.mp takenC
    obtain ⟨gapD, someD, blankD, maximalD, rfl⟩ := takeNextField?_eq_some_iff.mp takenD
    refine ⟨rfl, _, _, fun c => mem_takeRun, ?_,
      (congrArg (marker ++ ·) (takeRun_append isWhiteSpace afterMarker)).trans
        (List.isPrefixOf?_eq_some_iff_append_eq.mp marked)⟩
    · change FieldRow _ (afterMarker.dropWhile isWhiteSpace)
      rw [← partsA]
      exact .next maximalA someB blankB (.next maximalB someC blankC
        (.next maximalC someD blankD (.last maximalD)))
  · rintro ⟨four, space, row, blank, isRow, rfl⟩
    have lead : (space ++ row).dropWhile isWhiteSpace = row :=
      congrArg Prod.snd (isRow.takeRun_space blank)
    have marked : marker.isPrefixOf? (marker ++ (space ++ row)) = some (space ++ row) :=
      List.isPrefixOf?_eq_some_iff_append_eq.mpr rfl
    -- the length says which constructors the row is made of
    cases isRow with
    | last maximalA => simp at four
    | next maximalA someB blankB row =>
    cases row with
    | last maximalB => simp at four
    | next maximalB someC blankC row =>
    cases row with
    | last maximalC => simp at four
    | next maximalC someD blankD row =>
    cases row with
    | next maximalD someE blankE row => cases row <;> simp at four
    | last maximalD =>
      have takenA := takeField?_eq_some_iff.mpr ⟨maximalA, rfl⟩
      have takenB := takeNextField?_eq_some_iff.mpr ⟨_, someB, blankB, maximalB, rfl⟩
      have takenC := takeNextField?_eq_some_iff.mpr ⟨_, someC, blankC, maximalC, rfl⟩
      have takenD := takeNextField?_eq_some_iff.mpr ⟨_, someD, blankD, maximalD, rfl⟩
      simp [fieldsAt?, marked, lead, takenA, takenB, takenC, takenD]

/-! ## The first announcement -/

/-- **The places of a text** where an announcement stands. -/
def announcedAt (cs : List Char) : Set Nat :=
  { i | ∃ fields, Announces (cs.drop i) fields }

/-- If none stands at the first character, the first place is one of the rest. -/
theorem isLeast_announcedAt_cons {c : Char} {rest : List Char} {i : Nat}
    (unannounced : fieldsAt? (c :: rest) = none) :
    IsLeast (announcedAt (c :: rest)) i ↔ ∃ j, IsLeast (announcedAt rest) j ∧ i = j + 1 := by
  have later : ∀ i ∈ announcedAt (c :: rest), ∃ j ∈ announcedAt rest, i = j + 1 := by
    rintro (_ | j) ⟨fields, announced⟩
    · have found := fieldsAt?_eq_some_iff.mpr announced
      rw [List.drop_zero, unannounced] at found
      cases found
    · exact ⟨j, ⟨fields, announced⟩, rfl⟩
  constructor
  · rintro ⟨mem, least⟩
    obtain ⟨j, mem, rfl⟩ := later i mem
    refine ⟨j, ⟨mem, ?_⟩, rfl⟩
    intro k other
    have le : j + 1 ≤ k + 1 := least other
    omega
  · rintro ⟨j, ⟨mem, least⟩, rfl⟩
    refine ⟨mem, ?_⟩
    intro k other
    obtain ⟨k, other, rfl⟩ := later k other
    exact Nat.succ_le_succ (least other)

/-- **The reader along the text** finds the fields of the first announcement. -/
theorem firstFields?_eq_some_iff {cs : List Char} {fields : List (List Char)} :
    firstFields? cs = some fields
      ↔ ∃ i, IsLeast (announcedAt cs) i ∧ Announces (cs.drop i) fields := by
  induction cs with
  | nil =>
    constructor
    · intro found
      cases found
    · rintro ⟨i, -, announced⟩
      rw [List.drop_nil] at announced
      exact absurd announced (not_announces_nil fields)
  | cons c rest ih =>
    rw [firstFields?]
    cases here : fieldsAt? (c :: rest) with
    | some found =>
      have announced : Announces (c :: rest) found := fieldsAt?_eq_some_iff.mp here
      have least : IsLeast (announcedAt (c :: rest)) 0 :=
        ⟨⟨found, announced⟩, fun _ _ => Nat.zero_le _⟩
      constructor
      · rintro ⟨⟩
        exact ⟨0, least, announced⟩
      · rintro ⟨i, first, other⟩
        obtain rfl : i = 0 := first.unique least
        exact here.symm.trans (fieldsAt?_eq_some_iff.mpr other)
    | none =>
      simp only [isLeast_announcedAt_cons here, ih]
      constructor
      · rintro ⟨j, first, announced⟩
        exact ⟨j + 1, ⟨j, first, rfl⟩, announced⟩
      · rintro ⟨_, ⟨j, first, rfl⟩, announced⟩
        exact ⟨j, first, announced⟩

-- four fields do not follow the first marker
example : firstFields? "%%BoundingBox: (atend)\n%%BoundingBox:0 -10\t200.5\n 1.2.3)".toList
    = some ["0".toList, "-10".toList, "200.5".toList, "1.2.3".toList] := by decide +kernel

/-- Nothing is found just if there is no announcement at any place of the text. -/
theorem firstFields?_eq_none_iff {cs : List Char} :
    firstFields? cs = none ↔ announcedAt cs = ∅ := by
  constructor
  · intro absent
    by_contra announced
    have places : ∃ i, i ∈ announcedAt cs := Set.nonempty_iff_ne_empty.mpr announced
    classical
    obtain ⟨fields, first⟩ := Nat.find_spec places
    have least : IsLeast (announcedAt cs) (Nat.find places) :=
      ⟨⟨fields, first⟩, fun _ => Nat.find_min' places⟩
    rw [firstFields?_eq_some_iff.mpr ⟨_, least, first⟩] at absent
    cases absent
  · intro empty
    by_contra present
    obtain ⟨fields, found⟩ := Option.ne_none_iff_exists'.mp present
    obtain ⟨i, first, -⟩ := firstFields?_eq_some_iff.mp found
    rw [empty] at first
    exact first.1

/-! ## The regular expression -/

/-- The characters with the Unicode property White_Space. -/
def whiteSpaces : List Char :=
  [' ', '\t', '\n', '\r', '\x0b', '\x0c', '\u0085', '\u00a0', '\u1680', '\u2000', '\u2001',
   '\u2002', '\u2003', '\u2004', '\u2005', '\u2006', '\u2007', '\u2008', '\u2009', '\u200a',
   '\u2028', '\u2029', '\u202f', '\u205f', '\u3000']

/-- The characters of a field, `[-+0-9.eE]`. -/
def fieldChars : List Char :=
  '-' :: '+' :: TextPattern.digits ++ ['.', 'e', 'E']

/-- The characters listed for a pattern are those that the reader takes for white
space. -/
theorem mem_whiteSpaces {c : Char} : c ∈ whiteSpaces ↔ isWhiteSpace c = true := by
  constructor
  · intro mem
    have all : whiteSpaces.all isWhiteSpace = true := by decide
    exact List.all_eq_true.mp all c mem
  · intro blank
    rw [isWhiteSpace, Bool.or_eq_true, List.any_eq_true] at blank
    rcases blank with blank | ⟨⟨lo, hi⟩, range, inside⟩
    · simp only [isBlank, Bool.or_eq_true, beq_iff_eq] at blank
      simp only [whiteSpaces, List.mem_cons]
      tauto
    · rw [Bool.and_eq_true, decide_eq_true_iff, decide_eq_true_iff] at inside
      have codes : ∀ r ∈ wideSpaceRanges, ∀ n ∈ List.range' r.1 (r.2 + 1 - r.1),
          Char.ofNat n ∈ whiteSpaces := by decide
      have listed := codes _ range c.toNat (List.mem_range'_1.mpr (by omega))
      rwa [Char.ofNat_toNat] at listed

theorem mem_fieldChars {c : Char} : c ∈ fieldChars ↔ isFieldChar c = true := by
  simp only [fieldChars, isFieldChar, isSign, List.cons_append, List.mem_cons, List.mem_append,
    TextPattern.mem_digits, List.not_mem_nil, or_false, Bool.or_eq_true, beq_iff_eq]
  tauto

/-- Fields with white space between them: as many gaps as the number says. -/
def fieldRow : Nat → TextPattern
  | 0 => .run fieldChars
  | gaps + 1 => .run fieldChars * (.run whiteSpaces * fieldRow gaps)

/-- **The comment**, `%%BoundingBox:\s*F\s+F\s+F\s+F` with fields `[-+0-9.eE]+` for `F`. -/
def announcement : TextPattern :=
  .word marker * (.many whiteSpaces * fieldRow 3)

theorem matches_field {cs : List Char} :
    (TextPattern.run fieldChars).Matches cs ↔ cs ≠ [] ∧ ∀ c ∈ cs, isFieldChar c = true := by
  simp only [TextPattern.matches_run, mem_fieldChars]

theorem matches_gap {cs : List Char} :
    (TextPattern.run whiteSpaces).Matches cs ↔ cs ≠ [] ∧ ∀ c ∈ cs, isWhiteSpace c = true := by
  simp only [TextPattern.matches_run, mem_whiteSpaces]

/-- A row of fields begins with a match. -/
theorem FieldRow.exists_match {fields : List (List Char)} {row : List Char}
    (isRow : FieldRow fields row) {gaps : Nat} (count : fields.length = gaps + 1) :
    ∃ front, front <+: row ∧ (fieldRow gaps).Matches front := by
  induction isRow generalizing gaps with
  | last maximal =>
    obtain rfl : gaps = 0 := by simpa using count.symm
    exact ⟨_, List.prefix_append _ _, matches_field.mpr ⟨maximal.present, maximal.all⟩⟩
  | @next field space behind fields maximal present blank row ih =>
    have more : 0 < fields.length := by cases row <;> simp
    rw [List.length_cons] at count
    obtain ⟨gaps, rfl⟩ : ∃ fewer, gaps = fewer + 1 := Nat.exists_eq_succ_of_ne_zero (by omega)
    obtain ⟨front, ⟨rest, rfl⟩, isMatch⟩ := ih (Nat.succ.inj count)
    refine ⟨field ++ (space ++ front), ⟨rest, by simp only [List.append_assoc]⟩, ?_⟩
    exact TextPattern.matches_mul.mpr ⟨_, _, matches_field.mpr ⟨maximal.present, maximal.all⟩,
      TextPattern.matches_mul.mpr ⟨_, _, matches_gap.mpr ⟨present, blank⟩, isMatch, rfl⟩, rfl⟩

/-- **Where a match stands, a row does.** Only the last field can be longer than
what was matched: white space ends the others. -/
theorem exists_fieldRow {gaps : Nat} {front : List Char} (isMatch : (fieldRow gaps).Matches front)
    (rest : List Char) : ∃ fields, FieldRow fields (front ++ rest) ∧ fields.length = gaps + 1 := by
  induction gaps generalizing front with
  | zero =>
    obtain ⟨present, all⟩ := matches_field.mp isMatch
    have longest := takeRun_append_of_all all rest
    have maximal : MaximalRun isFieldChar (takeRun isFieldChar (front ++ rest)).1
        (takeRun isFieldChar (front ++ rest)).2 := .of_takeRun (by simp [longest, present])
    have row := FieldRow.last maximal
    rw [takeRun_append] at row
    exact ⟨_, row, rfl⟩
  | succ gaps ih =>
    obtain ⟨field, _, isField, later, rfl⟩ := TextPattern.matches_mul.mp isMatch
    obtain ⟨space, front, isGap, fewer, rfl⟩ := TextPattern.matches_mul.mp later
    obtain ⟨present, all⟩ := matches_field.mp isField
    obtain ⟨some, blank⟩ := matches_gap.mp isGap
    obtain ⟨fields, row, count⟩ := ih fewer
    refine ⟨field :: fields, ?_, by rw [List.length_cons, count]⟩
    rw [List.append_assoc, List.append_assoc]
    exact .next (maximalRun_before_space present all some blank) some blank row

/-- **An announcement stands exactly where the expression matches.** -/
theorem exists_announces_iff {cs : List Char} :
    (∃ fields, Announces cs fields) ↔ ∃ front, front <+: cs ∧ announcement.Matches front := by
  constructor
  · rintro ⟨fields, count, space, row, blank, isRow, rfl⟩
    obtain ⟨front, ⟨rest, rfl⟩, isMatch⟩ := isRow.exists_match count
    refine ⟨marker ++ (space ++ front), ⟨rest, by simp only [List.append_assoc]⟩, ?_⟩
    have lead : (TextPattern.many whiteSpaces).Matches space := by
      simpa only [TextPattern.matches_many, mem_whiteSpaces] using blank
    exact TextPattern.matches_mul.mpr ⟨_, _, TextPattern.matches_word.mpr rfl,
      TextPattern.matches_mul.mpr ⟨_, _, lead, isMatch, rfl⟩, rfl⟩
  · rintro ⟨_, ⟨rest, rfl⟩, isMatch⟩
    obtain ⟨_, _, marked, later, rfl⟩ := TextPattern.matches_mul.mp isMatch
    obtain ⟨space, front, lead, four, rfl⟩ := TextPattern.matches_mul.mp later
    obtain rfl := TextPattern.matches_word.mp marked
    obtain ⟨fields, row, count⟩ := exists_fieldRow four rest
    refine ⟨fields, count, space, front ++ rest, ?_, row, by simp only [List.append_assoc]⟩
    simpa only [TextPattern.matches_many, mem_whiteSpaces] using lead

/-! ## The box -/

/-- **A box from its fields**: there are four, and each of them is a number. One that is
none leaves no box at all, rather than a default. -/
theorem ofFields?_eq_some_iff {fields : List (List Char)} {b : BoundingBox} :
    ofFields? fields = some b ↔ ∃ left bottom right top, fields = [left, bottom, right, top]
      ∧ Numeral.read? left = some b.left ∧ Numeral.read? bottom = some b.bottom
      ∧ Numeral.read? right = some b.right ∧ Numeral.read? top = some b.top := by
  constructor
  · intro given
    unfold ofFields? at given
    split at given
    · rename_i left bottom right top values
      obtain rfl := Option.some.inj given
      obtain ⟨l, _, rfl, isLeft, values⟩ := List.map_eq_cons_iff.mp values
      obtain ⟨m, _, rfl, isBottom, values⟩ := List.map_eq_cons_iff.mp values
      obtain ⟨r, _, rfl, isRight, values⟩ := List.map_eq_cons_iff.mp values
      obtain ⟨t, _, rfl, isTop, values⟩ := List.map_eq_cons_iff.mp values
      obtain rfl := List.map_eq_nil_iff.mp values
      exact ⟨l, m, r, t, rfl, isLeft, isBottom, isRight, isTop⟩
    · cases given
  · rintro ⟨left, bottom, right, top, rfl, isLeft, isBottom, isRight, isTop⟩
    simp [ofFields?, isLeft, isBottom, isRight, isTop]

/-- Four fields that are numbers give a box. -/
theorem exists_ofFields? {fields : List (List Char)} (four : fields.length = 4)
    (numbers : ∀ field ∈ fields, TextPattern.decimal.Matches field) :
    ∃ b, ofFields? fields = some b := by
  have values : ∀ field ∈ fields, ∃ x, Numeral.read? field = some x := fun field mem =>
    Option.isSome_iff_exists.mp (Numeral.isSome_read?_iff.mpr (numbers field mem))
  obtain ⟨left, bottom, right, top, rfl⟩ : ∃ a b c d, fields = [a, b, c, d] :=
    List.length_eq_four.mp four
  obtain ⟨l, isLeft⟩ := values left (by simp)
  obtain ⟨m, isBottom⟩ := values bottom (by simp)
  obtain ⟨r, isRight⟩ := values right (by simp)
  obtain ⟨t, isTop⟩ := values top (by simp)
  exact ⟨⟨l, m, r, t⟩, ofFields?_eq_some_iff.mpr
    ⟨left, bottom, right, top, rfl, isLeft, isBottom, isRight, isTop⟩⟩

/-- **One field that is no number** leaves no box. -/
theorem ofFields?_eq_none {fields : List (List Char)} {field : List Char} (mem : field ∈ fields)
    (noNumber : ¬ TextPattern.decimal.Matches field) : ofFields? fields = none := by
  by_contra given
  obtain ⟨b, given⟩ := Option.ne_none_iff_exists'.mp given
  obtain ⟨left, bottom, right, top, rfl, isLeft, isBottom, isRight, isTop⟩ :=
    ofFields?_eq_some_iff.mp given
  refine noNumber (Numeral.isSome_read?_iff.mp ?_)
  simp only [List.mem_cons, List.not_mem_nil, or_false] at mem
  rcases mem with rfl | rfl | rfl | rfl
  · exact Option.isSome_of_eq_some isLeft
  · exact Option.isSome_of_eq_some isBottom
  · exact Option.isSome_of_eq_some isRight
  · exact Option.isSome_of_eq_some isTop

/-- **The first announcement decides.** A program has a box exactly if it has an
announcement and the four fields of the first one are numbers, which are then
the sides of the box in order. It has none exactly if nothing is announced, or
if a field of the first announcement is no number, whatever is announced behind
it. The places of announcements are those where the regular expression matches;
the marker alone, with something else behind it, is no such place. -/
theorem first_announcement_decides (source : String) :
    (∀ b, find? source = some b ↔ ∃ i left bottom right top,
      IsLeast (announcedAt source.toList) i
        ∧ Announces (source.toList.drop i) [left, bottom, right, top]
        ∧ Numeral.read? left = some b.left ∧ Numeral.read? bottom = some b.bottom
        ∧ Numeral.read? right = some b.right ∧ Numeral.read? top = some b.top)
    ∧ (find? source = none ↔ announcedAt source.toList = ∅ ∨ ∃ i fields,
      IsLeast (announcedAt source.toList) i ∧ Announces (source.toList.drop i) fields
        ∧ ∃ field ∈ fields, ¬ TextPattern.decimal.Matches field)
    ∧ announcedAt source.toList
      = { i | ∃ front, front <+: source.toList.drop i ∧ announcement.Matches front } := by
  refine ⟨fun b => ?_, ?_, ?_⟩
  · rw [find?, Option.bind_eq_some_iff]
    constructor
    · rintro ⟨fields, found, given⟩
      obtain ⟨i, first, announced⟩ := firstFields?_eq_some_iff.mp found
      obtain ⟨left, bottom, right, top, rfl, sides⟩ := ofFields?_eq_some_iff.mp given
      exact ⟨i, left, bottom, right, top, first, announced, sides⟩
    · rintro ⟨i, left, bottom, right, top, first, announced, sides⟩
      exact ⟨_, firstFields?_eq_some_iff.mpr ⟨i, first, announced⟩,
        ofFields?_eq_some_iff.mpr ⟨left, bottom, right, top, rfl, sides⟩⟩
  · constructor
    · intro absent
      cases found : firstFields? source.toList with
      | none => exact .inl (firstFields?_eq_none_iff.mp found)
      | some fields =>
        obtain ⟨i, first, announced⟩ := firstFields?_eq_some_iff.mp found
        refine .inr ⟨i, fields, first, announced, ?_⟩
        -- were all fields numbers, there would be a box
        by_contra numbers
        push Not at numbers
        obtain ⟨b, given⟩ := exists_ofFields? announced.1 numbers
        rw [find?, found, Option.bind_some, given] at absent
        cases absent
    · rintro (unannounced | ⟨i, fields, first, announced, field, mem, noNumber⟩)
      · rw [find?, firstFields?_eq_none_iff.mpr unannounced, Option.bind_none]
      · rw [find?, firstFields?_eq_some_iff.mpr ⟨i, first, announced⟩, Option.bind_some,
          ofFields?_eq_none mem noNumber]
  · -- the reader and the pattern agree at every place
    ext i
    exact exists_announces_iff

end BoundingBox

end VectorPage
