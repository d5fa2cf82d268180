/-
Path data can be read in one way only.

The data of a path are words parted by single blanks: letters, numbers and flags in one
row, with nothing to show where a segment ends. Two facts make them readable. No word
has a blank in it, since numbers are written as numerals, so the text determines the
words. And a letter says how many words belong to it, so the words determine the
segments, one after the other from the left.

What cannot be read off is which number stood behind a text. Segments are alike if they
differ in no more than that.
-/
import VectorPage.Proofs.NumberTexts

set_option autoImplicit false

namespace VectorPage

/-! ## From the text to the words -/

/-- **Words without blanks** are found again between the blanks. -/
theorem splitOn_intercalate_blank {words : List String} (present : words ≠ [])
    (single : ∀ w ∈ words, ' ' ∉ w.toList) :
    (" ".intercalate words).toList.splitOn ' ' = words.map String.toList := by
  rw [String.toList_intercalate]
  refine List.splitOn_intercalate ' ' ?_ ?_
  · intro cs mem
    obtain ⟨w, listed, rfl⟩ := List.mem_map.mp mem
    exact single w listed
  · simpa using present

/-- Words without blanks are told from the text that they make with blanks in
between. -/
theorem intercalate_blank_inj {words words' : List String} (present : words ≠ [])
    (present' : words' ≠ []) (single : ∀ w ∈ words, ' ' ∉ w.toList)
    (single' : ∀ w ∈ words', ' ' ∉ w.toList)
    (same : " ".intercalate words = " ".intercalate words') : words = words' := by
  have parts := splitOn_intercalate_blank present single
  rw [same, splitOn_intercalate_blank present' single'] at parts
  exact List.map_injective_iff.mpr (fun _ _ => String.toList_inj.mp) parts.symm

/-- A number has no blank in it. -/
theorem blank_notMem_numberText (x : Float) : ' ' ∉ (numberText x).toList := by
  intro mem
  exact absurd ((isNumeral_numberText x).mem ' ' mem) (by decide)

/-! ## Segments by their parts -/

/-- The kinds of segments. -/
inductive SegmentKind where
  | moveTo | moveBy | lineTo | lineBy | curveTo | curveBy | arcTo | close
  deriving DecidableEq

namespace SegmentKind

/-- The letter of a kind: a small one if the segment is relative. -/
def letter : SegmentKind → String
  | moveTo => "M"
  | moveBy => "m"
  | lineTo => "L"
  | lineBy => "l"
  | curveTo => "C"
  | curveBy => "c"
  | arcTo => "A"
  | close => "Z"

/-- How many numbers a segment of the kind has. -/
def numberCount : SegmentKind → ℕ
  | moveTo | moveBy | lineTo | lineBy => 2
  | curveTo | curveBy => 6
  | arcTo => 5
  | close => 0

/-- How many flags a segment of the kind has. -/
def flagCount : SegmentKind → ℕ
  | arcTo => 2
  | _ => 0

theorem letter_injective : Function.Injective letter := by
  intro k k'
  cases k <;> cases k' <;> decide

theorem letter_ne_empty (k : SegmentKind) : k.letter ≠ "" := by
  cases k <;> decide

theorem blank_notMem_letter (k : SegmentKind) : ' ' ∉ k.letter.toList := by
  cases k <;> decide

end SegmentKind

namespace Segment

def kind : Segment → SegmentKind
  | moveTo _ _ => .moveTo
  | moveBy _ _ => .moveBy
  | lineTo _ _ => .lineTo
  | lineBy _ _ => .lineBy
  | curveTo _ _ _ _ _ _ => .curveTo
  | curveBy _ _ _ _ _ _ => .curveBy
  | arcTo _ _ _ _ _ _ _ => .arcTo
  | close => .close

/-- The numbers of a segment, in order. -/
def numbers : Segment → List Float
  | moveTo x y | moveBy x y | lineTo x y | lineBy x y => [x, y]
  | curveTo x₁ y₁ x₂ y₂ x y | curveBy x₁ y₁ x₂ y₂ x y => [x₁, y₁, x₂, y₂, x, y]
  | arcTo rx ry rotation _ _ x y => [rx, ry, rotation, x, y]
  | close => []

/-- The flags of an arc. -/
def flags : Segment → List Bool
  | arcTo _ _ _ large sweep _ _ => [large, sweep]
  | _ => []

theorem flagText_injective : Function.Injective flagText := by
  decide

/-- How many numbers a segment has depends on its kind. -/
theorem length_numbers (s : Segment) : s.numbers.length = s.kind.numberCount := by
  cases s <;> rfl

theorem length_flags (s : Segment) : s.flags.length = s.kind.flagCount := by
  cases s <;> rfl

/-- **The words of a segment by its parts.** Flags stand behind the third number, if
there are any. -/
theorem words_eq (s : Segment) :
    s.words = s.kind.letter :: ((s.numbers.take 3).map numberText
      ++ (s.flags.map flagText ++ (s.numbers.drop 3).map numberText)) := by
  cases s <;> rfl

/-- The letter of a segment tells how many words belong to it, and so where the next
segment begins. -/
theorem length_words (s : Segment) :
    s.words.length = s.kind.numberCount + s.kind.flagCount + 1 := by
  have numbers := s.length_numbers
  have flags := s.length_flags
  simp only [words_eq, List.length_cons, List.length_append, List.length_map, List.length_take,
    List.length_drop]
  omega

/-- **Segments that are written alike**: they are of the same kind, their flags are
equal, and so are the texts of their numbers, one by one. -/
structure Alike (s t : Segment) : Prop where
  kind : s.kind = t.kind
  flags : s.flags = t.flags
  numbers : s.numbers.map numberText = t.numbers.map numberText

/-- **The letter says how many words belong to a segment**, so the words in front of any
others determine it, as far as it can be read. -/
theorem words_append_eq_iff {s t : Segment} {rest rest' : List String} :
    s.words ++ rest = t.words ++ rest' ↔ s.Alike t ∧ rest = rest' := by
  constructor
  · intro same
    have kind : s.kind = t.kind := by
      rw [words_eq s, words_eq t] at same
      exact SegmentKind.letter_injective (List.cons.inj same).1
    obtain ⟨words, others⟩ := List.append_inj same (by rw [length_words, length_words, kind])
    -- the parts have the same lengths on both sides
    have numbers : s.numbers.length = t.numbers.length := by
      rw [length_numbers, length_numbers, kind]
    have flags : s.flags.length = t.flags.length := by rw [length_flags, length_flags, kind]
    rw [words_eq, words_eq, List.cons.injEq] at words
    obtain ⟨front, behind⟩ := List.append_inj words.2 (by simp [numbers])
    obtain ⟨marks, back⟩ := List.append_inj behind (by simp [flags])
    refine ⟨⟨kind, List.map_injective_iff.mpr flagText_injective marks, ?_⟩, others⟩
    rw [← List.take_append_drop 3 s.numbers, ← List.take_append_drop 3 t.numbers, List.map_append,
      List.map_append, front, back]
  · rintro ⟨⟨kind, flags, numbers⟩, rfl⟩
    rw [words_eq, words_eq, kind, flags, List.map_take, List.map_drop, List.map_take,
      List.map_drop, numbers]

theorem words_ne_nil (s : Segment) : s.words ≠ [] := by
  rw [words_eq]
  exact List.cons_ne_nil _ _

theorem blank_notMem_words (s : Segment) : ∀ w ∈ s.words, ' ' ∉ w.toList := by
  have flag : ∀ b, ' ' ∉ (flagText b).toList := by decide
  intro w mem
  simp only [words_eq, List.mem_cons, List.mem_append, List.mem_map] at mem
  rcases mem with rfl | ⟨x, -, rfl⟩ | ⟨b, -, rfl⟩ | ⟨x, -, rfl⟩
  · exact s.kind.blank_notMem_letter
  · exact blank_notMem_numberText x
  · exact flag b
  · exact blank_notMem_numberText x

end Segment

/-! ## From the words to the segments -/

/-- **The words of a path determine its segments**, as far as they can be read. The
induction is on the segments of either side. -/
theorem flatMap_words_eq_iff (xs ys : List Segment) :
    xs.flatMap Segment.words = ys.flatMap Segment.words ↔ List.Forall₂ Segment.Alike xs ys := by
  induction xs generalizing ys with
  | nil =>
    cases ys with
    | nil => simp
    | cons t ys => simp [t.words_ne_nil]
  | cons s xs ih =>
    cases ys with
    | nil => simp [s.words_ne_nil]
    | cons t ys =>
      rw [List.flatMap_cons, List.flatMap_cons, Segment.words_append_eq_iff, ih,
        List.forall₂_cons]

theorem blank_notMem_flatMap_words (xs : List Segment) :
    ∀ w ∈ xs.flatMap Segment.words, ' ' ∉ w.toList := by
  intro w mem
  obtain ⟨s, -, listed⟩ := List.mem_flatMap.mp mem
  exact s.blank_notMem_words w listed

theorem flatMap_words_ne_nil {xs : List Segment} (present : xs ≠ []) :
    xs.flatMap Segment.words ≠ [] := by
  obtain ⟨s, xs, rfl⟩ := List.exists_cons_of_ne_nil present
  simp [s.words_ne_nil]

/-- A path with a segment has data: they begin with a letter. -/
theorem segmentsText_eq_empty_iff (xs : List Segment) : segmentsText xs = "" ↔ xs = [] := by
  constructor
  · intro empty
    cases xs with
    | nil => rfl
    | cons s xs =>
      -- an empty text is one empty word, which is no letter
      have parts := splitOn_intercalate_blank (flatMap_words_ne_nil (List.cons_ne_nil s xs))
        (blank_notMem_flatMap_words (s :: xs))
      rw [← segmentsText, empty, List.flatMap_cons, s.words_eq] at parts
      have letter : s.kind.letter.toList = [] := (List.cons.inj parts).1.symm
      exact absurd (String.toList_eq_nil_iff.mp letter) s.kind.letter_ne_empty
  · rintro rfl
    rfl

/-- **The text of segments determines them**, as far as they can be read. -/
theorem segmentsText_eq_iff (xs ys : List Segment) :
    segmentsText xs = segmentsText ys ↔ List.Forall₂ Segment.Alike xs ys := by
  by_cases absent : xs = []
  · rw [absent, List.forall₂_nil_left_iff, ← segmentsText_eq_empty_iff ys, eq_comm]
    rfl
  by_cases absent' : ys = []
  · rw [absent', List.forall₂_nil_right_iff, ← segmentsText_eq_empty_iff xs]
    rfl
  rw [← flatMap_words_eq_iff]
  constructor
  · intro same
    exact intercalate_blank_inj (flatMap_words_ne_nil absent) (flatMap_words_ne_nil absent')
      (blank_notMem_flatMap_words xs) (blank_notMem_flatMap_words ys) same
  · intro same
    rw [segmentsText, segmentsText, same]

/-- **Path data are unambiguous.** Two paths have the same data exactly if they have as
many segments, of the same kinds in the same order, with the same flags and the same
texts for all their numbers. Only a path without segments has no data. -/
theorem path_data_unambiguous (p q : Path) :
    (p.data.text = q.data.text
      ↔ List.Forall₂ Segment.Alike p.segments.toList q.segments.toList)
    ∧ (p.data.text = "" ↔ p.isEmpty = true) := by
  refine ⟨segmentsText_eq_iff _ _, ?_⟩
  rw [Path.isEmpty, Array.isEmpty_iff, ← Array.toList_eq_nil_iff]
  exact segmentsText_eq_empty_iff _

end VectorPage
