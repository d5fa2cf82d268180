/-
Texts by pattern.

The readers of numbers are written by hand, each after a regular expression.
Here the expressions themselves are written down, and what it means to match
one is left to the theory of languages. Two of them matter: one says what a
numeral of a program is, the other what a decimal reader takes for a number.
They differ in how they are put together and not in what they match, which is
what `IsNumeral` says in terms of parts.

With that, what the reader of numerals finds is the longest match at its place,
and a text has a value exactly if it matches.
-/
import Mathlib.Computability.RegularExpressions
import Mathlib.Order.Bounds.Defs
import VectorPage.Proofs.Numerals

set_option autoImplicit false

namespace VectorPage

/-- A regular expression over characters. -/
abbrev TextPattern := RegularExpression Char

namespace TextPattern

/-! ## Matching -/

/-- **The text matches** from its first character to its last. -/
def Matches (p : TextPattern) (cs : List Char) : Prop :=
  cs ∈ p.matches'

instance (p : TextPattern) : DecidablePred p.Matches :=
  fun cs => inferInstanceAs (Decidable (cs ∈ p.matches'))

/-- One character of a class. -/
def oneOf (chars : List Char) : TextPattern :=
  (chars.map RegularExpression.char).sum

/-- A text, as it stands. -/
def word (cs : List Char) : TextPattern :=
  (cs.map RegularExpression.char).prod

/-- Something or nothing. -/
def optional (p : TextPattern) : TextPattern :=
  1 + p

/-- Any number of characters of a class. -/
def many (chars : List Char) : TextPattern :=
  (oneOf chars).star

/-- One or more characters of a class. -/
def run (chars : List Char) : TextPattern :=
  oneOf chars * many chars

section Matching

variable {p q : TextPattern} {chars cs : List Char}

theorem matches_add : (p + q).Matches cs ↔ p.Matches cs ∨ q.Matches cs :=
  Language.mem_add _ _ _

/-- One pattern after the other: the text can be cut so that each takes its part. -/
theorem matches_mul :
    (p * q).Matches cs ↔ ∃ front rest, p.Matches front ∧ q.Matches rest ∧ front ++ rest = cs := by
  rw [Matches, RegularExpression.matches'_mul, Language.mem_mul]
  constructor
  · rintro ⟨front, first, rest, later, parts⟩
    exact ⟨front, rest, first, later, parts⟩
  · rintro ⟨front, rest, first, later, parts⟩
    exact ⟨front, first, rest, later, parts⟩

theorem matches_optional : (optional p).Matches cs ↔ cs = [] ∨ p.Matches cs :=
  matches_add

theorem matches_oneOf : (oneOf chars).Matches cs ↔ ∃ c ∈ chars, cs = [c] := by
  induction chars with
  | nil => simp [oneOf, Matches, RegularExpression.matches'_zero]
  | cons c chars ih =>
    have split : oneOf (c :: chars) = RegularExpression.char c + oneOf chars := rfl
    rw [split, matches_add, ih, List.exists_mem_cons_iff]
    rfl

theorem matches_word : (word chars).Matches cs ↔ cs = chars := by
  induction chars generalizing cs with
  | nil => rfl
  | cons c chars ih =>
    have split : word (c :: chars) = RegularExpression.char c * word chars := rfl
    rw [split, matches_mul]
    constructor
    · rintro ⟨front, rest, first, later, rfl⟩
      rw [ih.mp later, show front = [c] from first]
      rfl
    · rintro rfl
      exact ⟨[c], chars, rfl, ih.mpr rfl, rfl⟩

/-- **Repetition of a class** matches what is made of its characters. -/
theorem matches_many : (many chars).Matches cs ↔ ∀ c ∈ cs, c ∈ chars := by
  rw [Matches, many, RegularExpression.matches'_star, Language.mem_kstar]
  constructor
  · rintro ⟨parts, rfl, each⟩ c mem
    obtain ⟨part, inside, here⟩ := List.mem_flatten.mp mem
    obtain ⟨d, known, rfl⟩ := matches_oneOf.mp (each part inside)
    rwa [List.mem_singleton.mp here]
  · intro all
    refine ⟨cs.map fun c => [c], ?_, ?_⟩
    · rw [← List.flatMap_def, List.flatMap_singleton']
    · intro part mem
      obtain ⟨c, here, rfl⟩ := List.mem_map.mp mem
      exact matches_oneOf.mpr ⟨c, all c here, rfl⟩

theorem matches_run : (run chars).Matches cs ↔ cs ≠ [] ∧ ∀ c ∈ cs, c ∈ chars := by
  rw [run, matches_mul]
  constructor
  · rintro ⟨front, rest, first, later, rfl⟩
    obtain ⟨c, known, rfl⟩ := matches_oneOf.mp first
    exact ⟨by simp, List.forall_mem_cons.mpr ⟨known, matches_many.mp later⟩⟩
  · rintro ⟨present, all⟩
    obtain ⟨c, rest, rfl⟩ := List.exists_cons_of_ne_nil present
    obtain ⟨first, later⟩ := List.forall_mem_cons.mp all
    exact ⟨[c], rest, matches_oneOf.mpr ⟨c, first, rfl⟩, matches_many.mpr later, rfl⟩

end Matching

/-! ## The patterns of numbers -/

/-- The ten digits. -/
def digits : List Char :=
  ['0', '1', '2', '3', '4', '5', '6', '7', '8', '9']

/-- The decimal point. -/
def point : TextPattern :=
  word ['.']

/-- An optional sign, `[+-]?`. -/
def sign : TextPattern :=
  optional (oneOf ['+', '-'])

/-- An optional power of ten, `([eE][+-]?d+)?`. -/
def power : TextPattern :=
  optional (oneOf ['e', 'E'] * (sign * run digits))

/-- **The numerals of a program**, `[+-]?(d+.d*|.d+|d+)([eE][+-]?d+)?`. -/
def numeral : TextPattern :=
  sign * ((run digits * (point * many digits) + (point * run digits + run digits)) * power)

/-- **What a decimal reader takes for a number**,
`[+-]?(d+|d+.d*|d*.d+)([eE][+-]?d+)?`. -/
def decimal : TextPattern :=
  sign * ((run digits + (run digits * (point * many digits)
    + many digits * (point * run digits))) * power)

/-! ## What they match -/

/-- The ten digits are the characters that the readers take for digits. -/
theorem mem_digits {c : Char} : c ∈ digits ↔ isDigit c = true := by
  constructor
  · intro mem
    simp only [digits, List.mem_cons, List.not_mem_nil, or_false] at mem
    rcases mem with rfl | rfl | rfl | rfl | rfl | rfl | rfl | rfl | rfl | rfl <;> rfl
  · intro digit
    rw [isDigit, Bool.and_eq_true, decide_eq_true_iff, decide_eq_true_iff] at digit
    have lower : 48 ≤ c.toNat := digit.1
    have upper : c.toNat < 58 := Nat.lt_succ_of_le digit.2
    have codes : ∀ n < 58, 48 ≤ n → Char.ofNat n ∈ digits := by decide
    have listed := codes c.toNat upper lower
    rwa [Char.ofNat_toNat] at listed

/-- Numerals are written in ASCII. -/
theorem toNat_lt_of_isNumeralChar {c : Char} (h : isNumeralChar c = true) : c.toNat < 128 := by
  have listed : c ∈ ['+', '-', '.', 'e', 'E'] ++ digits := by
    simp only [isNumeralChar, isNumeralStart, isSign, ← mem_digits, Bool.or_eq_true, beq_iff_eq]
      at h
    simp only [List.mem_append, List.mem_cons, List.not_mem_nil, or_false]
    tauto
  have ascii : (['+', '-', '.', 'e', 'E'] ++ digits).all (·.toNat < 128) = true := rfl
  simpa using List.all_eq_true.mp ascii c listed

theorem matches_many_digits {cs : List Char} :
    (many digits).Matches cs ↔ ∀ c ∈ cs, isDigit c = true := by
  simp only [matches_many, mem_digits]

theorem matches_run_digits {cs : List Char} :
    (run digits).Matches cs ↔ cs ≠ [] ∧ ∀ c ∈ cs, isDigit c = true := by
  simp only [matches_run, mem_digits]

theorem matches_sign {cs : List Char} :
    sign.Matches cs ↔ ∃ mark : Option Char, (∀ c ∈ mark, isSign c = true) ∧ mark.toList = cs := by
  rw [sign, matches_optional, matches_oneOf]
  constructor
  · rintro (rfl | ⟨c, mem, rfl⟩)
    · exact ⟨none, by simp, rfl⟩
    · refine ⟨some c, ?_, rfl⟩
      rintro _ ⟨⟩
      simpa [isSign] using mem
  · rintro ⟨_ | c, isMark, rfl⟩
    · exact .inl rfl
    · have isMark := isMark c rfl
      exact .inr ⟨c, by simpa [isSign] using isMark, rfl⟩

/-- A power mark, or none: a letter, perhaps a sign, and digits. -/
theorem matches_power {cs : List Char} :
    power.Matches cs
      ↔ ∃ mark : Option PowerMark, (∀ m ∈ mark, m.WellFormed) ∧ Numeral.powerText mark = cs := by
  rw [power, matches_optional, matches_mul]
  constructor
  · rintro (rfl | ⟨_, _, first, later, rfl⟩)
    · exact ⟨none, by simp, rfl⟩
    · obtain ⟨letter, isLetter, rfl⟩ := matches_oneOf.mp first
      obtain ⟨_, ds, signed, isDigits, rfl⟩ := matches_mul.mp later
      obtain ⟨mark, isMark, rfl⟩ := matches_sign.mp signed
      obtain ⟨present, all⟩ := matches_run_digits.mp isDigits
      refine ⟨some ⟨letter, mark, ds⟩, ?_, rfl⟩
      rintro _ ⟨⟩
      exact ⟨by simpa using isLetter, isMark, all, present⟩
  · rintro ⟨_ | mark, formed, rfl⟩
    · exact .inl rfl
    · have formed := formed mark rfl
      refine .inr ⟨[mark.letter], _, matches_oneOf.mpr ⟨_, by simpa using formed.letter, rfl⟩,
        matches_mul.mpr ⟨_, mark.digits, matches_sign.mpr ⟨_, formed.sign, rfl⟩,
          matches_run_digits.mpr ⟨formed.present, formed.digits⟩, rfl⟩, rfl⟩

/-- The digits of a numeral, with or without a point: at least one of them on
one of its sides. -/
def IsMantissa (cs : List Char) : Prop :=
  ∃ (whole : List Char) (fraction : Option (List Char)), (∀ c ∈ whole, isDigit c = true)
    ∧ (∀ ds ∈ fraction, ∀ c ∈ ds, isDigit c = true)
    ∧ (whole ≠ [] ∨ ∃ ds ∈ fraction, ds ≠ []) ∧ whole ++ Numeral.pointText fraction = cs

/-- Digits, a point and digits, if there is one of them. -/
theorem isMantissa_of_point {whole ds : List Char} (isWhole : ∀ c ∈ whole, isDigit c = true)
    (isFraction : ∀ c ∈ ds, isDigit c = true) (present : whole ≠ [] ∨ ds ≠ []) :
    IsMantissa (whole ++ '.' :: ds) := by
  refine ⟨whole, some ds, isWhole, ?_, ?_, rfl⟩
  · rintro _ ⟨⟩
    exact isFraction
  · exact present.imp_right fun digits => ⟨ds, rfl, digits⟩

theorem isMantissa_of_whole {cs : List Char} (present : cs ≠ [])
    (all : ∀ c ∈ cs, isDigit c = true) : IsMantissa cs :=
  ⟨cs, none, all, by simp, .inl present, List.append_nil cs⟩

/-- **A pattern of mantissas** with a sign before and a power behind it is one of
numerals. -/
theorem matches_signed_power {mantissa : TextPattern}
    (isMantissa : ∀ cs, mantissa.Matches cs ↔ IsMantissa cs) {cs : List Char} :
    (sign * (mantissa * power)).Matches cs ↔ IsNumeral cs := by
  rw [matches_mul]
  constructor
  · rintro ⟨_, _, signed, unsigned, rfl⟩
    obtain ⟨_, _, body, powered, rfl⟩ := matches_mul.mp unsigned
    obtain ⟨mark, isMark, rfl⟩ := matches_sign.mp signed
    obtain ⟨whole, fraction, isWhole, isFraction, present, rfl⟩ := (isMantissa _).mp body
    obtain ⟨power, formed, rfl⟩ := matches_power.mp powered
    refine ⟨⟨mark, whole, fraction, power⟩, ⟨isMark, isWhole, isFraction, present, formed⟩, ?_⟩
    rw [Numeral.text_eq, List.append_assoc]
  · rintro ⟨n, formed, rfl⟩
    refine ⟨n.sign.toList, _, matches_sign.mpr ⟨_, formed.sign, rfl⟩, matches_mul.mpr
      ⟨n.whole ++ Numeral.pointText n.fraction, _, (isMantissa _).mpr ?_,
        matches_power.mpr ⟨_, formed.power, rfl⟩, rfl⟩, ?_⟩
    · exact ⟨n.whole, n.fraction, formed.whole, formed.fraction, formed.present, rfl⟩
    · rw [Numeral.text_eq, List.append_assoc]

theorem matches_point_mul {p : TextPattern} {cs : List Char} :
    (point * p).Matches cs ↔ ∃ ds, p.Matches ds ∧ '.' :: ds = cs := by
  rw [point, matches_mul]
  constructor
  · rintro ⟨_, ds, dot, later, rfl⟩
    rw [matches_word.mp dot]
    exact ⟨ds, later, rfl⟩
  · rintro ⟨ds, later, rfl⟩
    exact ⟨['.'], ds, matches_word.mpr rfl, later, rfl⟩

/-- **The numerals of a program** are the texts of well-formed parts. -/
theorem matches_numeral {cs : List Char} : numeral.Matches cs ↔ IsNumeral cs := by
  refine matches_signed_power fun cs => ?_
  rw [matches_add, matches_add, matches_mul, matches_point_mul]
  simp only [matches_point_mul, matches_run_digits, matches_many_digits]
  constructor
  · rintro (⟨whole, _, ⟨present, all⟩, ⟨ds, isDigits, rfl⟩, rfl⟩ | ⟨ds, ⟨present, all⟩, rfl⟩
      | ⟨present, all⟩)
    · exact isMantissa_of_point all isDigits (.inl present)
    · exact @isMantissa_of_point [] _ (by simp) all (.inr present)
    · exact isMantissa_of_whole present all
  · rintro ⟨whole, _ | ds, isWhole, isFraction, present, rfl⟩
    · have filled : whole ≠ [] := present.resolve_right (by simp)
      exact .inr (.inr (by simpa [Numeral.pointText, filled] using isWhole))
    · have isFraction := isFraction ds rfl
      by_cases empty : whole = []
      · subst empty
        have filled : ds ≠ [] := by simpa using present
        exact .inr (.inl ⟨ds, ⟨filled, isFraction⟩, rfl⟩)
      · exact .inl ⟨whole, '.' :: ds, ⟨empty, isWhole⟩, ⟨ds, isFraction, rfl⟩, rfl⟩

-- a power mark needs digits
example : numeral.Matches "-.5e1".toList ∧ ¬ numeral.Matches "1e".toList := by decide +kernel

/-- **A decimal reader** takes the same texts. -/
theorem matches_decimal {cs : List Char} : decimal.Matches cs ↔ IsNumeral cs := by
  refine matches_signed_power fun cs => ?_
  rw [matches_add, matches_add, matches_mul, matches_mul]
  simp only [matches_point_mul, matches_run_digits, matches_many_digits]
  constructor
  · rintro (⟨present, all⟩ | ⟨whole, _, ⟨present, all⟩, ⟨ds, isDigits, rfl⟩, rfl⟩
      | ⟨whole, _, all, ⟨ds, ⟨present, isDigits⟩, rfl⟩, rfl⟩)
    · exact isMantissa_of_whole present all
    · exact isMantissa_of_point all isDigits (.inl present)
    · exact isMantissa_of_point all isDigits (.inr present)
  · rintro ⟨whole, _ | ds, isWhole, isFraction, present, rfl⟩
    · have filled : whole ≠ [] := present.resolve_right (by simp)
      exact .inl (by simpa [Numeral.pointText, filled] using isWhole)
    · have isFraction := isFraction ds rfl
      rcases present with filled | ⟨_, ⟨⟩, filled⟩
      · exact .inr (.inl ⟨whole, '.' :: ds, ⟨filled, isWhole⟩, ⟨ds, isFraction, rfl⟩, rfl⟩)
      · exact .inr (.inr ⟨whole, '.' :: ds, isWhole, ⟨ds, ⟨filled, isFraction⟩, rfl⟩, rfl⟩)

end TextPattern

/-! ## The reader of numerals -/

/-- The lengths of the texts at the front of a text that match a pattern. -/
def TextPattern.lengthsAt (p : TextPattern) (cs : List Char) : Set Nat :=
  { n | ∃ front, front <+: cs ∧ p.Matches front ∧ front.length = n }

namespace Numeral

/-- The length of the numeral at the front of a text, if there is one. -/
def length? (cs : List Char) : Option Nat :=
  (take? cs).map fun taken => taken.1.text.length

/-- **The reader takes the longest match.** -/
theorem isGreatest_of_take? {cs rest : List Char} {n : Numeral}
    (taken : take? cs = some (n, rest)) :
    IsGreatest (TextPattern.numeral.lengthsAt cs) n.text.length := by
  have parts := text_append_of_take? taken
  constructor
  · exact ⟨n.text, ⟨rest, parts⟩,
      TextPattern.matches_numeral.mpr ⟨n, wellFormed_of_take? taken, rfl⟩, rfl⟩
  · rintro _ ⟨front, ⟨beyond, rfl⟩, isMatch, rfl⟩
    obtain ⟨m, formed, rfl⟩ := TextPattern.matches_numeral.mp isMatch
    -- no more is left than what follows that match
    obtain ⟨longer, left, taken', le⟩ := exists_take?_text_append formed beyond
    obtain ⟨-, rfl⟩ : n = longer ∧ rest = left := by simpa using taken.symm.trans taken'
    have sizes := congrArg List.length parts
    rw [List.length_append, List.length_append] at sizes
    omega

/-- **How far the reader of numerals goes** is the greatest length at which the pattern
matches. -/
theorem length?_eq_some_iff {cs : List Char} {k : Nat} :
    length? cs = some k ↔ IsGreatest (TextPattern.numeral.lengthsAt cs) k := by
  constructor
  · intro found
    obtain ⟨⟨n, rest⟩, taken, rfl⟩ := Option.map_eq_some_iff.mp found
    exact isGreatest_of_take? taken
  · intro greatest
    obtain ⟨front, isFront, isMatch, -⟩ := greatest.1
    have present : take? cs ≠ none := fun absent =>
      take?_eq_none.mp absent front isFront (TextPattern.matches_numeral.mp isMatch)
    obtain ⟨⟨n, rest⟩, taken⟩ := Option.ne_none_iff_exists'.mp present
    rw [length?, taken, Option.map_some, (isGreatest_of_take? taken).unique greatest]

/-- It takes nothing just if the pattern matches nowhere at the front. -/
theorem length?_eq_none_iff {cs : List Char} :
    length? cs = none
      ↔ ∀ front, front <+: cs → front ≠ [] → ¬ TextPattern.numeral.Matches front := by
  rw [length?, Option.map_eq_none_iff, take?_eq_none]
  simp only [TextPattern.matches_numeral]
  constructor
  · exact fun absent front isFront _ => absent front isFront
  · intro absent front isFront isNumeral
    refine absent front isFront ?_ isNumeral
    rintro rfl
    obtain ⟨n, formed, empty⟩ := isNumeral
    obtain ⟨c, head, -⟩ := formed.exists_head
    simp [empty] at head

/-- **A text has a value exactly if a decimal reader takes it.** -/
theorem isSome_read?_iff {cs : List Char} :
    (read? cs).isSome ↔ TextPattern.decimal.Matches cs := by
  rw [TextPattern.matches_decimal]
  constructor
  · intro found
    unfold read? at found
    split at found
    · rename_i n taken
      have parts := text_append_of_take? taken
      rw [List.append_nil] at parts
      exact ⟨n, wellFormed_of_take? taken, parts⟩
    · cases found
  · rintro ⟨n, formed, rfl⟩
    obtain ⟨longer, left, taken, le⟩ := exists_take?_text_append formed []
    obtain rfl : left = [] := List.length_eq_zero_iff.mp (Nat.le_zero.mp le)
    rw [List.append_nil] at taken
    simp [read?, taken]

end Numeral

end VectorPage
