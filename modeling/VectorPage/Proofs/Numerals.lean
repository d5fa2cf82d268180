/-
The longest numeral at the front of a text.

The grammar of numerals is a condition on their parts (`Numeral.WellFormed`):
digits where digits belong, at least one of them before or after the point,
and a power mark with at least one. A text is a numeral if it is what such
parts write.

The reader is greedy at every turn, and it never goes back. That it still
finds the longest numeral is not a matter of the single turns alone: a point
is taken only if a digit stands on one side of it, a power mark only if it is
complete. So the argument compares what the reader leaves with any numeral
that stands at the front: it leaves no more than what follows that numeral.
-/
import Mathlib.Data.List.Infix
import VectorPage.Number.Numeral

set_option autoImplicit false

namespace VectorPage

/-! ## Longest words -/

/-- **The longest word** of a language at a place in a text: what is read is a
word, and no part of what follows can be added to it. -/
def Longest (word : List Char → Prop) (read rest : List Char) : Prop :=
  word read ∧ ∀ more, more ≠ [] → more <+: rest → ¬ word (read ++ more)

/-- A reader that takes a word, and leaves no more than what follows any word
at the front, takes the longest one. -/
theorem longest_of_le {word : List Char → Prop} {cs read rest : List Char} (isWord : word read)
    (parts : read ++ rest = cs)
    (le : ∀ front beyond, word front → front ++ beyond = cs → rest.length ≤ beyond.length) :
    Longest word read rest := by
  refine ⟨isWord, ?_⟩
  rintro more present ⟨beyond, rfl⟩ longer
  have bound := le (read ++ more) beyond longer (by rw [← parts, List.append_assoc])
  have := List.length_pos_iff.mpr present
  rw [List.length_append] at bound
  omega

/-- At one place there is one longest word. -/
theorem Longest.unique {word : List Char → Prop} {read rest read' rest' : List Char}
    (h : Longest word read rest) (h' : Longest word read' rest')
    (same : read ++ rest = read' ++ rest') : read = read' ∧ rest = rest' := by
  rcases List.append_eq_append_iff.mp same with ⟨more, rfl, rfl⟩ | ⟨more, rfl, rfl⟩
  · obtain rfl : more = [] := by
      by_contra present
      exact h.2 more present (List.prefix_append more rest') h'.1
    simp
  · obtain rfl : more = [] := by
      by_contra present
      exact h'.2 more present (List.prefix_append more rest) h.1
    simp

/-! ## Runs -/

/-- A run goes on through characters that belong to it. -/
theorem takeRun_append_of_all {p : Char → Bool} {run : List Char} (all : ∀ c ∈ run, p c = true)
    (rest : List Char) :
    takeRun p (run ++ rest) = (run ++ (takeRun p rest).1, (takeRun p rest).2) := by
  simp only [takeRun, List.takeWhile_append_of_pos all, List.dropWhile_append_of_pos all]

/-- No run begins where the text ends or goes on with a character outside the
class. -/
theorem takeRun_of_head {p : Char → Bool} {rest : List Char} (ends : ∀ c ∈ rest.head?, p c = false) :
    takeRun p rest = ([], rest) := by
  cases rest with
  | nil => rfl
  | cons c rest => simp [takeRun, ends c rfl]

/-- A run of the class ends before such a place. -/
theorem takeRun_eq {p : Char → Bool} {run rest : List Char} (all : ∀ c ∈ run, p c = true)
    (ends : ∀ c ∈ rest.head?, p c = false) : takeRun p (run ++ rest) = (run, rest) := by
  rw [takeRun_append_of_all all, takeRun_of_head ends, List.append_nil]

theorem mem_takeRun {p : Char → Bool} {cs : List Char} {c : Char} (h : c ∈ (takeRun p cs).1) :
    p c = true :=
  List.all_eq_true.mp List.all_takeWhile c h

theorem head_takeRun {p : Char → Bool} {cs : List Char} {c : Char}
    (h : c ∈ (takeRun p cs).2.head?) : p c = false := by
  have stopped := List.head?_dropWhile_not p cs
  rw [show cs.dropWhile p = (takeRun p cs).2 from rfl, Option.mem_def.mp h] at stopped
  simpa using stopped

theorem takeRun_length_le (p : Char → Bool) (cs : List Char) :
    (takeRun p cs).2.length ≤ cs.length :=
  (List.dropWhile_suffix p).length_le

/-! ## The grammar -/

/-- A power mark as it may be written: a letter `e` of either case, an optional
sign, and at least one digit. -/
structure PowerMark.WellFormed (mark : PowerMark) : Prop where
  letter : mark.letter = 'e' ∨ mark.letter = 'E'
  sign : ∀ c ∈ mark.sign, isSign c = true
  digits : ∀ c ∈ mark.digits, isDigit c = true
  present : mark.digits ≠ []

/-- **A numeral as it may be written**: an optional sign, digits with or
without a point, at least one of them on one of its sides, and an optional
power mark. -/
structure Numeral.WellFormed (n : Numeral) : Prop where
  sign : ∀ c ∈ n.sign, isSign c = true
  whole : ∀ c ∈ n.whole, isDigit c = true
  fraction : ∀ digits ∈ n.fraction, ∀ c ∈ digits, isDigit c = true
  present : n.whole ≠ [] ∨ ∃ digits ∈ n.fraction, digits ≠ []
  power : ∀ mark ∈ n.power, mark.WellFormed

/-- The texts that are numerals from their first character to their last. -/
def IsNumeral (cs : List Char) : Prop :=
  ∃ n : Numeral, n.WellFormed ∧ n.text = cs

/-- No numeral stands at the front of a text. -/
def NoNumeral (cs : List Char) : Prop :=
  ∀ front, front <+: cs → ¬ IsNumeral front

/-! ### The characters of a numeral -/

/-- The characters with which a numeral can begin. -/
def isNumeralStart (c : Char) : Bool :=
  isSign c || isDigit c || c == '.'

/-- The characters of which numerals are made. -/
def isNumeralChar (c : Char) : Bool :=
  isNumeralStart c || c == 'e' || c == 'E'

/-- A character that begins a numeral may stand in one. -/
theorem isNumeralChar_of_start {c : Char} (h : isNumeralStart c = true) :
    isNumeralChar c = true := by
  simp [isNumeralChar, h]

theorem isNumeralStart_of_sign {c : Char} (h : isSign c = true) : isNumeralStart c = true := by
  simp [isNumeralStart, h]

theorem isNumeralStart_of_digit {c : Char} (h : isDigit c = true) : isNumeralStart c = true := by
  simp [isNumeralStart, h]

/-- A digit is no sign, so where the sign ends is clear. -/
theorem isSign_of_isDigit {c : Char} (h : isDigit c = true) : isSign c = false := by
  by_contra sign
  simp only [isSign, Bool.not_eq_false, Bool.or_eq_true, beq_iff_eq] at sign
  rcases sign with rfl | rfl <;> revert h <;> decide

theorem PowerMark.WellFormed.isNumeralChar {mark : PowerMark} (h : mark.WellFormed) :
    ∀ c ∈ mark.text, isNumeralChar c = true := by
  intro c mem
  simp only [PowerMark.text, List.mem_cons, List.mem_append, Option.mem_toList] at mem
  rcases mem with rfl | mem | mem
  · rcases h.letter with letter | letter <;> rw [letter] <;> rfl
  · exact isNumeralChar_of_start (isNumeralStart_of_sign (h.sign c mem))
  · exact isNumeralChar_of_start (isNumeralStart_of_digit (h.digits c mem))

namespace Numeral

/-- What is written behind the sign and the whole part, up to the power
mark. -/
def pointText (fraction : Option (List Char)) : List Char :=
  match fraction with
  | some digits => '.' :: digits
  | none => []

/-- What is written for an optional power mark. -/
def powerText (power : Option PowerMark) : List Char :=
  match power with
  | some mark => mark.text
  | none => []

/-- The text of a numeral part by part: sign, digits, point and digits, power mark. -/
theorem text_eq (n : Numeral) :
    n.text = n.sign.toList ++ (n.whole ++ (pointText n.fraction ++ powerText n.power)) := by
  obtain ⟨sign, whole, fraction, power⟩ := n
  cases fraction <;> cases power <;> simp [text, pointText, powerText]

namespace WellFormed

variable {n : Numeral}

/-- Behind the sign, a numeral goes on with a digit or the point. -/
theorem head_unsigned (h : n.WellFormed) (rest : List Char) :
    ∃ c ∈ (n.whole ++ (pointText n.fraction ++ rest)).head?, isDigit c = true ∨ c = '.' := by
  rcases whole : n.whole with _ | ⟨c, more⟩
  · obtain ⟨digits, fraction, -⟩ := h.present.resolve_left (fun present => present whole)
    rw [Option.mem_def.mp fraction]
    exact ⟨'.', rfl, .inr rfl⟩
  · exact ⟨c, rfl, .inl (h.whole c (by simp [whole]))⟩

/-- A numeral is not empty, and how it begins can be told by one character. -/
theorem exists_head (h : n.WellFormed) : ∃ c ∈ n.text.head?, isNumeralStart c = true := by
  rw [text_eq]
  rcases sign : n.sign with _ | c
  · obtain ⟨c, head, digit | rfl⟩ := h.head_unsigned (powerText n.power)
    · exact ⟨c, head, isNumeralStart_of_digit digit⟩
    · exact ⟨'.', head, rfl⟩
  · exact ⟨c, rfl, isNumeralStart_of_sign (h.sign c (by simp [sign]))⟩

theorem isNumeralChar (h : n.WellFormed) : ∀ c ∈ n.text, isNumeralChar c = true := by
  intro c mem
  simp only [text_eq, List.mem_append, Option.mem_toList] at mem
  rcases mem with mem | mem | mem | mem
  · exact isNumeralChar_of_start (isNumeralStart_of_sign (h.sign c mem))
  · exact isNumeralChar_of_start (isNumeralStart_of_digit (h.whole c mem))
  · cases fraction : n.fraction with
    | none => simp [fraction, pointText] at mem
    | some digits =>
      rw [fraction, pointText, List.mem_cons] at mem
      rcases mem with rfl | mem
      · rfl
      · exact isNumeralChar_of_start
          (isNumeralStart_of_digit (h.fraction digits fraction c mem))
  · cases power : n.power with
    | none => simp [power, powerText] at mem
    | some mark =>
      rw [power, powerText] at mem
      exact (h.power mark power).isNumeralChar c mem

end WellFormed

end Numeral

theorem IsNumeral.mem {cs : List Char} (h : IsNumeral cs) : ∀ c ∈ cs, isNumeralChar c = true := by
  obtain ⟨n, formed, rfl⟩ := h
  exact formed.isNumeralChar

/-- A text that begins with none of the characters of `isNumeralStart` has no
numeral at its front. -/
theorem noNumeral_of_head {cs : List Char} (h : ∀ c ∈ cs.head?, isNumeralStart c = false) :
    NoNumeral cs := by
  rintro front ⟨rest, rfl⟩ ⟨n, formed, rfl⟩
  obtain ⟨c, head, start⟩ := formed.exists_head
  have begins : c ∈ (n.text ++ rest).head? := by
    rw [List.head?_append, Option.mem_def.mp head]
    rfl
  rw [h c begins] at start
  exact Bool.false_ne_true start

/-! ## What is read is a numeral -/

theorem mem_takeSign {cs : List Char} {c : Char} (h : c ∈ (takeSign cs).1) : isSign c = true := by
  cases cs with
  | nil => simp [takeSign] at h
  | cons first rest =>
    simp only [takeSign] at h
    split at h
    · obtain rfl : first = c := by simpa using h
      assumption
    · simp at h

/-- A power mark is taken only if digits follow, so what is taken is well formed. -/
theorem PowerMark.wellFormed_of_take? {cs rest : List Char} {mark : PowerMark}
    (h : PowerMark.take? cs = some (mark, rest)) : mark.WellFormed := by
  cases cs with
  | nil => simp [PowerMark.take?] at h
  | cons c tail =>
    simp only [PowerMark.take?] at h
    split at h
    · rename_i letter
      split at h
      · simp at h
      · rename_i present
        obtain ⟨rfl, rfl⟩ := Prod.mk.inj (Option.some.inj h)
        exact ⟨by simpa using letter, fun c => mem_takeSign, fun c => mem_takeRun,
          by simpa using present⟩
    · simp at h

namespace Numeral

/-- With a power mark behind it a numeral is still one; without, it is as it was. -/
theorem closeWithPower_wellFormed {sign : Option Char} {whole : List Char}
    {fraction : Option (List Char)} (h : (⟨sign, whole, fraction, none⟩ : Numeral).WellFormed)
    (rest : List Char) : (closeWithPower sign whole fraction rest).1.WellFormed := by
  unfold closeWithPower
  split
  · rename_i mark beyond taken
    refine ⟨h.sign, h.whole, h.fraction, h.present, ?_⟩
    rintro _ ⟨⟩
    exact PowerMark.wellFormed_of_take? taken
  · exact h

/-- **What the reader takes is a numeral.** -/
theorem wellFormed_of_take? {cs rest : List Char} {n : Numeral}
    (h : take? cs = some (n, rest)) : n.WellFormed := by
  simp only [take?] at h
  split at h
  · rename_i afterPoint point
    split at h
    · simp at h
    · rename_i present
      have closed := Option.some.inj h
      rw [← (Prod.mk.inj closed).1]
      refine closeWithPower_wellFormed ⟨fun c => mem_takeSign, fun c => mem_takeRun, ?_, ?_, ?_⟩ _
      · rintro _ ⟨⟩ c
        exact mem_takeRun
      · simp only [Bool.and_eq_true, List.isEmpty_iff, not_and_or] at present
        exact present.imp id fun digits => ⟨_, rfl, digits⟩
      · simp
  · split at h
    · simp at h
    · rename_i present
      have closed := Option.some.inj h
      rw [← (Prod.mk.inj closed).1]
      exact closeWithPower_wellFormed ⟨fun c => mem_takeSign, fun c => mem_takeRun, by simp,
        .inl (by simpa using present), by simp⟩ _

end Numeral

/-! ## Nothing longer stands there -/

/-- A sign is taken off if there is one, and nothing else is. -/
theorem takeSign_append_of_head {sign : Option Char} {rest : List Char}
    (isSigned : ∀ c ∈ sign, isSign c = true) (unsigned : ∀ c ∈ rest.head?, isSign c = false) :
    takeSign (sign.toList ++ rest) = (sign, rest) := by
  cases sign with
  | some c => simp [takeSign, isSigned c rfl]
  | none =>
    cases rest with
    | nil => rfl
    | cons c rest => simp [takeSign, unsigned c rfl]

/-- A power mark in front of any text is taken, with the digits that may
follow it. -/
theorem PowerMark.take?_text_append {mark : PowerMark} (h : mark.WellFormed) (rest : List Char) :
    PowerMark.take? (mark.text ++ rest)
      = some ({ mark with digits := mark.digits ++ (takeRun isDigit rest).1 },
          (takeRun isDigit rest).2) := by
  obtain ⟨letter, sign, digits⟩ := mark
  have isLetter : (letter == 'e' || letter == 'E') = true := by simpa using h.letter
  have signed : takeSign (sign.toList ++ (digits ++ rest)) = (sign, digits ++ rest) := by
    refine takeSign_append_of_head h.sign fun c head => ?_
    rcases digits with _ | ⟨first, more⟩
    · exact absurd rfl h.present
    · obtain rfl : first = c := by simpa using head
      exact isSign_of_isDigit (h.digits first (by simp))
  have present : (digits ++ (takeRun isDigit rest).1).isEmpty = false := by
    have : digits ≠ [] := h.present
    simp [this]
  simp only [PowerMark.text, List.cons_append, List.append_assoc, PowerMark.take?, isLetter, signed,
    takeRun_append_of_all h.digits, present, if_true, Bool.false_eq_true, if_false]

/-- A power mark ends a run of digits. -/
theorem PowerMark.WellFormed.takeRun_text_append {mark : PowerMark} (h : mark.WellFormed)
    (rest : List Char) : takeRun isDigit (mark.text ++ rest) = ([], mark.text ++ rest) := by
  refine takeRun_of_head fun c head => ?_
  obtain rfl : mark.letter = c := by simpa [PowerMark.text] using head
  rcases h.letter with letter | letter <;> rw [letter] <;> rfl

namespace Numeral

/-- Looking for a power mark takes characters off or leaves the text alone. -/
theorem closeWithPower_length_le (sign : Option Char) (whole : List Char)
    (fraction : Option (List Char)) (rest : List Char) :
    (closeWithPower sign whole fraction rest).2.length ≤ rest.length := by
  unfold closeWithPower
  split
  · rename_i mark beyond taken
    rw [← PowerMark.text_append_of_take? taken, List.length_append]
    exact Nat.le_add_left _ _
  · exact Nat.le_refl _

/-- The digits in front of a power mark end with it, so that it is found; where
there is none, they may go on. Either way no more is left than what follows. -/
theorem closeWithPower_powerText_le {power : Option PowerMark}
    (h : ∀ mark ∈ power, mark.WellFormed) (sign : Option Char) (whole : List Char)
    (fraction : Option (List Char)) (rest : List Char) :
    (closeWithPower sign whole fraction (takeRun isDigit (powerText power ++ rest)).2).2.length
      ≤ rest.length := by
  cases power with
  | none =>
    exact Nat.le_trans (closeWithPower_length_le ..) (takeRun_length_le isDigit rest)
  | some mark =>
    rw [powerText, (h mark rfl).takeRun_text_append, closeWithPower,
      PowerMark.take?_text_append (h mark rfl)]
    exact takeRun_length_le isDigit rest

/-- **A numeral in front of any text** makes the reader take one, and it leaves
no more than that text. -/
theorem exists_take?_text_append {n : Numeral} (h : n.WellFormed) (rest : List Char) :
    ∃ longer beyond, take? (n.text ++ rest) = some (longer, beyond)
      ∧ beyond.length ≤ rest.length := by
  have signed : takeSign (n.text ++ rest)
      = (n.sign, n.whole ++ (pointText n.fraction ++ (powerText n.power ++ rest))) := by
    rw [text_eq]
    simp only [List.append_assoc]
    refine takeSign_append_of_head h.sign fun c head => ?_
    obtain ⟨c', head', digit | rfl⟩ := h.head_unsigned (powerText n.power ++ rest)
    · obtain rfl : c' = c := Option.mem_unique head' head
      exact isSign_of_isDigit digit
    · obtain rfl : '.' = c := Option.mem_unique head' head
      rfl
  simp only [take?, signed, takeRun_append_of_all h.whole]
  cases fraction : n.fraction with
  | some digits =>
    have ends : takeRun isDigit ('.' :: (digits ++ (powerText n.power ++ rest)))
        = ([], '.' :: (digits ++ (powerText n.power ++ rest))) :=
      takeRun_of_head (by rintro _ ⟨⟩; rfl)
    have present : (n.whole.isEmpty
        && (digits ++ (takeRun isDigit (powerText n.power ++ rest)).1).isEmpty) = false := by
      rcases h.present with whole | ⟨digits', mem, filled⟩
      · simp [whole]
      · obtain rfl : digits = digits' := Option.some.inj (fraction.symm.trans mem)
        simp [filled]
    simp only [pointText, List.cons_append, ends, List.append_nil,
      takeRun_append_of_all (h.fraction digits fraction), present, Bool.false_eq_true, if_false]
    exact ⟨_, _, rfl, closeWithPower_powerText_le h.power ..⟩
  | none =>
    have present : (n.whole ++ (takeRun isDigit (powerText n.power ++ rest)).1).isEmpty = false := by
      have : n.whole ≠ [] := h.present.resolve_right (by simp [fraction])
      simp [this]
    simp only [pointText, List.nil_append, present, Bool.false_and, Bool.false_eq_true, if_false]
    split
    · rename_i afterPoint point
      -- a point behind the digits: no power mark was there
      have powerless : n.power = none := by
        by_contra marked
        obtain ⟨mark, marked⟩ := Option.ne_none_iff_exists'.mp marked
        rw [marked, powerText, (h.power mark marked).takeRun_text_append] at point
        rcases (h.power mark marked).letter with letter | letter <;>
          simp [PowerMark.text, letter] at point
      have bound := takeRun_length_le isDigit rest
      rw [powerless, powerText, List.nil_append] at point
      rw [point, List.length_cons] at bound
      exact ⟨_, _, rfl, Nat.le_trans (closeWithPower_length_le ..)
        (Nat.le_trans (takeRun_length_le ..) (Nat.le_of_succ_le bound))⟩
    · exact ⟨_, _, rfl, closeWithPower_powerText_le h.power ..⟩

/-! ## The longest numeral -/

/-- **What the reader takes is the longest numeral** at the front. -/
theorem longest_of_take? {cs rest : List Char} {n : Numeral} (taken : take? cs = some (n, rest)) :
    Longest IsNumeral n.text rest := by
  refine longest_of_le ⟨n, wellFormed_of_take? taken, rfl⟩ (text_append_of_take? taken) ?_
  rintro _ beyond ⟨m, formed, rfl⟩ rfl
  obtain ⟨longer, left, taken', le⟩ := exists_take?_text_append formed beyond
  obtain ⟨-, rfl⟩ : n = longer ∧ rest = left := by simpa using taken.symm.trans taken'
  exact le

/-- **The longest numeral is the one that is taken.** -/
theorem take?_of_longest {front rest : List Char} (h : Longest IsNumeral front rest) :
    ∃ n, n.text = front ∧ take? (front ++ rest) = some (n, rest) := by
  obtain ⟨n, formed, rfl⟩ := h.1
  obtain ⟨longer, left, taken, -⟩ := exists_take?_text_append formed rest
  obtain ⟨same, rfl⟩ := (longest_of_take? taken).unique h (text_append_of_take? taken)
  exact ⟨longer, same, taken⟩

/-- **Nothing is taken just if no numeral stands at the front**, however short. -/
theorem take?_eq_none {cs : List Char} : take? cs = none ↔ NoNumeral cs := by
  constructor
  · rintro untaken _ ⟨rest, rfl⟩ ⟨n, formed, rfl⟩
    obtain ⟨longer, beyond, taken, -⟩ := exists_take?_text_append formed rest
    rw [untaken] at taken
    simp at taken
  · intro absent
    by_contra present
    obtain ⟨⟨n, rest⟩, taken⟩ := Option.ne_none_iff_exists'.mp present
    exact absent n.text ⟨rest, text_append_of_take? taken⟩ ⟨n, wellFormed_of_take? taken, rfl⟩

end Numeral

end VectorPage
