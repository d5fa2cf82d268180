/-
Decimal numerals: reading them off the front of a text, and their value.

A numeral is an optional sign, digits with at most one point among, before
or after them, and an optional exponent. `Numeral.take?` reads the longest
numeral at the front of a text; an exponent mark without digits behind it is
not part of the numeral and stays in the rest. `Numeral.text` writes the
parts back, so what was read is what stood there. The value is the double
nearest to the decimal.
-/
import VectorPage.Text.Run

set_option autoImplicit false

namespace VectorPage

/-- The ten decimal digits. -/
def isDigit (c : Char) : Bool :=
  '0' ≤ c && c ≤ '9'

/-- The number a digit stands for. -/
def digitValue (c : Char) : Nat :=
  c.toNat - 48

/-- The number a list of digits stands for, most significant first. -/
def digitsValue (ds : List Char) : Nat :=
  ds.foldl (fun n c => 10 * n + digitValue c) 0

/-- The plus and minus signs. -/
def isSign (c : Char) : Bool :=
  c == '+' || c == '-'

/-- The power of ten at the end of a numeral: the letter, the sign if there
is one, the digits. -/
structure PowerMark where
  letter : Char
  sign : Option Char
  digits : List Char
  deriving DecidableEq, Repr

/-- The parts of a decimal numeral. `fraction` is absent when there is no
point, and may be empty when there is one. -/
structure Numeral where
  sign : Option Char
  whole : List Char
  fraction : Option (List Char)
  power : Option PowerMark
  deriving DecidableEq, Repr

namespace PowerMark

/-- The characters of the mark. -/
def text (p : PowerMark) : List Char :=
  p.letter :: (p.sign.toList ++ p.digits)

/-- The exponent that the mark stands for. -/
def value (p : PowerMark) : Int :=
  if p.sign = some '-' then -(digitsValue p.digits : Int) else digitsValue p.digits

end PowerMark

/-- An optional sign and what follows it. -/
def takeSign : List Char → Option Char × List Char
  | c :: rest => if isSign c then (some c, rest) else (none, c :: rest)
  | [] => (none, [])

/-- The power mark at the front of a text: a letter `e`, an optional sign
and at least one digit. -/
def PowerMark.take? : List Char → Option (PowerMark × List Char)
  | c :: rest =>
    if c == 'e' || c == 'E' then
      let (sign, unsigned) := takeSign rest
      let (digits, beyond) := takeRun isDigit unsigned
      if digits.isEmpty then none else some (⟨c, sign, digits⟩, beyond)
    else none
  | [] => none

/-! ### What is taken and what is left make up the text -/

theorem takeSign_append (cs : List Char) : (takeSign cs).1.toList ++ (takeSign cs).2 = cs := by
  cases cs with
  | nil => rfl
  | cons c rest =>
    simp only [takeSign]
    split <;> rfl

theorem PowerMark.text_append_of_take? {cs rest : List Char} {mark : PowerMark}
    (h : PowerMark.take? cs = some (mark, rest)) : mark.text ++ rest = cs := by
  cases cs with
  | nil => simp [PowerMark.take?] at h
  | cons c tail =>
    simp only [PowerMark.take?] at h
    split at h
    · split at h
      · simp at h
      · obtain ⟨rfl, rfl⟩ := Prod.mk.inj (Option.some.inj h)
        simp [PowerMark.text, takeRun_append, takeSign_append]
    · simp at h

namespace Numeral

/-- The characters of the numeral. -/
def text (n : Numeral) : List Char :=
  n.sign.toList ++ n.whole
    ++ (match n.fraction with
        | some digits => '.' :: digits
        | none => [])
    ++ (match n.power with
        | some mark => mark.text
        | none => [])

/-- Closes a numeral with the power mark at the front of the rest, if one
stands there. -/
def closeWithPower (sign : Option Char) (whole : List Char) (fraction : Option (List Char))
    (rest : List Char) : Numeral × List Char :=
  match PowerMark.take? rest with
  | some (mark, beyond) => (⟨sign, whole, fraction, some mark⟩, beyond)
  | none => (⟨sign, whole, fraction, none⟩, rest)

/-- **The longest numeral at the front of a text**, and the rest. There is
none when no digit stands before or directly after the point. -/
def take? (cs : List Char) : Option (Numeral × List Char) :=
  let (sign, unsigned) := takeSign cs
  let (whole, afterWhole) := takeRun isDigit unsigned
  match afterWhole with
  | '.' :: afterPoint =>
    let (fraction, rest) := takeRun isDigit afterPoint
    if whole.isEmpty && fraction.isEmpty then none
    else some (closeWithPower sign whole (some fraction) rest)
  | _ =>
    if whole.isEmpty then none
    else some (closeWithPower sign whole none afterWhole)

theorem closeWithPower_append (sign : Option Char) (whole : List Char)
    (fraction : Option (List Char)) (rest : List Char) :
    (closeWithPower sign whole fraction rest).1.text ++ (closeWithPower sign whole fraction rest).2
      = (⟨sign, whole, fraction, none⟩ : Numeral).text ++ rest := by
  unfold closeWithPower
  split
  · rename_i mark beyond h
    simp [text, PowerMark.text_append_of_take? h]
  · rfl

/-- The numeral and the rest make up the text they were read from. -/
theorem text_append_of_take? {cs rest : List Char} {n : Numeral}
    (h : take? cs = some (n, rest)) : n.text ++ rest = cs := by
  simp only [take?] at h
  have whole := takeRun_append isDigit (takeSign cs).2
  split at h
  · rename_i afterPoint point
    split at h
    · simp at h
    · have parts := Option.some.inj h
      have closed := closeWithPower_append (takeSign cs).1 (takeRun isDigit (takeSign cs).2).1
        (some (takeRun isDigit afterPoint).1) (takeRun isDigit afterPoint).2
      rw [parts] at closed
      rw [closed]
      simp only [text, List.append_nil, List.append_assoc, List.cons_append, takeRun_append]
      rw [← point, whole, takeSign_append]
  · split at h
    · simp at h
    · have parts := Option.some.inj h
      have closed := closeWithPower_append (takeSign cs).1 (takeRun isDigit (takeSign cs).2).1 none
        (takeRun isDigit (takeSign cs).2).2
      rw [parts] at closed
      rw [closed]
      simp only [text, List.append_nil, List.append_assoc]
      rw [whole, takeSign_append]

/-- A numeral has at least one character. -/
theorem text_ne_nil_of_take? {cs rest : List Char} {n : Numeral}
    (h : take? cs = some (n, rest)) : n.text ≠ [] := by
  have parts : ∀ (sign : Option Char) (whole : List Char) (fraction : Option (List Char))
      (tail : List Char), whole ≠ [] ∨ fraction ≠ none →
      (closeWithPower sign whole fraction tail).1.text ≠ [] := by
    intro sign whole fraction tail present
    unfold closeWithPower text
    split <;> rcases present with h | h <;> cases fraction <;> simp_all
  simp only [take?] at h
  split at h
  · split at h
    · simp at h
    · have closed := parts (takeSign cs).1 (takeRun isDigit (takeSign cs).2).1
      obtain h := Option.some.inj h
      have := closed _ _ (Or.inr (by simp)) |> fun f => h ▸ f
      exact this
  · split at h
    · simp at h
    · rename_i present
      obtain h := Option.some.inj h
      have := parts (takeSign cs).1 (takeRun isDigit (takeSign cs).2).1 none
        (takeRun isDigit (takeSign cs).2).2 (Or.inl (by simpa using present))
      rw [h] at this
      exact this

/-- The rest after a numeral is shorter than the text. -/
theorem take?_shorter {cs rest : List Char} {n : Numeral} (h : take? cs = some (n, rest)) :
    rest.length < cs.length := by
  have parts := text_append_of_take? h
  have present := List.length_pos_iff.mpr (text_ne_nil_of_take? h)
  rw [← parts, List.length_append]
  omega

/-! ## Value -/

/-- Whether the number of bits alone puts `n / 10^k` beyond all doubles: `10^k`
has at most `10 k / 3 + 1` bits, and the doubles end below `2^1024`. -/
def isBeyondDoubles (n k : Nat) : Bool :=
  1025 + 10 * k / 3 ≤ n.log2

/-- The double nearest to `n · 10^e`, where `n` has at most `digits` digits.
Decimals far beyond the range of doubles are settled before any power of ten
is computed, so that neither the size of the exponent nor the length of the
numeral costs much. -/
def nearest (n : Nat) (digits : Nat) (e : Int) : Float :=
  if n = 0 then 0
  else if 400 < e || isBeyondDoubles n (-e).toNat then Float.ofScientific 1 false 400
  else if e + digits < -400 then 0
  else if 0 ≤ e then Float.ofScientific n false e.toNat
  else Float.ofScientific n true (-e).toNat

/-- **The value of a numeral**, correctly rounded. -/
def value (n : Numeral) : Float :=
  let fraction := n.fraction.getD []
  let digits := n.whole ++ fraction
  let power := (n.power.map PowerMark.value).getD 0
  let size := nearest (digitsValue digits) digits.length (power - fraction.length)
  if n.sign = some '-' then -size else size

/-- The value of a text that is a numeral from its first character to its
last. -/
def read? (cs : List Char) : Option Float :=
  match take? cs with
  | some (n, []) => some n.value
  | _ => none

end Numeral

end VectorPage
