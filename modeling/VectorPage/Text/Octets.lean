/-
Reading octets as UTF-8, with a replacement character where they are not.

A character is one to four octets. The first octet fixes how many follow and
which range the second one may come from; the later ones are plain
continuation octets. Where an octet does not fit, what was read so far of the
character becomes one U+FFFD and reading resumes at the octet that did not
fit, so a run of bad octets gives one replacement per longest beginning of a
character.
-/
set_option autoImplicit false

namespace VectorPage

/-- What the first octet of a longer character announces: the least and the
greatest second octet, the number of octets after the first, and the bits of
the code point it holds itself. -/
structure Lead where
  least : Nat
  greatest : Nat
  following : Nat
  bits : Nat

/-- The announcement of an octet of 128 or more, if it can begin a
character. -/
def lead? (b : Nat) : Option Lead :=
  if 0xC2 ≤ b ∧ b ≤ 0xDF then some ⟨0x80, 0xBF, 1, b - 0xC0⟩
  else if b = 0xE0 then some ⟨0xA0, 0xBF, 2, 0⟩
  else if b = 0xED then some ⟨0x80, 0x9F, 2, 0xD⟩
  else if 0xE1 ≤ b ∧ b ≤ 0xEF then some ⟨0x80, 0xBF, 2, b - 0xE0⟩
  else if b = 0xF0 then some ⟨0x90, 0xBF, 3, 0⟩
  else if 0xF1 ≤ b ∧ b ≤ 0xF3 then some ⟨0x80, 0xBF, 3, b - 0xF0⟩
  else if b = 0xF4 then some ⟨0x80, 0x8F, 3, 4⟩
  else none

/-- The replacement character. -/
def replacement : Char := '�'

/-- A character of which octets are still owed: what the next octet must be,
how many are owed, and the bits collected. -/
structure Owed where
  least : Nat
  greatest : Nat
  count : Nat
  bits : Nat

/-- What an octet does when no character is under way: it is a character, it
begins one, or it is replaced. -/
def freshOctet (done : List Char) (b : Nat) : List Char × Option Owed :=
  if b < 0x80 then (Char.ofNat b :: done, none)
  else
    match lead? b with
    | some l => (done, some ⟨l.least, l.greatest, l.following, l.bits⟩)
    | none => (replacement :: done, none)

/-- One octet: the characters read (last one first) and the character under
way. -/
def readOctet : List Char × Option Owed → UInt8 → List Char × Option Owed
  | (done, none), b => freshOctet done b.toNat
  | (done, some owed), b =>
    if owed.least ≤ b.toNat ∧ b.toNat ≤ owed.greatest then
      let bits := 64 * owed.bits + (b.toNat - 0x80)
      if owed.count ≤ 1 then (Char.ofNat bits :: done, none)
      else (done, some ⟨0x80, 0xBF, owed.count - 1, bits⟩)
    else freshOctet (replacement :: done) b.toNat

/-- **The text of a list of octets**, each longest beginning of a character
that is not completed replaced by U+FFFD. -/
def textOfOctets (octets : List UInt8) : String :=
  match octets.foldl readOctet ([], none) with
  | (done, none) => String.ofList done.reverse
  | (done, some _) => String.ofList (replacement :: done).reverse

end VectorPage
