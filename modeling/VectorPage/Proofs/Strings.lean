/-
Strings in parentheses: what their bodies spell, and where they end.

A body is a row of spellings, each of which stands for one character, and of
bodies in raw parentheses, which stand for themselves. The parenthesis that
closes a string is thus the one behind its body; where no body is followed by
one, the string runs to the end of the text (`Unclosed`).

The reader keeps a count of the open parentheses instead of a tree. What it
does on a body is shown by induction on the body, for any count. That these are
all the cases, that every text after an opening parenthesis either begins with
a body and a closing one or is unclosed, is a fact about the grammar alone; with
it the reader needs no second induction.
-/
import Mathlib.Data.List.Basic
import VectorPage.Token.Lexer

set_option autoImplicit false

namespace VectorPage

/-! ## The grammar -/

/-- The digits of an octal escape in front of a text: one to three, and fewer
than three only where no octal digit follows. -/
structure IsOctalRun (digits rest : List Char) : Prop where
  octal : ∀ c ∈ digits, isOctalDigit c = true
  present : digits ≠ []
  atMost : digits.length ≤ 3
  ends : digits.length = 3 ∨ ∀ c ∈ rest.head?, isOctalDigit c = false

/-- **The spellings of a character** inside a string, given what follows: the
character itself, a backslash with a character that is no octal digit, or a
backslash with octal digits. -/
inductive Spells : List Char → Char → List Char → Prop where
  | plain {c : Char} {rest : List Char} (opening : c ≠ '(') (closing : c ≠ ')')
      (escape : c ≠ '\\') : Spells [c] c rest
  | escaped {c : Char} {rest : List Char} (octal : isOctalDigit c = false) :
      Spells ['\\', c] (escapedChar c) rest
  | octal {digits rest : List Char} (run : IsOctalRun digits rest) :
      Spells ('\\' :: digits) (byteChar (octalValue digits)) rest

/-- **The body of a string** and the text it stands for. Its raw parentheses
pair up. -/
inductive StringBody : List Char → List Char → Prop where
  | nil : StringBody [] []
  | spelled {spelling body text : List Char} {c : Char} :
      Spells spelling c body → StringBody body text → StringBody (spelling ++ body) (c :: text)
  | nested {inner innerText body text : List Char} :
      StringBody inner innerText → StringBody body text →
      StringBody ('(' :: (inner ++ ')' :: body)) ('(' :: (innerText ++ ')' :: text))

/-- **A text in which a string is not closed**, and what the string stands for.
A backslash at the very end stands for nothing. -/
inductive Unclosed : List Char → List Char → Prop where
  | nil : Unclosed [] []
  | backslash : Unclosed ['\\'] []
  | spelled {spelling rest text : List Char} {c : Char} :
      Spells spelling c rest → Unclosed rest text → Unclosed (spelling ++ rest) (c :: text)
  | nested {inner innerText rest text : List Char} :
      StringBody inner innerText → Unclosed rest text →
      Unclosed ('(' :: (inner ++ ')' :: rest)) ('(' :: (innerText ++ ')' :: text))
  | opened {rest text : List Char} : Unclosed rest text → Unclosed ('(' :: rest) ('(' :: text)

/-! ## What follows a spelling -/

namespace Spells

variable {spelling body rest : List Char} {c : Char}

/-- A spelling at the end of a body stands also where the text goes on, if not
with an octal digit. -/
theorem append (h : Spells spelling c body) (ends : ∀ d ∈ rest.head?, isOctalDigit d = false) :
    Spells spelling c (body ++ rest) := by
  cases h with
  | plain opening closing escape => exact .plain opening closing escape
  | escaped octal => exact .escaped octal
  | octal run =>
    refine .octal ⟨run.octal, run.present, run.atMost, run.ends.imp_right ?_⟩
    intro stops d head
    cases body with
    | nil => exact ends d head
    | cons first more => exact stops d head

/-- How a character is spelled does not depend on what is far behind. -/
theorem of_append (h : Spells spelling c (body ++ rest)) : Spells spelling c body := by
  cases h with
  | plain opening closing escape => exact .plain opening closing escape
  | escaped octal => exact .escaped octal
  | octal run =>
    refine .octal ⟨run.octal, run.present, run.atMost, run.ends.imp_right ?_⟩
    intro stops d head
    cases body with
    | nil => simp at head
    | cons first more => exact stops d head

theorem length_pos (h : Spells spelling c rest) : 0 < spelling.length := by
  cases h <;> simp

end Spells

/-! ## Bodies are all there is -/

/-- What an escape takes off a text is an octal run in front of what it
leaves. -/
theorem isOctalRun_of_takeEscape {c : Char} (octal : isOctalDigit c = true) (rest : List Char) :
    IsOctalRun (c :: (rest.take 2).takeWhile isOctalDigit)
      (rest.drop ((rest.take 2).takeWhile isOctalDigit).length) := by
  refine ⟨?_, by simp, ?_, ?_⟩
  · intro d mem
    rcases List.mem_cons.mp mem with rfl | mem
    · exact octal
    · exact List.all_eq_true.mp List.all_takeWhile d mem
  · have shorter := (List.takeWhile_prefix isOctalDigit (l := rest.take 2)).length_le
    rw [List.length_take] at shorter
    simp only [List.length_cons]
    omega
  · -- the run stops at its third digit, at the end of the text or at another character
    rcases rest with _ | ⟨first, _ | ⟨second, rest⟩⟩
    · simp
    · cases h : isOctalDigit first <;> simp [h]
    · cases h : isOctalDigit first <;> cases h' : isOctalDigit second <;> simp [h, h']

/-- **A text begins with a spelling**, or with a raw parenthesis, or it is a
lone backslash, or it is empty. -/
theorem exists_spells (cs : List Char) :
    (∃ spelling c rest, Spells spelling c rest ∧ spelling ++ rest = cs)
    ∨ (∃ rest, cs = '(' :: rest) ∨ (∃ rest, cs = ')' :: rest) ∨ cs = ['\\'] ∨ cs = [] := by
  rcases cs with _ | ⟨c, tail⟩
  · simp
  by_cases opening : c = '('
  · exact .inr (.inl ⟨tail, by rw [opening]⟩)
  by_cases closing : c = ')'
  · exact .inr (.inr (.inl ⟨tail, by rw [closing]⟩))
  by_cases escape : c = '\\'
  · subst escape
    rcases tail with _ | ⟨d, rest⟩
    · simp
    by_cases octal : isOctalDigit d = true
    · refine .inl ⟨_, _, _, .octal (isOctalRun_of_takeEscape octal rest), ?_⟩
      rw [List.cons_append, List.cons_append]
      congr 2
      have run : (rest.take 2).takeWhile isOctalDigit <+: rest :=
        (List.takeWhile_prefix _).trans (List.take_prefix 2 rest)
      exact List.prefix_iff_eq_append.mp run
    · exact .inl ⟨_, _, rest, .escaped (by simpa using octal), rfl⟩
  · exact .inl ⟨_, _, tail, .plain opening closing escape, rfl⟩

/-- **A string is closed behind a body, or not at all.** The induction is on the
length of the text, since behind a nested body the text goes on. -/
theorem closed_or_unclosed (cs : List Char) :
    (∃ body text rest, StringBody body text ∧ body ++ ')' :: rest = cs)
    ∨ ∃ text, Unclosed cs text := by
  induction size : cs.length using Nat.strongRecOn generalizing cs with
  | ind size ih =>
    subst size
    rcases exists_spells cs with
      ⟨spelling, c, rest, spells, rfl⟩ | ⟨rest, rfl⟩ | ⟨rest, rfl⟩ | rfl | rfl
    · have := spells.length_pos
      rcases ih rest.length (by rw [List.length_append]; omega) rest rfl with
        ⟨body, text, beyond, isBody, rfl⟩ | ⟨text, unclosed⟩
      · exact .inl ⟨_, _, beyond, .spelled spells.of_append isBody, List.append_assoc ..⟩
      · exact .inr ⟨_, .spelled spells unclosed⟩
    · rcases ih rest.length (by simp) rest rfl with
        ⟨inner, innerText, beyond, isInner, rfl⟩ | ⟨text, unclosed⟩
      · rcases ih beyond.length (by simp; omega) beyond rfl with
          ⟨body, text, beyond', isBody, rfl⟩ | ⟨text, unclosed⟩
        · exact .inl ⟨_, _, beyond', .nested isInner isBody, by simp⟩
        · exact .inr ⟨_, .nested isInner unclosed⟩
      · exact .inr ⟨_, .opened unclosed⟩
    · exact .inl ⟨[], [], rest, .nil, rfl⟩
    · exact .inr ⟨_, .backslash⟩
    · exact .inr ⟨_, .nil⟩

/-! ## The reader -/

/-- Up to three octal digits are taken for one character. -/
theorem takeEscape_of_isOctalRun {c : Char} {digits rest : List Char}
    (run : IsOctalRun (c :: digits) rest) :
    takeEscape c (digits ++ rest) = (byteChar (octalValue (c :: digits)), rest) := by
  have more : ((digits ++ rest).take 2).takeWhile isOctalDigit = digits := by
    have all : ∀ d ∈ digits, isOctalDigit d = true := fun d mem => run.octal d (by simp [mem])
    have atMost : digits.length ≤ 2 := Nat.le_of_succ_le_succ run.atMost
    rw [List.take_append, List.take_of_length_le atMost, List.takeWhile_append_of_pos all]
    rcases run.ends with full | ends
    · have full : digits.length = 2 := Nat.succ.inj full
      simp [full]
    · cases rest with
      | nil => simp
      | cons first more => cases 2 - digits.length <;> simp [ends first rfl]
  simp only [takeEscape, run.octal c (by simp), more, if_true, List.drop_left]

/-- **A spelling is read** as the character it stands for. -/
theorem takeString_spelled {spelling rest : List Char} {c : Char} (h : Spells spelling c rest)
    (depth : Nat) (done : List Char) :
    takeString depth done (spelling ++ rest) = takeString depth (c :: done) rest := by
  cases h with
  | plain opening closing escape =>
    exact takeString.eq_7 depth done c rest (fun h _ => escape h) (fun _ _ h _ => escape h)
      opening closing
  | escaped octal => simp [takeString, takeEscape, octal]
  | @octal digits _ run =>
    rcases digits with _ | ⟨d, digits⟩
    · exact absurd rfl run.present
    · simp [takeString, takeEscape_of_isOctalRun run]

/-- Parentheses are read as themselves if what stands between them is read as
some text. -/
theorem takeString_parentheses {inner innerText rest : List Char}
    (reads : ∀ depth done, takeString depth done (inner ++ ')' :: rest)
      = takeString depth (innerText.reverse ++ done) (')' :: rest))
    (depth : Nat) (done : List Char) :
    takeString depth done ('(' :: (inner ++ ')' :: rest))
      = takeString depth (')' :: (innerText.reverse ++ '(' :: done)) rest := by
  calc takeString depth done ('(' :: (inner ++ ')' :: rest))
      = takeString (depth + 1) ('(' :: done) (inner ++ ')' :: rest) := by rw [takeString]
    _ = takeString (depth + 1) (innerText.reverse ++ '(' :: done) (')' :: rest) := reads _ _
    _ = takeString depth (')' :: (innerText.reverse ++ '(' :: done)) rest := by rw [takeString]

/-- **A body is read** as the text it stands for, whatever count of open
parentheses the reader has come to. -/
theorem takeString_body {body text : List Char} (h : StringBody body text) (depth : Nat)
    (done : List Char) {rest : List Char} (ends : ∀ d ∈ rest.head?, isOctalDigit d = false) :
    takeString depth done (body ++ rest) = takeString depth (text.reverse ++ done) rest := by
  induction h generalizing depth done rest with
  | nil => rfl
  | @spelled spelling body text c spells _ ih =>
    rw [List.append_assoc, takeString_spelled (spells.append ends), ih depth (c :: done) ends]
    simp
  | @nested inner innerText body text _ _ ihInner ih =>
    have reads : ∀ depth done, takeString depth done (inner ++ ')' :: (body ++ rest))
        = takeString depth (innerText.reverse ++ done) (')' :: (body ++ rest)) :=
      fun depth done => ihInner depth done (by rintro _ ⟨⟩; rfl)
    rw [List.cons_append, List.append_assoc, List.cons_append, takeString_parentheses reads,
      ih _ _ ends]
    simp

/-- **A string ends at the bracket that closes it**; those inside are balanced or
escaped. -/
theorem takeString_closed {body text : List Char} (h : StringBody body text)
    (rest : List Char) : takeString 0 [] (body ++ ')' :: rest) = (text, rest) := by
  rw [takeString_body h 0 [] (by rintro _ ⟨⟩; rfl)]
  simp [takeString]

/-- Without such a bracket a string goes on to the end of the text, and is a string all
the same. -/
theorem takeString_unclosed {cs text : List Char} (h : Unclosed cs text) (depth : Nat)
    (done : List Char) : takeString depth done cs = (done.reverse ++ text, []) := by
  induction h generalizing depth done with
  | nil => simp [takeString]
  | backslash => simp [takeString]
  | spelled spells _ ih =>
    rw [takeString_spelled spells, ih]
    simp
  | nested isInner _ ih =>
    rw [takeString_parentheses
      (fun depth done => takeString_body isInner depth done (by rintro _ ⟨⟩; rfl)), ih]
    simp
  | opened _ ih =>
    rw [takeString, ih]
    simp

end VectorPage
