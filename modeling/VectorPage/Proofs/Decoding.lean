/-
What a string in parentheses decodes to.

`StringBody` describes bodies as the reader meets them: how many octal digits
belong to an escape depends on what follows it. A program that writes strings
has no such doubts. It writes octal escapes with all three digits, and then
every character can be spelled without a look at its neighbours. `SpelledBody`
is a body put together in this way, as a tree, with the text it is written as
and the text it stands for.

Whatever such a body is made of, a string around it is read as the text it
stands for, and reading goes on right behind the closing parenthesis.
-/
import VectorPage.Number.Fixed
import VectorPage.Proofs.Segmentation

set_option autoImplicit false

namespace VectorPage

/-! ## Spellings -/

/-- **A spelling of a character** that does not depend on what follows it. -/
inductive Spelling where
  /-- The character as it stands. -/
  | itself (c : Char) (free : c ∉ ['(', ')', '\\'])
  /-- A backslash and the character: a parenthesis, a backslash, a space, or any
  other that has no meaning of its own behind a backslash. -/
  | escaped (c : Char) (noLetter : c ∉ ['n', 'r', 't', 'b', 'f'])
      (noDigit : ¬ ('0' ≤ c ∧ c ≤ '7'))
  | newline
  | carriageReturn
  | tab
  | backspace
  | formFeed
  /-- A backslash and three octal digits. -/
  | octal (high middle low : Fin 8)

namespace Spelling

/-- The characters that are written. -/
def text : Spelling → List Char
  | itself c _ => [c]
  | escaped c _ _ => ['\\', c]
  | newline => ['\\', 'n']
  | carriageReturn => ['\\', 'r']
  | tab => ['\\', 't']
  | backspace => ['\\', 'b']
  | formFeed => ['\\', 'f']
  | octal high middle low => ['\\', digitChar high, digitChar middle, digitChar low]

/-- The character that is meant. Octal numbers above 255 are cut to it. -/
def char : Spelling → Char
  | itself c _ | escaped c _ _ => c
  | newline => '\n'
  | carriageReturn => '\r'
  | tab => '\t'
  | backspace => '\x08'
  | formFeed => '\x0c'
  | octal high middle low => Char.ofNat (min (64 * high + 8 * middle + low) 255)

end Spelling

/-- **The body of a string** as a row of spellings, and of bodies in raw
parentheses. -/
inductive SpelledBody where
  | nil
  | spelled (first : Spelling) (rest : SpelledBody)
  | nested (inner rest : SpelledBody)

namespace SpelledBody

/-- The characters that are written. -/
def text : SpelledBody → List Char
  | nil => []
  | spelled first rest => first.text ++ rest.text
  | nested inner rest => '(' :: (inner.text ++ ')' :: rest.text)

/-- The characters that are meant. Raw parentheses stand for themselves. -/
def decoded : SpelledBody → List Char
  | nil => []
  | spelled first rest => first.char :: rest.decoded
  | nested inner rest => '(' :: (inner.decoded ++ ')' :: rest.decoded)

end SpelledBody

/-! ## Spellings are read as such -/

theorem isOctalDigit_digitChar : ∀ d : Fin 8, isOctalDigit (digitChar d) = true := by
  decide

theorem digitValue_digitChar : ∀ d : Fin 8, digitValue (digitChar d) = d := by
  decide

/-- Behind a backslash, a character other than the five letters stands for
itself. -/
theorem escapedChar_of_not_mem {c : Char} (other : c ∉ ['n', 'r', 't', 'b', 'f']) :
    escapedChar c = c := by
  simp only [List.mem_cons, List.not_mem_nil, or_false, not_or] at other
  obtain ⟨n, r, t, b, f⟩ := other
  unfold escapedChar
  split
  · exact absurd rfl n
  · exact absurd rfl r
  · exact absurd rfl t
  · exact absurd rfl b
  · exact absurd rfl f
  · rfl

/-- Three octal digits are a whole escape, whatever follows them. -/
theorem isOctalRun_of_three (high middle low : Fin 8) (rest : List Char) :
    IsOctalRun [digitChar high, digitChar middle, digitChar low] rest := by
  refine ⟨?_, by simp, Nat.le_refl 3, .inl rfl⟩
  intro c mem
  simp only [List.mem_cons, List.not_mem_nil, or_false] at mem
  rcases mem with rfl | rfl | rfl
  · exact isOctalDigit_digitChar high
  · exact isOctalDigit_digitChar middle
  · exact isOctalDigit_digitChar low

/-- Three octal digits in a row. The value may be beyond one octet, and is reduced where
the character is made. -/
theorem octalValue_of_three (high middle low : Fin 8) :
    octalValue [digitChar high, digitChar middle, digitChar low]
      = 64 * high + 8 * middle + low := by
  simp only [octalValue, List.foldl_cons, List.foldl_nil, digitValue_digitChar]
  omega

/-- **A spelling spells its character**, in front of any text. -/
theorem Spelling.spells (s : Spelling) (rest : List Char) : Spells s.text s.char rest := by
  cases s with
  | itself c free =>
    simp only [List.mem_cons, List.not_mem_nil, or_false, not_or] at free
    obtain ⟨opening, closing, escape⟩ := free
    exact .plain opening closing escape
  | escaped c noLetter noDigit =>
    have octal : isOctalDigit c = false := by
      rw [← Bool.not_eq_true, isOctalDigit, Bool.and_eq_true, decide_eq_true_iff,
        decide_eq_true_iff]
      exact noDigit
    have spelled : Spells ['\\', c] (escapedChar c) rest := .escaped octal
    rwa [escapedChar_of_not_mem noLetter] at spelled
  | octal high middle low =>
    have spelled := Spells.octal (isOctalRun_of_three high middle low rest)
    rwa [byteChar, octalValue_of_three] at spelled
  | newline | carriageReturn | tab | backspace | formFeed => exact .escaped rfl

/-- **A spelled body is a body** that stands for what is meant. -/
theorem SpelledBody.stringBody (body : SpelledBody) : StringBody body.text body.decoded := by
  induction body with
  | nil => exact .nil
  | spelled first rest ih => exact .spelled (first.spells rest.text) ih
  | nested inner rest ihInner ih => exact .nested ihInner ih

/-- **Strings are decoded as they were spelled.** A text that begins with a body
in parentheses has a string as its first token, whose contents are what the body
means; what is left to read is all that stands behind the closing parenthesis.
So the tokens of the text are that string and then the tokens of the rest. -/
theorem strings_decoded_as_spelled (body : SpelledBody) (rest : String) :
    Token.take? ('(' :: (body.text ++ ')' :: rest.toList))
      = some (.string (String.ofList body.decoded), rest.toList)
    ∧ lex ("(" ++ String.ofList body.text ++ ")" ++ rest)
      = .string (String.ofList body.decoded) :: lex rest := by
  have lexeme : Lexeme (.string (String.ofList body.decoded)) ('(' :: (body.text ++ [')']))
      rest.toList := .string body.stringBody
  have source : ("(" ++ String.ofList body.text ++ ")" ++ rest).toList
      = '(' :: (body.text ++ [')']) ++ rest.toList := by simp
  constructor
  · have taken := lexeme.take?
    rwa [List.cons_append, List.append_assoc, List.singleton_append] at taken
  · rw [lex, source, lexOnto_lexeme [] lexeme, lexOnto_eq_append, lex]
    rfl

end VectorPage
