/-
From characters to tokens.

Reading never fails. Comments are replaced by a space first, wherever the
percent sign stands. Then, from the left: white space is passed over; where a
token begins it is read as far as its kind allows, and the unread rest is
handed on; a character at which no token begins is passed over too. Strings
that are not closed run to the end.

Each reader takes the text from the first character of its token and returns
the rest *as a suffix of that text*. The lemma that the rest is shorter
(`Token.take?_shorter`) is what makes the loop end.
-/
import VectorPage.Number.Numeral
import VectorPage.Text.Blank
import VectorPage.Token.Basic

set_option autoImplicit false

namespace VectorPage

/-! ## Comments -/

/-- The characters kept so far, last one first, and whether a comment is
open, after one more character. -/
def commentStep : List Char × Bool → Char → List Char × Bool
  | (done, true), c => if c == '\n' || c == '\r' then (c :: done, false) else (done, true)
  | (done, false), c => if c == '%' then (' ' :: done, true) else (c :: done, false)

/-- **The text without its comments.** A comment runs from a percent sign to
the end of the line, also inside a string, and leaves one space. -/
def stripComments (cs : List Char) : List Char :=
  (cs.foldl commentStep ([], false)).1.reverse

/-! ## Strings in parentheses -/

/-- The octal digits. -/
def isOctalDigit (c : Char) : Bool :=
  '0' ≤ c && c ≤ '7'

/-- The character whose code is a number, codes above 255 cut to it. -/
def byteChar (n : Nat) : Char :=
  Char.ofNat (min n 255)

/-- The number that a list of octal digits stands for. -/
def octalValue (ds : List Char) : Nat :=
  ds.foldl (fun n c => 8 * n + digitValue c) 0

/-- The character that a backslash and a letter stand for; a letter without a
meaning of its own stands for itself. -/
def escapedChar : Char → Char
  | 'n' => '\n'
  | 'r' => '\r'
  | 't' => '\t'
  | 'b' => '\x08'
  | 'f' => '\x0c'
  | c => c

/-- The character that the text after a backslash stands for, and the rest.
An octal digit takes up to two more with it. -/
def takeEscape (c : Char) (rest : List Char) : Char × List Char :=
  if isOctalDigit c then
    let more := (rest.take 2).takeWhile isOctalDigit
    (byteChar (octalValue (c :: more)), rest.drop more.length)
  else (escapedChar c, rest)

/-- An escape leaves a rest no longer than what stood after its first
character. -/
theorem takeEscape_length_le (c : Char) (rest : List Char) :
    (takeEscape c rest).2.length ≤ rest.length := by
  unfold takeEscape
  split
  · simp
  · exact Nat.le_refl _

/-- The body of a string from behind its opening parenthesis to the one that
closes it. `depth` counts the raw parentheses that are open inside; they
belong to the contents. A string that is not closed ends with the text. -/
def takeString (depth : Nat) (done : List Char) : List Char → List Char × List Char
  | [] => (done.reverse, [])
  | '\\' :: [] => (done.reverse, [])
  | '\\' :: c :: rest =>
    takeString depth ((takeEscape c rest).1 :: done) (takeEscape c rest).2
  | '(' :: rest => takeString (depth + 1) ('(' :: done) rest
  | ')' :: rest =>
    match depth with
    | 0 => (done.reverse, rest)
    | depth + 1 => takeString depth (')' :: done) rest
  | c :: rest => takeString depth (c :: done) rest
termination_by cs => cs.length
decreasing_by
  all_goals simp only [List.length_cons]
  · have := takeEscape_length_le c rest
    omega
  all_goals omega

/-- The rest after a string is no longer than its body. -/
theorem takeString_length_le (depth : Nat) (done cs : List Char) :
    (takeString depth done cs).2.length ≤ cs.length := by
  fun_induction takeString depth done cs with
  | case1 => simp
  | case2 => simp
  | case3 depth done c rest ih =>
    have := takeEscape_length_le c rest
    simp only [List.length_cons]
    omega
  | case4 depth done rest ih =>
    simp only [List.length_cons]
    omega
  | case5 done rest => simp
  | case6 done rest depth ih =>
    simp only [List.length_cons]
    omega
  | case7 depth done c rest _ _ _ ih =>
    simp only [List.length_cons]
    omega

/-! ## Hexadecimal strings -/

/-- The value of a hexadecimal digit. -/
def hexDigit? (c : Char) : Option Nat :=
  if isDigit c then some (digitValue c)
  else if 'a' ≤ c && c ≤ 'f' then some (c.toNat - 87)
  else if 'A' ≤ c && c ≤ 'F' then some (c.toNat - 55)
  else none

/-- The value of one or two characters: that of the hexadecimal digits before
the first character that is none. -/
def hexPairValue (first : Char) (second : Option Char) : Nat :=
  match hexDigit? first with
  | none => 0
  | some high =>
    match second.bind hexDigit? with
    | none => high
    | some low => 16 * high + low

/-- One character for every two, the last one alone if the number is odd. -/
def hexChars (done : List Char) : List Char → List Char
  | first :: second :: rest =>
    hexChars (Char.ofNat (hexPairValue first (some second)) :: done) rest
  | [single] => (Char.ofNat (hexPairValue single none) :: done).reverse
  | [] => done.reverse

/-- The contents of a hexadecimal string from behind its opening bracket, and
the rest behind the closing one. White space inside does not count. -/
def takeHexString (cs : List Char) : List Char × List Char :=
  let (body, rest) := takeRun (· != '>') cs
  (hexChars [] (body.filter fun c => !isBlank c), rest.drop 1)

/-! ## Names -/

/-- The characters that can begin a name: letters, and `_ - . ? *`. -/
def isNameStart (c : Char) : Bool :=
  c.isAlpha || c == '_' || c == '-' || c == '.' || c == '?' || c == '*'

/-- The characters of a name. -/
def isNameChar (c : Char) : Bool :=
  isNameStart c || isDigit c

/-- A name, and the rest. -/
def takeName? : List Char → Option (List Char × List Char)
  | c :: rest =>
    if isNameStart c then
      let (more, beyond) := takeRun isNameChar rest
      some (c :: more, beyond)
    else none
  | [] => none

/-! ## Tokens -/

namespace Token

/-- The token at the front of a text that begins with neither a parenthesis
nor a numeral, and the rest. -/
def takeMark? : List Char → Option (Token × List Char)
  | '\x7b' :: rest => some (openBrace, rest)
  | '\x7d' :: rest => some (closeBrace, rest)
  | '[' :: rest => some (openBracket, rest)
  | ']' :: rest => some (closeBracket, rest)
  | '<' :: '<' :: rest => some (openDict, rest)
  | '>' :: '>' :: rest => some (closeDict, rest)
  | '<' :: rest =>
    let (contents, beyond) := takeHexString rest
    some (hexString (String.ofList contents), beyond)
  | '/' :: rest =>
    (takeName? rest).map fun (letters, beyond) => (name (String.ofList letters), beyond)
  | cs => (takeName? cs).map fun (letters, beyond) => (operator (String.ofList letters), beyond)

/-- **The token at the front of a text**, and the rest; nothing where no token
begins. -/
def take? : List Char → Option (Token × List Char)
  | [] => none
  | '(' :: rest =>
    let (contents, beyond) := takeString 0 [] rest
    some (string (String.ofList contents), beyond)
  | cs =>
    match Numeral.take? cs with
    | some (numeral, rest) => some (number (String.ofList numeral.text), rest)
    | none => takeMark? cs

/-! ### The rest is shorter -/

theorem takeName?_shorter {cs letters rest : List Char} (h : takeName? cs = some (letters, rest)) :
    rest.length < cs.length := by
  cases cs with
  | nil => simp [takeName?] at h
  | cons c tail =>
    simp only [takeName?] at h
    split at h
    · obtain ⟨rfl, rfl⟩ := Prod.mk.inj (Option.some.inj h)
      have parts := congrArg List.length (takeRun_append isNameChar tail)
      simp only [List.length_append] at parts
      simp only [List.length_cons]
      omega
    · simp at h

theorem takeHexString_length_le (cs : List Char) : (takeHexString cs).2.length ≤ cs.length := by
  have parts := congrArg List.length (takeRun_append (· != '>') cs)
  simp only [List.length_append] at parts
  simp only [takeHexString, List.length_drop]
  omega

theorem takeMark?_shorter {cs rest : List Char} {token : Token}
    (h : takeMark? cs = some (token, rest)) : rest.length < cs.length := by
  unfold takeMark? at h
  split at h
  case h_7 tail _ =>
    -- a hexadecimal string: the bracket itself is gone, and more
    obtain ⟨rfl, rfl⟩ := Prod.mk.inj (Option.some.inj h)
    exact Nat.lt_succ_of_le (takeHexString_length_le tail)
  case h_8 tail =>
    simp only [Option.map_eq_some_iff] at h
    obtain ⟨⟨letters, beyond⟩, named, same⟩ := h
    obtain ⟨rfl, rfl⟩ := Prod.mk.inj same
    have := takeName?_shorter named
    simp only [List.length_cons]
    omega
  case h_9 =>
    simp only [Option.map_eq_some_iff] at h
    obtain ⟨⟨letters, beyond⟩, named, same⟩ := h
    obtain ⟨rfl, rfl⟩ := Prod.mk.inj same
    exact takeName?_shorter named
  all_goals
    obtain ⟨rfl, rfl⟩ := Prod.mk.inj (Option.some.inj h)
    simp only [List.length_cons]
    omega

/-- **Reading a token consumes at least one character.** -/
theorem take?_shorter {cs rest : List Char} {token : Token}
    (h : take? cs = some (token, rest)) : rest.length < cs.length := by
  unfold take? at h
  split at h
  · simp at h
  · rename_i tail
    obtain ⟨rfl, rfl⟩ := Prod.mk.inj (Option.some.inj h)
    have := takeString_length_le 0 [] tail
    simp only [List.length_cons]
    omega
  · split at h
    · rename_i numeral beyond read
      obtain ⟨rfl, rfl⟩ := Prod.mk.inj (Option.some.inj h)
      exact Numeral.take?_shorter read
    · exact takeMark?_shorter h

end Token

/-! ## The whole text -/

/-- The tokens of a text behind those already read, the last one first. -/
def lexOnto (done : List Token) (cs : List Char) : List Token :=
  match cs with
  | [] => done.reverse
  | c :: rest =>
    if isBlank c then lexOnto done rest
    else
      match _taken : Token.take? (c :: rest) with
      | some (token, beyond) => lexOnto (token :: done) beyond
      | none => lexOnto done rest
termination_by cs.length
decreasing_by
  · simp
  · exact Token.take?_shorter _taken
  · simp

/-- **The tokens of a text without comments.** -/
def lex (source : String) : List Token :=
  lexOnto [] source.toList

/-- **The tokens of a page program**, comments taken out first. -/
def tokenize (source : String) : List Token :=
  lexOnto [] (stripComments source.toList)

end VectorPage
