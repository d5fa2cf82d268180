/-
Lexemes: the characters of one token.

`Lexeme` says which characters make up a token when certain others follow.
It is a description by kinds, without an order among them. That the reader
tries one kind before another does not show in it, but for one thing: a word
is an operator only where no numeral begins.

The main statement is that the reader of tokens and this description agree
(`Token.take?_eq_some_iff`): it takes a token exactly if the text begins with
a lexeme of that token, and leaves what follows the lexeme. All that is said
about whole texts elsewhere rests on this and does not open the reader again.
-/
import VectorPage.Proofs.Numerals
import VectorPage.Proofs.Strings

set_option autoImplicit false

namespace VectorPage

/-! ## Names -/

/-- The texts that are names: a character that can begin one, and characters of
names behind it. -/
def IsName : List Char → Prop
  | [] => False
  | c :: more => isNameStart c = true ∧ ∀ d ∈ more, isNameChar d = true

instance decidableIsName : DecidablePred IsName
  | [] => instDecidableFalse
  | c :: more => decidable_of_iff ((isNameStart c && more.all isNameChar) = true) (by simp [IsName])

theorem isNameChar_of_start {c : Char} (h : isNameStart c = true) : isNameChar c = true := by
  simp [isNameChar, h]

namespace IsName

variable {cs rest : List Char}

theorem mem (h : IsName cs) : ∀ c ∈ cs, isNameChar c = true := by
  rcases cs with _ | ⟨first, more⟩
  · exact h.elim
  · intro c mem
    rcases List.mem_cons.mp mem with rfl | mem
    · exact isNameChar_of_start h.1
    · exact h.2 c mem

theorem append_iff (h : IsName cs) : IsName (cs ++ rest) ↔ ∀ c ∈ rest, isNameChar c = true := by
  rcases cs with _ | ⟨first, more⟩
  · exact h.elim
  · constructor
    · exact fun longer c mem => longer.2 c (List.mem_append_right more mem)
    · intro all
      refine ⟨h.1, fun c mem => ?_⟩
      rcases List.mem_append.mp mem with mem | mem
      · exact h.2 c mem
      · exact all c mem

/-- A name is the longest one if no character of a name follows it. -/
theorem longest_iff (h : IsName cs) :
    Longest IsName cs rest ↔ ∀ c ∈ rest.head?, isNameChar c = false := by
  constructor
  · rintro ⟨-, ends⟩ c head
    obtain ⟨more, rfl⟩ := List.head?_eq_some_iff.mp (Option.mem_def.mp head)
    by_contra char
    refine ends [c] (by simp) ⟨more, rfl⟩ (h.append_iff.mpr ?_)
    simpa using char
  · intro ends
    refine ⟨h, ?_⟩
    rintro (_ | ⟨c, more⟩) present ⟨beyond, rfl⟩ longer
    · exact present rfl
    · have char := h.append_iff.mp longer c (by simp)
      rw [ends c (by simp)] at char
      exact Bool.false_ne_true char

end IsName

/-- **The reader of names takes the longest one.** -/
theorem takeName?_of_longest {letters rest : List Char} (h : Longest IsName letters rest) :
    takeName? (letters ++ rest) = some (letters, rest) := by
  have ends := h.1.longest_iff.mp h
  rcases letters with _ | ⟨c, more⟩
  · exact h.1.elim
  · simp only [List.cons_append, takeName?, h.1.1, if_true, takeRun_eq h.1.2 ends]

/-- What is taken as a name is the longest one at the front. -/
theorem longest_of_takeName? {cs letters rest : List Char}
    (h : takeName? cs = some (letters, rest)) :
    letters ++ rest = cs ∧ Longest IsName letters rest := by
  rcases cs with _ | ⟨c, tail⟩
  · simp [takeName?] at h
  · simp only [takeName?] at h
    split at h
    · rename_i start
      obtain ⟨rfl, rfl⟩ := Prod.mk.inj (Option.some.inj h)
      have name : IsName (c :: (takeRun isNameChar tail).1) := ⟨start, fun d => mem_takeRun⟩
      refine ⟨?_, name.longest_iff.mpr fun d => head_takeRun⟩
      rw [List.cons_append, takeRun_append]
    · simp at h

/-! ## Hexadecimal strings -/

/-- What the characters between angle brackets stand for. -/
def hexContents (body : List Char) : List Char :=
  hexChars [] (body.filter fun c => !isBlank c)

theorem ne_closing_of_mem {body : List Char} (inside : '>' ∉ body) :
    ∀ c ∈ body, (c != '>') = true := by
  intro c mem
  have : c ≠ '>' := fun same => inside (same ▸ mem)
  simpa using this

/-- A hexadecimal string ends at the first closing bracket. -/
theorem takeHexString_closed {body : List Char} (inside : '>' ∉ body) (rest : List Char) :
    takeHexString (body ++ '>' :: rest) = (hexContents body, rest) := by
  have run : takeRun (· != '>') (body ++ '>' :: rest) = (body, '>' :: rest) :=
    takeRun_eq (ne_closing_of_mem inside) (by rintro _ ⟨⟩; rfl)
  simp only [takeHexString, run, hexContents, List.drop_succ_cons, List.drop_zero]

theorem takeHexString_unclosed {body : List Char} (inside : '>' ∉ body) :
    takeHexString body = (hexContents body, []) := by
  have run : takeRun (· != '>') (body ++ []) = (body, []) :=
    takeRun_eq (ne_closing_of_mem inside) (by simp)
  rw [List.append_nil] at run
  simp only [takeHexString, run, hexContents, List.drop_nil]

/-- The closing bracket does not make two opening ones of one. -/
theorem head?_append_closing (body rest : List Char) :
    (body ++ '>' :: rest).head? = some '<' ↔ body.head? = some '<' := by
  rcases body with _ | ⟨c, more⟩ <;> simp

/-- A hexadecimal string is closed by the first angle bracket, or not at
all. -/
theorem hex_closed_or_unclosed (cs : List Char) :
    (∃ body rest, '>' ∉ body ∧ body ++ '>' :: rest = cs) ∨ '>' ∉ cs := by
  by_cases closing : '>' ∈ cs
  · obtain ⟨body, rest, rfl, inside⟩ := List.eq_append_cons_of_mem closing
    exact .inl ⟨body, rest, inside, rfl⟩
  · exact .inr closing

/-! ## Lexemes -/

/-- The braces and brackets, which have one spelling each. -/
def Token.isMark : Token → Bool
  | openBrace | closeBrace | openBracket | closeBracket | openDict | closeDict => true
  | _ => false

/-- **The lexemes of a token**, in front of what follows them.

A numeral or a name is the longest one at its place. A string goes up to the
parenthesis behind its body, a hexadecimal string up to the first closing angle
bracket; without one, either goes to the end of the text. Two angle brackets
open a dictionary and no hexadecimal string, and a word is an operator only
where no numeral begins. -/
inductive Lexeme : Token → List Char → List Char → Prop where
  | number {text rest : List Char} (longest : Longest IsNumeral text rest) :
      Lexeme (.number (.ofList text)) text rest
  | string {body text rest : List Char} (isBody : StringBody body text) :
      Lexeme (.string (.ofList text)) ('(' :: (body ++ [')'])) rest
  | unclosedString {body text : List Char} (unclosed : Unclosed body text) :
      Lexeme (.string (.ofList text)) ('(' :: body) []
  | hexString {body rest : List Char} (inside : '>' ∉ body) (single : body.head? ≠ some '<') :
      Lexeme (.hexString (.ofList (hexContents body))) ('<' :: (body ++ ['>'])) rest
  | unclosedHexString {body : List Char} (inside : '>' ∉ body) (single : body.head? ≠ some '<') :
      Lexeme (.hexString (.ofList (hexContents body))) ('<' :: body) []
  | name {text rest : List Char} (longest : Longest IsName text rest) :
      Lexeme (.name (.ofList text)) ('/' :: text) rest
  | operator {text rest : List Char} (longest : Longest IsName text rest)
      (noNumeral : NoNumeral (text ++ rest)) : Lexeme (.operator (.ofList text)) text rest
  | mark {token : Token} {rest : List Char} (isMark : token.isMark = true) :
      Lexeme token token.text.toList rest

/-! ## The reader takes lexemes -/

namespace Token

/-- Where neither a string nor a numeral begins, the other kinds are tried. -/
theorem take?_of_noNumeral {cs : List Char} (noString : cs.head? ≠ some '(')
    (noNumeral : NoNumeral cs) : take? cs = takeMark? cs := by
  rcases cs with _ | ⟨c, rest⟩
  · rfl
  · rw [take?, Numeral.take?_eq_none.mpr noNumeral]
    · simp
    · rintro rest ⟨⟩
      exact noString rfl

theorem takeMark?_of_nameStart {c : Char} (start : isNameStart c = true) (rest : List Char) :
    takeMark? (c :: rest)
      = (takeName? (c :: rest)).map fun (letters, beyond) =>
          (operator (String.ofList letters), beyond) := by
  refine takeMark?.eq_9 _ ?_ ?_ ?_ ?_ ?_ ?_ ?_ ?_
  all_goals
    rintro _ ⟨⟩
    revert start
    decide

/-- Two angle brackets apart, an opening one begins a hexadecimal string. -/
theorem takeMark?_of_angle {body contents rest : List Char} (single : body.head? ≠ some '<')
    (taken : takeHexString body = (contents, rest)) :
    takeMark? ('<' :: body) = some (hexString (.ofList contents), rest) := by
  rw [takeMark?, taken]
  rintro more rfl
  exact single rfl

end Token

/-- A text that does not begin as a numeral does, nor with a parenthesis, is
read by its marks and names. -/
theorem Token.take?_of_head {cs : List Char} (noString : cs.head? ≠ some '(')
    (noNumeral : ∀ c ∈ cs.head?, isNumeralStart c = false) : take? cs = takeMark? cs :=
  take?_of_noNumeral noString (noNumeral_of_head noNumeral)

/-- **A numeral comes first**: where one can be read, no other token is. -/
theorem Token.take?_of_numeral {cs rest : List Char} {n : Numeral}
    (taken : Numeral.take? cs = some (n, rest)) :
    take? cs = some (number (.ofList n.text), rest) := by
  have present : ¬ NoNumeral cs := by
    intro absent
    rw [Numeral.take?_eq_none.mpr absent] at taken
    simp at taken
  rw [take?, taken]
  · rintro rfl
    exact present (noNumeral_of_head (by simp))
  · rintro tail rfl
    exact present (noNumeral_of_head (by rintro _ ⟨⟩; rfl))

/-- A mark is known by its first character, which begins neither a numeral nor a
string. -/
theorem Token.head_of_isMark {token : Token} (isMark : token.isMark = true) (rest : List Char) :
    ∃ c, (token.text.toList ++ rest).head? = some c ∧ isNumeralStart c = false ∧ c ≠ '(' := by
  cases token with
  | number _ | string _ | hexString _ | name _ | operator _ =>
    exact (Bool.false_ne_true isMark).elim
  | _ => exact ⟨_, rfl, by decide, by decide⟩

/-- **A lexeme is taken**, and what follows it is left. -/
theorem Lexeme.take? {token : Token} {lexeme rest : List Char} (h : Lexeme token lexeme rest) :
    Token.take? (lexeme ++ rest) = some (token, rest) := by
  cases h with
  | number longest =>
    obtain ⟨n, rfl, taken⟩ := Numeral.take?_of_longest longest
    exact Token.take?_of_numeral taken
  | @string body text _ isBody =>
    have taken := takeString_closed isBody rest
    simp [Token.take?, taken]
  | unclosedString unclosed =>
    have taken := takeString_unclosed unclosed 0 []
    simp [Token.take?, taken]
  | @hexString body _ inside single =>
    have single' : (body ++ '>' :: rest).head? ≠ some '<' := by
      rwa [Ne, head?_append_closing]
    rw [Token.take?_of_head (by simp) (by rintro _ ⟨⟩; rfl), List.cons_append, List.append_assoc]
    exact Token.takeMark?_of_angle single' (takeHexString_closed inside rest)
  | unclosedHexString inside single =>
    rw [Token.take?_of_head (by simp) (by rintro _ ⟨⟩; rfl), List.append_nil]
    exact Token.takeMark?_of_angle single (takeHexString_unclosed inside)
  | name longest =>
    rw [Token.take?_of_head (by simp) (by rintro _ ⟨⟩; rfl), List.cons_append, Token.takeMark?,
      takeName?_of_longest longest]
    rfl
  | operator longest noNumeral =>
    rcases lexeme with _ | ⟨c, more⟩
    · exact longest.1.elim
    · have start : isNameStart c = true := longest.1.1
      have noString : (c :: more ++ rest).head? ≠ some '(' := by
        rintro ⟨⟩
        exact Bool.false_ne_true start
      rw [Token.take?_of_noNumeral noString noNumeral, List.cons_append,
        Token.takeMark?_of_nameStart start, ← List.cons_append, takeName?_of_longest longest]
      rfl
  | mark isMark =>
    obtain ⟨c, head, noNumeral, noString⟩ := Token.head_of_isMark isMark rest
    rw [Token.take?_of_head (by rw [head]; simpa using noString) (by rw [head]; simpa using noNumeral)]
    cases token with
    | number _ | string _ | hexString _ | name _ | operator _ =>
      exact (Bool.false_ne_true isMark).elim
    | _ => rfl

/-! ## What the reader takes is a lexeme -/

namespace Token

/-- What is taken as a mark or a name is its lexeme, provided that no numeral begins
there. -/
theorem lexeme_of_takeMark? {cs rest : List Char} {token : Token} (noNumeral : NoNumeral cs)
    (h : takeMark? cs = some (token, rest)) :
    ∃ lexeme, lexeme ++ rest = cs ∧ Lexeme token lexeme rest := by
  unfold takeMark? at h
  split at h
  case h_7 tail single =>
    -- an angle bracket alone: a hexadecimal string, closed or not
    have single : tail.head? ≠ some '<' := by
      intro second
      obtain ⟨more, same⟩ := List.head?_eq_some_iff.mp second
      exact single more same
    rcases hex_closed_or_unclosed tail with ⟨body, beyond, inside, rfl⟩ | inside
    · rw [takeHexString_closed inside] at h
      obtain ⟨rfl, rfl⟩ := Prod.mk.inj (Option.some.inj h)
      rw [Ne, head?_append_closing] at single
      exact ⟨'<' :: (body ++ ['>']), by simp, .hexString inside single⟩
    · rw [takeHexString_unclosed inside] at h
      obtain ⟨rfl, rfl⟩ := Prod.mk.inj (Option.some.inj h)
      exact ⟨'<' :: tail, List.append_nil _, .unclosedHexString inside single⟩
  case h_8 tail =>
    obtain ⟨⟨letters, beyond⟩, named, same⟩ := Option.map_eq_some_iff.mp h
    obtain ⟨rfl, rfl⟩ := Prod.mk.inj same
    obtain ⟨rfl, longest⟩ := longest_of_takeName? named
    exact ⟨'/' :: letters, rfl, .name longest⟩
  case h_9 =>
    obtain ⟨⟨letters, beyond⟩, named, same⟩ := Option.map_eq_some_iff.mp h
    obtain ⟨rfl, rfl⟩ := Prod.mk.inj same
    obtain ⟨rfl, longest⟩ := longest_of_takeName? named
    exact ⟨letters, rfl, .operator longest noNumeral⟩
  all_goals
    obtain ⟨rfl, rfl⟩ := Prod.mk.inj (Option.some.inj h)
    exact ⟨_, rfl, .mark rfl⟩

/-- **Whatever is taken is a lexeme**, by the cases of the reader. -/
theorem lexeme_of_take? {cs rest : List Char} {token : Token}
    (h : take? cs = some (token, rest)) :
    ∃ lexeme, lexeme ++ rest = cs ∧ Lexeme token lexeme rest := by
  unfold take? at h
  split at h
  · simp at h
  · rename_i tail
    rcases closed_or_unclosed tail with ⟨body, text, beyond, isBody, rfl⟩ | ⟨text, unclosed⟩
    · rw [takeString_closed isBody] at h
      obtain ⟨rfl, rfl⟩ := Prod.mk.inj (Option.some.inj h)
      exact ⟨'(' :: (body ++ [')']), by simp, .string isBody⟩
    · rw [takeString_unclosed unclosed] at h
      obtain ⟨rfl, rfl⟩ := Prod.mk.inj (Option.some.inj h)
      exact ⟨'(' :: tail, List.append_nil _, .unclosedString unclosed⟩
  · split at h
    · rename_i numeral beyond taken
      obtain ⟨rfl, rfl⟩ := Prod.mk.inj (Option.some.inj h)
      exact ⟨numeral.text, Numeral.text_append_of_take? taken,
        .number (Numeral.longest_of_take? taken)⟩
    · rename_i absent
      exact lexeme_of_takeMark? (Numeral.take?_eq_none.mp absent) h

/-- **The reader takes exactly the lexemes.** -/
theorem take?_eq_some_iff {cs rest : List Char} {token : Token} :
    take? cs = some (token, rest) ↔ ∃ lexeme, lexeme ++ rest = cs ∧ Lexeme token lexeme rest := by
  constructor
  · exact lexeme_of_take?
  · rintro ⟨lexeme, rfl, h⟩
    exact h.take?

end Token

/-! ## Where a token begins -/

/-- **A token of some kind begins here.** -/
def TokenBegins (cs : List Char) : Prop :=
  ∃ token lexeme rest, lexeme ++ rest = cs ∧ Lexeme token lexeme rest

theorem Token.take?_eq_none_iff {cs : List Char} : take? cs = none ↔ ¬ TokenBegins cs := by
  rw [Option.eq_none_iff_forall_ne_some]
  constructor
  · rintro absent ⟨token, lexeme, rest, rfl, h⟩
    exact absent _ h.take?
  · rintro absent ⟨token, rest⟩ taken
    obtain ⟨lexeme, parts, h⟩ := Token.take?_eq_some_iff.mp taken
    exact absent ⟨token, lexeme, rest, parts, h⟩

/-- The beginnings by which a token is known, whatever follows them. -/
inductive Opening : List Char → Prop where
  | string : Opening ['(']
  | hexString : Opening ['<']
  | number {cs : List Char} : IsNumeral cs → Opening cs
  | name {cs : List Char} : IsName cs → Opening ('/' :: cs)
  | operator {cs : List Char} : IsName cs → Opening cs
  | mark {token : Token} : token.isMark = true → Opening token.text.toList

theorem Lexeme.exists_opening {token : Token} {lexeme rest : List Char}
    (h : Lexeme token lexeme rest) : ∃ front, Opening front ∧ front <+: lexeme := by
  cases h with
  | number longest => exact ⟨_, .number longest.1, List.prefix_refl _⟩
  | string => exact ⟨_, .string, by simp⟩
  | unclosedString => exact ⟨_, .string, by simp⟩
  | hexString => exact ⟨_, .hexString, by simp⟩
  | unclosedHexString => exact ⟨_, .hexString, by simp⟩
  | name longest => exact ⟨_, .name longest.1, List.prefix_refl _⟩
  | operator longest => exact ⟨_, .operator longest.1, List.prefix_refl _⟩
  | mark isMark => exact ⟨_, .mark isMark, List.prefix_refl _⟩

/-- Where there is a numeral there is a longest one; the reader finds it. -/
theorem exists_longest_numeral {cs : List Char} (h : ¬ NoNumeral cs) :
    ∃ text rest, text ++ rest = cs ∧ Longest IsNumeral text rest := by
  rw [← Numeral.take?_eq_none] at h
  obtain ⟨⟨n, rest⟩, taken⟩ := Option.ne_none_iff_exists'.mp h
  exact ⟨n.text, rest, Numeral.text_append_of_take? taken, Numeral.longest_of_take? taken⟩

/-- The same of names, since a name goes on as far as its characters do. -/
theorem exists_longest_name {name : List Char} (h : IsName name) (more : List Char) :
    ∃ text rest, text ++ rest = name ++ more ∧ Longest IsName text rest := by
  rcases name with _ | ⟨c, name⟩
  · exact h.elim
  · have taken : takeName? (c :: (name ++ more)) = some (c :: (takeRun isNameChar (name ++ more)).1,
        (takeRun isNameChar (name ++ more)).2) := by
      rw [takeName?, if_pos h.1]
    obtain ⟨parts, longest⟩ := longest_of_takeName? taken
    exact ⟨_, _, parts, longest⟩

/-- **A token begins at its opening.** -/
theorem Opening.tokenBegins {front : List Char} (h : Opening front) (rest : List Char) :
    TokenBegins (front ++ rest) := by
  cases h with
  | string =>
    rcases closed_or_unclosed rest with ⟨body, text, beyond, isBody, rfl⟩ | ⟨text, unclosed⟩
    · exact ⟨_, _, beyond, by simp, .string isBody⟩
    · exact ⟨_, _, [], List.append_nil _, .unclosedString unclosed⟩
  | hexString =>
    by_cases second : rest.head? = some '<'
    · obtain ⟨more, rfl⟩ := List.head?_eq_some_iff.mp second
      exact ⟨.openDict, _, more, rfl, .mark rfl⟩
    · rcases hex_closed_or_unclosed rest with ⟨body, beyond, inside, rfl⟩ | inside
      · rw [head?_append_closing] at second
        exact ⟨_, '<' :: (body ++ ['>']), beyond, by simp, .hexString inside second⟩
      · exact ⟨_, _, [], List.append_nil _, .unclosedHexString inside second⟩
  | number isNumeral =>
    obtain ⟨text, beyond, parts, longest⟩ :=
      exists_longest_numeral fun absent => absent front (List.prefix_append front rest) isNumeral
    exact ⟨_, text, beyond, parts, .number longest⟩
  | name isName =>
    obtain ⟨text, beyond, parts, longest⟩ := exists_longest_name isName rest
    exact ⟨_, '/' :: text, beyond, by rw [List.cons_append, parts, List.cons_append],
      .name longest⟩
  | operator isName =>
    -- a name that begins as a numeral does is read as one
    by_cases noNumeral : NoNumeral (front ++ rest)
    · obtain ⟨text, beyond, parts, longest⟩ := exists_longest_name isName rest
      exact ⟨_, text, beyond, parts, .operator longest (by rwa [parts])⟩
    · obtain ⟨text, beyond, parts, longest⟩ := exists_longest_numeral noNumeral
      exact ⟨_, text, beyond, parts, .number longest⟩
  | mark isMark => exact ⟨_, _, rest, rfl, .mark isMark⟩

/-- **Where a token begins can be told from the front of the text**, whatever
follows. -/
theorem tokenBegins_iff {cs : List Char} :
    TokenBegins cs ↔ ∃ front, Opening front ∧ front <+: cs := by
  constructor
  · rintro ⟨token, lexeme, rest, rfl, h⟩
    obtain ⟨front, opening, isPrefix⟩ := h.exists_opening
    exact ⟨front, opening, isPrefix.trans (List.prefix_append lexeme rest)⟩
  · rintro ⟨front, opening, rest, rfl⟩
    exact opening.tokenBegins rest

/-! ## Blanks keep tokens apart -/

/-- No blank is a character of a numeral or a name, nor a bracket. -/
theorem apart_of_isBlank {b : Char} (blank : isBlank b = true) :
    isNumeralChar b = false ∧ isNameChar b = false
      ∧ b ∉ ['(', '<', '/', '>', '[', ']', '\x7b', '\x7d'] := by
  simp only [isBlank, Bool.or_eq_true, beq_iff_eq] at blank
  rcases blank with ((((rfl | rfl) | rfl) | rfl) | rfl) | rfl <;> decide

/-- A word of characters of one class holds none outside it. -/
theorem not_mem_of_class {isChar : Char → Bool} {cs : List Char} {b : Char}
    (all : ∀ c ∈ cs, isChar c = true) (outside : isChar b = false) : b ∉ cs := by
  intro mem
  have char := all b mem
  rw [outside] at char
  exact Bool.false_ne_true char

theorem IsNumeral.not_mem_blank {cs : List Char} (h : IsNumeral cs) {b : Char}
    (blank : isBlank b = true) : b ∉ cs :=
  not_mem_of_class h.mem (apart_of_isBlank blank).1

theorem IsName.not_mem_blank {cs : List Char} (h : IsName cs) {b : Char}
    (blank : isBlank b = true) : b ∉ cs :=
  not_mem_of_class h.mem (apart_of_isBlank blank).2.1

/-- There is no blank in the beginning of any token, so a blank always ends what is
being looked at. -/
theorem Opening.not_mem_blank {front : List Char} (h : Opening front) {b : Char}
    (blank : isBlank b = true) : b ∉ front := by
  have apart := (apart_of_isBlank blank).2.2
  simp only [List.mem_cons, List.not_mem_nil, or_false, not_or] at apart
  cases h with
  | string => simp [apart]
  | hexString => simp [apart]
  | number isNumeral => exact isNumeral.not_mem_blank blank
  | name isName => simp [apart, isName.not_mem_blank blank]
  | operator isName => exact isName.not_mem_blank blank
  | @mark token isMark =>
    cases token with
    | number _ | string _ | hexString _ | name _ | operator _ =>
      exact (Bool.false_ne_true isMark).elim
    | _ => simp [Token.text, apart]

/-- What stands at the front of a text with a character added behind it, and
does not hold that character, stands at the front of the text. -/
theorem prefix_of_not_mem {front cs more : List Char} {b : Char} (h : front <+: cs ++ b :: more)
    (absent : b ∉ front) : front <+: cs := by
  obtain ⟨rest, parts⟩ := h
  rcases List.append_eq_append_iff.mp parts with ⟨left, rfl, -⟩ | ⟨beyond, rfl, later⟩
  · exact List.prefix_append front left
  · rcases beyond with _ | ⟨c, beyond⟩
    · simp
    · obtain rfl : b = c := (List.cons.inj later).1
      exact absurd (by simp) absent

section Blank

variable {cs rest : List Char} {b : Char}

/-- A word that was the longest stays the longest if a blank and anything else is put
behind the text. -/
theorem Longest.append_blank {word : List Char → Prop} {read : List Char}
    (h : Longest word read rest) (apart : ∀ cs, word cs → b ∉ cs) (more : List Char) :
    Longest word read (rest ++ b :: more) := by
  refine ⟨h.1, fun added present front longer => ?_⟩
  have absent : b ∉ added := fun mem => apart _ longer (List.mem_append_right read mem)
  exact h.2 added present (prefix_of_not_mem front absent) longer

/-- No numeral comes about by what is behind a blank. -/
theorem NoNumeral.append_blank (h : NoNumeral cs) (blank : isBlank b = true) (more : List Char) :
    NoNumeral (cs ++ b :: more) := by
  intro front isPrefix isNumeral
  exact h front (prefix_of_not_mem isPrefix (isNumeral.not_mem_blank blank)) isNumeral

/-- **A blank behind a text begins no token in it.** -/
theorem tokenBegins_append_blank (blank : isBlank b = true) (more : List Char) :
    TokenBegins (cs ++ b :: more) ↔ TokenBegins cs := by
  rw [tokenBegins_iff, tokenBegins_iff]
  constructor
  · rintro ⟨front, opening, isPrefix⟩
    exact ⟨front, opening, prefix_of_not_mem isPrefix (opening.not_mem_blank blank)⟩
  · rintro ⟨front, opening, isPrefix⟩
    exact ⟨front, opening, isPrefix.trans (List.prefix_append cs _)⟩

end Blank

/-! ## Closed lexemes -/

/-- **A lexeme has its closing bracket**, if it is one of a string: it did not
run into the end of the text. -/
def IsClosed (token : Token) (lexeme : List Char) : Prop :=
  match token with
  | .string _ => ∃ body text, StringBody body text ∧ lexeme = '(' :: (body ++ [')'])
  | .hexString _ => '>' ∈ lexeme
  | _ => True

namespace Lexeme

variable {token : Token} {lexeme rest : List Char}

/-- **A closed lexeme stays one** if a blank and more follow. -/
theorem append_blank (h : Lexeme token lexeme rest) (closed : IsClosed token lexeme) {b : Char}
    (blank : isBlank b = true) (more : List Char) : Lexeme token lexeme (rest ++ b :: more) := by
  cases h with
  | number longest =>
    exact .number (longest.append_blank (fun _ h => h.not_mem_blank blank) more)
  | string isBody => exact .string isBody
  | unclosedString unclosed =>
    -- both ways to read the same characters give the same text
    obtain ⟨body, text, isBody, parts⟩ := closed
    have same := takeString_unclosed unclosed 0 []
    rw [List.tail_eq_of_cons_eq parts, takeString_closed isBody []] at same
    obtain ⟨rfl, -⟩ := Prod.mk.inj same
    rw [parts]
    exact .string isBody
  | hexString inside single => exact .hexString inside single
  | unclosedHexString inside single =>
    rcases List.mem_cons.mp closed with bracket | mem
    · exact absurd bracket (by decide)
    · exact absurd mem inside
  | name longest => exact .name (longest.append_blank (fun _ h => h.not_mem_blank blank) more)
  | operator longest noNumeral =>
    refine .operator (longest.append_blank (fun _ h => h.not_mem_blank blank) more) ?_
    rw [← List.append_assoc]
    exact noNumeral.append_blank blank more
  | mark isMark => exact .mark isMark

/-- A token takes at least one character, so reading goes on. -/
theorem ne_nil (h : Lexeme token lexeme rest) : lexeme ≠ [] := by
  rintro rfl
  exact Nat.lt_irrefl _ (Token.take?_shorter h.take?)

/-- A lexeme does not begin with a blank: behind the empty text, too, a blank
begins no token. -/
theorem isBlank_head (h : Lexeme token lexeme rest) : ∀ c ∈ lexeme.head?, isBlank c = false := by
  intro c head
  by_contra blank
  obtain ⟨more, rfl⟩ := List.head?_eq_some_iff.mp (Option.mem_def.mp head)
  have begins : TokenBegins ([] ++ c :: (more ++ rest)) := ⟨token, _, rest, rfl, h⟩
  rw [tokenBegins_append_blank (by simpa using blank)] at begins
  obtain ⟨_, lexeme, beyond, parts, h'⟩ := begins
  exact h'.ne_nil (List.append_eq_nil_iff.mp parts).1

end Lexeme

end VectorPage
