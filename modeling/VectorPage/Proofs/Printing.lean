/-
Tokens written out and read back.

Which tokens can come out of a text at all is a condition on their texts
(`Token.WellFormed`), and there is no other: every such token has a spelling
that is a lexeme of it, whatever blank follows. So a row of them, written with
spaces between, is read back as it was.

Two things make the spelling of a string what it is. A parenthesis or a
backslash in the text stands behind a backslash; and a percent sign, which would
begin a comment even here, is written by its code, with all three digits, so
that a digit of the text that follows is not drawn in.
-/
import VectorPage.Proofs.Segmentation
import VectorPage.Text.Json

set_option autoImplicit false

namespace VectorPage

namespace Token

/-- **The tokens that a text can hold.** -/
def WellFormed : Token → Prop
  | number s => IsNumeral s.toList
  | string _ => True
  | hexString s => ∀ c ∈ s.toList, c.toNat ≤ 0xFF
  | name s => IsName s.toList
  | operator s => IsName s.toList ∧ NoNumeral s.toList
  | openBrace | closeBrace | openBracket | closeBracket | openDict | closeDict => True

end Token

/-! ## What is read is well formed -/

theorem toNat_le_of_le {lo hi c : Char} (h : (decide (lo ≤ c) && decide (c ≤ hi)) = true) :
    lo.toNat ≤ c.toNat ∧ c.toNat ≤ hi.toNat := by
  simp only [Bool.and_eq_true, decide_eq_true_eq] at h
  exact ⟨h.1, h.2⟩

theorem hexDigit?_lt {c : Char} {d : Nat} (h : hexDigit? c = some d) : d < 16 := by
  unfold hexDigit? at h
  split at h
  · rename_i digit
    have bounds := toNat_le_of_le digit
    obtain rfl := Option.some.inj h
    simp only [digitValue, Char.reduceToNat] at bounds ⊢
    omega
  · split at h
    · rename_i small
      have bounds := toNat_le_of_le small
      obtain rfl := Option.some.inj h
      simp only [Char.reduceToNat] at bounds
      omega
    · split at h
      · rename_i capital
        have bounds := toNat_le_of_le capital
        obtain rfl := Option.some.inj h
        simp only [Char.reduceToNat] at bounds
        omega
      · simp at h

/-- Two hexadecimal digits give an octet. -/
theorem hexPairValue_le (first : Char) (second : Option Char) :
    hexPairValue first second ≤ 0xFF := by
  unfold hexPairValue
  split
  · omega
  · rename_i high isHigh
    have := hexDigit?_lt isHigh
    split
    · omega
    · rename_i low isLow
      obtain ⟨c, -, isLow⟩ := Option.bind_eq_some_iff.mp isLow
      have := hexDigit?_lt isLow
      omega

theorem toNat_ofNat_le {n : Nat} (h : n ≤ 0xFF) : (Char.ofNat n).toNat ≤ 0xFF := by
  have valid : n.isValidChar := .inl (by omega)
  rw [Char.ofNat, dif_pos valid]
  exact h

theorem hexChars_le {done cs : List Char} (before : ∀ c ∈ done, c.toNat ≤ 0xFF) :
    ∀ c ∈ hexChars done cs, c.toNat ≤ 0xFF := by
  have pair := fun first second => toNat_ofNat_le (hexPairValue_le first second)
  fun_induction hexChars done cs with
  | case1 done first second rest ih => exact ih (List.forall_mem_cons.mpr ⟨pair _ _, before⟩)
  | case2 done single =>
    simp only [List.mem_reverse]
    exact List.forall_mem_cons.mpr ⟨pair _ _, before⟩
  | case3 done => simpa using before

/-- All contents of a hexadecimal string are characters of one octet; this is what a
printer may rely on. -/
theorem hexContents_le (body : List Char) : ∀ c ∈ hexContents body, c.toNat ≤ 0xFF :=
  hexChars_le (by simp)

/-- **What was read can be printed**: a token that some text is read as is well
formed. -/
theorem Lexeme.wellFormed {token : Token} {lexeme rest : List Char}
    (h : Lexeme token lexeme rest) : token.WellFormed := by
  cases h with
  | number longest => simpa [Token.WellFormed] using longest.1
  | string => trivial
  | unclosedString => trivial
  | @hexString body => simpa [Token.WellFormed] using hexContents_le body
  | @unclosedHexString body => simpa [Token.WellFormed] using hexContents_le body
  | name longest => simpa [Token.WellFormed] using longest.1
  | operator longest noNumeral =>
    refine ⟨by simpa using longest.1, fun front isPrefix => ?_⟩
    rw [String.toList_ofList] at isPrefix
    exact noNumeral front (isPrefix.trans (List.prefix_append _ rest))
  | mark isMark =>
    cases token with
    | number _ | string _ | hexString _ | name _ | operator _ =>
      exact (Bool.false_ne_true isMark).elim
    | _ => trivial

/-! ## Spellings -/

/-- The spelling of a character in a string. -/
def stringChar (c : Char) : List Char :=
  if c = '(' ∨ c = ')' ∨ c = '\\' then ['\\', c]
  else if c = '%' then ['\\', '0', '4', '5']
  else [c]

/-- A hexadecimal digit, in capitals or small letters. -/
def hexDigitOf (capitals : Bool) (d : Nat) : Char :=
  if capitals then (hexDigitChar d).toUpper else hexDigitChar d

/-- The two hexadecimal digits of a character. -/
def hexPair (capitals : Bool) (c : Char) : List Char :=
  [hexDigitOf capitals (c.toNat / 16), hexDigitOf capitals (c.toNat % 16)]

namespace Token

/-- **The spelling of a token.** -/
def spelling (capitals : Bool) : Token → List Char
  | number s => s.toList
  | string s => '(' :: (s.toList.flatMap stringChar ++ [')'])
  | hexString s => '<' :: (s.toList.flatMap (hexPair capitals) ++ ['>'])
  | name s => '/' :: s.toList
  | operator s => s.toList
  | mark => mark.text.toList

/-- Tokens written out, with spaces between. -/
def print (capitals : Bool) (tokens : List Token) : String :=
  " ".intercalate (tokens.map fun token => String.ofList (token.spelling capitals))

end Token

/-- **The spelling of a character in a string** stands for it. -/
theorem spells_stringChar (c : Char) (rest : List Char) : Spells (stringChar c) c rest := by
  unfold stringChar
  split
  · rename_i special
    rcases special with rfl | rfl | rfl <;> exact .escaped rfl
  · split
    · rename_i percent
      subst percent
      -- with three digits, whatever follows
      exact @Spells.octal ['0', '4', '5'] rest
        ⟨List.all_eq_true.mp rfl, by decide, by decide, .inl rfl⟩
    · rename_i plain percent
      simp only [not_or] at plain
      exact .plain plain.1 plain.2.1 plain.2.2

/-- Escaped characters are read as the characters that were meant, brackets balanced or
not. -/
theorem stringBody_stringChar (cs : List Char) : StringBody (cs.flatMap stringChar) cs := by
  induction cs with
  | nil => exact .nil
  | cons c cs ih =>
    rw [List.flatMap_cons]
    exact .spelled (spells_stringChar c _) ih

/-- Every digit is read as the number it was written for. -/
theorem hexDigit?_hexDigitOf :
    ∀ capitals, ∀ d < 16, hexDigit? (hexDigitOf capitals d) = some d := by
  decide

section HexPairs

variable (capitals : Bool)

/-- Two hexadecimal digits are read as the octet they were written for, in capitals or
not. -/
theorem hexPairValue_hexPair {c : Char} (h : c.toNat ≤ 0xFF) :
    hexPairValue (hexDigitOf capitals (c.toNat / 16)) (some (hexDigitOf capitals (c.toNat % 16)))
      = c.toNat := by
  have high := hexDigit?_hexDigitOf capitals (c.toNat / 16) (by omega)
  have low := hexDigit?_hexDigitOf capitals (c.toNat % 16) (by omega)
  simp only [hexPairValue, high, Option.bind_some, low]
  omega

/-- Pairs of digits are read as the characters they were written for. -/
theorem hexChars_hexPair (done : List Char) {cs : List Char} (h : ∀ c ∈ cs, c.toNat ≤ 0xFF) :
    hexChars done (cs.flatMap (hexPair capitals)) = done.reverse ++ cs := by
  induction cs generalizing done with
  | nil => simp [hexChars]
  | cons c cs ih =>
    rw [List.flatMap_cons, hexPair, List.cons_append, List.cons_append, List.nil_append, hexChars,
      hexPairValue_hexPair capitals (h c (by simp)), Char.ofNat_toNat,
      ih _ fun d mem => h d (by simp [mem])]
    simp

/-- Only digits are written, so nothing is dropped in reading. -/
theorem isSome_hexDigit?_of_mem {cs : List Char} (h : ∀ c ∈ cs, c.toNat ≤ 0xFF) :
    ∀ x ∈ cs.flatMap (hexPair capitals), (hexDigit? x).isSome = true := by
  intro x mem
  obtain ⟨c, inside, mem⟩ := List.mem_flatMap.mp mem
  have := h c inside
  simp only [hexPair, List.mem_cons, List.not_mem_nil, or_false] at mem
  rcases mem with rfl | rfl
  · rw [hexDigit?_hexDigitOf capitals _ (by omega), Option.isSome_some]
  · rw [hexDigit?_hexDigitOf capitals _ (by omega), Option.isSome_some]

end HexPairs

/-! ## The spelling is a lexeme -/

theorem Longest.at_end {word : List Char → Prop} {read : List Char} (h : word read) :
    Longest word read [] := by
  refine ⟨h, fun more present isPrefix => ?_⟩
  exact absurd (List.prefix_nil.mp isPrefix) present

/-- **A hexadecimal string is read back.** By induction on the contents; each character
takes one pair. -/
theorem hexContents_hexPair (capitals : Bool) {cs : List Char} (h : ∀ c ∈ cs, c.toNat ≤ 0xFF) :
    hexContents (cs.flatMap (hexPair capitals)) = cs := by
  have kept : (cs.flatMap (hexPair capitals)).filter (fun c => !isBlank c)
      = cs.flatMap (hexPair capitals) := by
    rw [List.filter_eq_self]
    intro x mem
    have digit := isSome_hexDigit?_of_mem capitals h x mem
    by_contra blank
    simp only [Bool.not_eq_true', Bool.not_eq_false, isBlank, Bool.or_eq_true, beq_iff_eq] at blank
    rcases blank with ((((rfl | rfl) | rfl) | rfl) | rfl) | rfl <;> revert digit <;> decide
  rw [hexContents, kept, hexChars_hexPair capitals [] h, List.reverse_nil, List.nil_append]

/-- **The spelling of a token is a lexeme of it**, and a closed one. -/
theorem Token.WellFormed.lexeme (capitals : Bool) {token : Token} (h : token.WellFormed) :
    Lexeme token (token.spelling capitals) [] ∧ IsClosed token (token.spelling capitals) := by
  cases token with
  | number s =>
    refine ⟨?_, trivial⟩
    have lexeme := Lexeme.number (.at_end h)
    rwa [String.ofList_toList] at lexeme
  | string s =>
    have body := stringBody_stringChar s.toList
    have lexeme := @Lexeme.string _ _ [] body
    rw [String.ofList_toList] at lexeme
    exact ⟨lexeme, _, _, body, rfl⟩
  | hexString s =>
    have digits := isSome_hexDigit?_of_mem capitals h
    have inside : '>' ∉ s.toList.flatMap (hexPair capitals) := by
      intro mem
      exact absurd (digits _ mem) (by decide)
    have single : (s.toList.flatMap (hexPair capitals)).head? ≠ some '<' := by
      intro head
      exact absurd (digits _ (List.mem_of_head? head)) (by decide)
    have lexeme := @Lexeme.hexString _ [] inside single
    rw [hexContents_hexPair capitals h, String.ofList_toList] at lexeme
    exact ⟨lexeme, by simp [IsClosed, Token.spelling]⟩
  | name s =>
    refine ⟨?_, trivial⟩
    have lexeme := Lexeme.name (.at_end h)
    rwa [String.ofList_toList] at lexeme
  | operator s =>
    refine ⟨?_, trivial⟩
    have noNumeral : NoNumeral (s.toList ++ []) := by
      rw [List.append_nil]
      exact h.2
    have lexeme := Lexeme.operator (.at_end h.1) noNumeral
    rwa [String.ofList_toList] at lexeme
  | _ => exact ⟨.mark rfl, trivial⟩

/-! ## No comment is written -/

/-- Without the character that begins them there are no comments. -/
theorem stripComments_of_not_mem {cs : List Char} (h : '%' ∉ cs) : stripComments cs = cs := by
  have kept : ∀ done : List Char, cs.foldl commentStep (done, false) = (cs.reverse ++ done, false) := by
    induction cs with
    | nil => exact fun done => rfl
    | cons c cs ih =>
      intro done
      simp only [List.mem_cons, not_or] at h
      have step : commentStep (done, false) c = (c :: done, false) := by
        simp [commentStep, Ne.symm h.1]
      rw [List.foldl_cons, step, ih h.2]
      simp
  rw [stripComments, kept, List.append_nil, List.reverse_reverse]

theorem percent_not_mem_stringChar (c : Char) : '%' ∉ stringChar c := by
  unfold stringChar
  split
  · rename_i special
    rcases special with rfl | rfl | rfl <;> decide
  · split
    · decide
    · rename_i plain
      simpa using Ne.symm plain

/-- No spelling of a token has it, so printed tokens are not taken for comments. -/
theorem Token.WellFormed.percent_not_mem (capitals : Bool) {token : Token} (h : token.WellFormed) :
    '%' ∉ token.spelling capitals := by
  intro mem
  cases token with
  | number s => exact absurd (IsNumeral.mem h _ mem) (by decide)
  | string s =>
    simp only [spelling, List.mem_cons, List.mem_append, List.mem_flatMap, List.not_mem_nil,
      or_false] at mem
    rcases mem with paren | ⟨c, -, mem⟩ | paren
    · exact absurd paren (by decide)
    · exact percent_not_mem_stringChar c mem
    · exact absurd paren (by decide)
  | hexString s =>
    simp only [spelling, List.mem_cons, List.mem_append, List.not_mem_nil, or_false] at mem
    rcases mem with angle | digit | angle
    · exact absurd angle (by decide)
    · exact absurd (isSome_hexDigit?_of_mem capitals h _ digit) (by decide)
    · exact absurd angle (by decide)
  | name s =>
    rcases List.mem_cons.mp mem with slash | mem
    · exact absurd slash (by decide)
    · exact absurd (IsName.mem h _ mem) (by decide)
  | operator s => exact absurd (IsName.mem h.1 _ mem) (by decide)
  | _ => simp [spelling, text] at mem

/-! ## Reading back -/

namespace Token

variable (capitals : Bool)

theorem print_toList (tokens : List Token) :
    (print capitals tokens).toList
      = [' '].intercalate (tokens.map fun token => token.spelling capitals) := by
  rw [print, String.toList_intercalate, List.map_map]
  congr 1
  exact List.map_congr_left fun token _ => String.toList_ofList

theorem percent_not_mem_print {tokens : List Token} (h : ∀ token ∈ tokens, token.WellFormed) :
    '%' ∉ (print capitals tokens).toList := by
  rw [print_toList]
  induction tokens with
  | nil => simp
  | cons token tokens ih =>
    rw [List.forall_mem_cons] at h
    have first := h.1.percent_not_mem capitals
    cases tokens with
    | nil => simpa using first
    | cons other tokens =>
      rw [List.map_cons, List.map_cons, List.intercalate_cons_cons, ← List.map_cons]
      simpa [first] using ih h.2

/-- **A row of spellings is read back**, token by token. -/
theorem lexOnto_print (done : List Token) {tokens : List Token}
    (h : ∀ token ∈ tokens, token.WellFormed) :
    lexOnto done (print capitals tokens).toList = done.reverse ++ tokens := by
  rw [print_toList]
  induction tokens generalizing done with
  | nil =>
    rw [List.map_nil, List.intercalate_nil, lexOnto, List.append_nil]
  | cons token tokens ih =>
    rw [List.forall_mem_cons] at h
    obtain ⟨lexeme, closed⟩ := h.1.lexeme capitals
    cases tokens with
    | nil =>
      have read := lexOnto_lexeme done lexeme
      rw [List.append_nil] at read
      rw [List.map_cons, List.map_nil, List.intercalate_singleton, read, lexOnto]
      simp
    | cons other tokens =>
      rw [List.map_cons, List.map_cons, List.intercalate_cons_cons, ← List.map_cons,
        List.append_assoc, List.singleton_append]
      generalize remaining : [' '].intercalate _ = rest at ih ⊢
      have apart := lexeme.append_blank closed (b := ' ') rfl rest
      rw [List.nil_append] at apart
      rw [lexOnto_lexeme done apart, lexOnto_skip _ (.inl rfl), ih _ h.2]
      simp

end Token

/-- **Printed tokens are read back.** Every token of a text is well formed, and
well-formed tokens, written out with spaces between and their digits in capitals
or not, are the tokens of what was written. -/
theorem printed_tokens_read_back :
    (∀ source, ∀ token ∈ tokenize source, token.WellFormed)
    ∧ ∀ capitals tokens, (∀ token ∈ tokens, token.WellFormed) →
      tokenize (Token.print capitals tokens) = tokens := by
  constructor
  · intro source token mem
    obtain ⟨s⟩ := Segmentation.exists_segmentation (stripComments source.toList)
    rw [tokenize, s.lexOnto_eq [], List.reverse_nil, List.nil_append] at mem
    obtain ⟨piece, inside, rfl⟩ := List.mem_map.mp mem
    obtain ⟨rest, lexeme⟩ := s.segmented.exists_lexeme piece inside
    exact lexeme.wellFormed
  · intro capitals tokens h
    rw [tokenize, stripComments_of_not_mem (Token.percent_not_mem_print capitals h),
      Token.lexOnto_print capitals [] h, List.reverse_nil, List.nil_append]

/-- Tokens whose texts come near to what they are not: a name that looks like a
numeral, a word that looks like an exponent, a string that holds a comment. -/
def awkwardTokens : List Token :=
  [.openDict, .name "-5", .number "-.5e+3", .operator "e5", .string "(%5\\", .hexString "\u00ff",
    .hexString "", .closeDict]

theorem printed_tokens_read_back_awkward :
    Token.print true awkwardTokens = "<< /-5 -.5e+3 e5 (\\(\\0455\\\\) <FF> <> >>"
    ∧ (∀ token ∈ awkwardTokens, token.WellFormed)
    ∧ tokenize (Token.print true awkwardTokens) = awkwardTokens := by
  have numeral : IsNumeral "-.5e+3".toList :=
    (@Numeral.longest_of_take? "-.5e+3".toList []
      ⟨some '-', [], some ['5'], some ⟨'e', some '+', ['3']⟩⟩ rfl).1
  have formed : ∀ token ∈ awkwardTokens, token.WellFormed := by
    simp only [awkwardTokens, List.forall_mem_cons, Token.WellFormed]
    exact ⟨trivial, by decide, numeral, ⟨by decide, Numeral.take?_eq_none.mp rfl⟩, trivial,
      by simp, by simp, trivial, by simp⟩
  exact ⟨by decide, formed, printed_tokens_read_back.2 true awkwardTokens formed⟩

end VectorPage
