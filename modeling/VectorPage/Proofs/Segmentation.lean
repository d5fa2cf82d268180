/-
A text as a row of gaps and lexemes.

Reading a text cuts it into pieces, each a token with its lexeme and the
characters passed over before it, and a last gap. `Segmentation` is such a cut,
together with the proofs that make it one: the pieces cover the text in order,
every lexeme is one in front of what follows it, and where a character of a gap
stands no token begins. The tokens that are read are those of any such cut, so
there is nothing left to choose.

From this follows that reading is local. A line break behind a text keeps its
lexemes and its gaps as they are, unless a string was still open; so the tokens
of two texts on separate lines are those of the one and then those of the
other.
-/
import VectorPage.Proofs.Lexemes

set_option autoImplicit false

namespace VectorPage

/-! ## Pieces -/

/-- A token with its lexeme, and the characters passed over before it. -/
structure Piece where
  gap : List Char
  lexeme : List Char
  token : Token

/-- The text that pieces and a last gap make up. -/
def written : List Piece → List Char → List Char
  | [], tail => tail
  | piece :: pieces, tail => piece.gap ++ (piece.lexeme ++ written pieces tail)

/-- **A gap** in front of a text: each of its characters is blank, or no token
begins where it stands. -/
def IsGap : List Char → List Char → Prop
  | [], _ => True
  | c :: gap, rest => (isBlank c = true ∨ ¬ TokenBegins (c :: (gap ++ rest))) ∧ IsGap gap rest

/-- Pieces and a last gap, each in front of what follows it: the gap is one, and
the lexeme is one of its token. -/
def Segmented : List Piece → List Char → Prop
  | [], tail => IsGap tail []
  | piece :: pieces, tail =>
    IsGap piece.gap (piece.lexeme ++ written pieces tail)
    ∧ Lexeme piece.token piece.lexeme (written pieces tail) ∧ Segmented pieces tail

/-- **A segmentation of a text** into gaps and lexemes. -/
structure Segmentation (source : List Char) where
  pieces : List Piece
  /-- The gap behind the last piece. -/
  tail : List Char
  covers : written pieces tail = source
  segmented : Segmented pieces tail

namespace Segmentation

variable {source : List Char}

/-- The tokens, in their order. -/
def tokens (s : Segmentation source) : List Token :=
  s.pieces.map Piece.token

/-- One more character of a gap in front. -/
def skip (s : Segmentation source) {c : Char}
    (passed : isBlank c = true ∨ ¬ TokenBegins (c :: source)) : Segmentation (c :: source) :=
  match s with
  | ⟨[], tail, covers, segmented⟩ =>
    ⟨[], c :: tail, congrArg (List.cons c) covers, by
      subst covers
      exact ⟨by simpa [written] using passed, segmented⟩⟩
  | ⟨piece :: pieces, tail, covers, segmented⟩ =>
    ⟨{ piece with gap := c :: piece.gap } :: pieces, tail, congrArg (List.cons c) covers, by
      subst covers
      exact ⟨⟨passed, segmented.1⟩, segmented.2⟩⟩

/-- One more lexeme in front. -/
def prepend (s : Segmentation source) {token : Token} {lexeme : List Char}
    (h : Lexeme token lexeme source) : Segmentation (lexeme ++ source) :=
  ⟨⟨[], lexeme, token⟩ :: s.pieces, s.tail, by simp [written, s.covers],
    trivial, by rwa [s.covers], s.segmented⟩

/-- **Every text has a segmentation.** -/
theorem exists_segmentation (source : List Char) : Nonempty (Segmentation source) := by
  induction size : source.length using Nat.strongRecOn generalizing source with
  | ind size ih =>
    subst size
    rcases source with _ | ⟨c, rest⟩
    · exact ⟨⟨[], [], rfl, trivial⟩⟩
    · obtain ⟨further⟩ := ih rest.length (by simp) rest rfl
      by_cases passed : isBlank c = true ∨ ¬ TokenBegins (c :: rest)
      · exact ⟨further.skip passed⟩
      · simp only [not_or, not_not] at passed
        obtain ⟨token, lexeme, beyond, parts, h⟩ := passed.2
        have shorter := Token.take?_shorter h.take?
        rw [parts] at shorter
        obtain ⟨further⟩ := ih beyond.length shorter beyond rfl
        exact ⟨parts ▸ further.prepend h⟩

end Segmentation

/-! ## Reading -/

/-- A character that begins no token is passed over, like a blank. -/
theorem lexOnto_skip (done : List Token) {c : Char} {rest : List Char}
    (passed : isBlank c = true ∨ ¬ TokenBegins (c :: rest)) :
    lexOnto done (c :: rest) = lexOnto done rest := by
  rw [lexOnto]
  split
  · rfl
  · rename_i notBlank
    have untaken := Token.take?_eq_none_iff.mpr (passed.resolve_left notBlank)
    split
    · rename_i taken
      rw [untaken] at taken
      simp at taken
    · rfl

theorem lexOnto_gap (done : List Token) {gap rest : List Char} (h : IsGap gap rest) :
    lexOnto done (gap ++ rest) = lexOnto done rest := by
  induction gap with
  | nil => rfl
  | cons c gap ih => rw [List.cons_append, lexOnto_skip done h.1, ih h.2]

/-- A lexeme is read as its token, and reading goes on behind it. -/
theorem lexOnto_lexeme (done : List Token) {token : Token} {lexeme rest : List Char}
    (h : Lexeme token lexeme rest) :
    lexOnto done (lexeme ++ rest) = lexOnto (token :: done) rest := by
  obtain ⟨c, more, rfl⟩ := List.exists_cons_of_ne_nil h.ne_nil
  have notBlank : ¬ isBlank c = true := by simp [h.isBlank_head c rfl]
  rw [List.cons_append, lexOnto, if_neg notBlank]
  split
  · rename_i taken
    rw [← List.cons_append, h.take?] at taken
    obtain ⟨rfl, rfl⟩ := Prod.mk.inj (Option.some.inj taken)
    rfl
  · rename_i untaken
    rw [← List.cons_append, h.take?] at untaken
    simp at untaken

/-- **The tokens of a segmented text** are those of its pieces. -/
theorem lexOnto_segmented (done : List Token) {pieces : List Piece} {tail : List Char}
    (h : Segmented pieces tail) :
    lexOnto done (written pieces tail) = done.reverse ++ pieces.map Piece.token := by
  induction pieces generalizing done with
  | nil =>
    have passed := lexOnto_gap done h
    rw [List.append_nil] at passed
    rw [written, passed, lexOnto]
    simp
  | cons piece pieces ih =>
    obtain ⟨gap, lexeme, further⟩ := h
    rw [written, lexOnto_gap done gap, lexOnto_lexeme done lexeme, ih _ further]
    simp

/-- **A segmentation tells what is read**: the tokens of its pieces. There is only one
such list, however the gaps are cut. -/
theorem Segmentation.lexOnto_eq {source : List Char} (s : Segmentation source)
    (done : List Token) : lexOnto done source = done.reverse ++ s.tokens := by
  obtain ⟨pieces, tail, rfl, segmented⟩ := s
  exact lexOnto_segmented done segmented

/-- Tokens already read come first. -/
theorem lexOnto_eq_append (done : List Token) (cs : List Char) :
    lexOnto done cs = done.reverse ++ lexOnto [] cs := by
  obtain ⟨s⟩ := Segmentation.exists_segmentation cs
  rw [s.lexOnto_eq done, s.lexOnto_eq [], List.reverse_nil, List.nil_append]

/-- Each piece has a lexeme of its token. -/
theorem Segmented.exists_lexeme {pieces : List Piece} {tail : List Char}
    (h : Segmented pieces tail) :
    ∀ piece ∈ pieces, ∃ rest, Lexeme piece.token piece.lexeme rest := by
  induction pieces with
  | nil => simp
  | cons piece pieces ih =>
    intro other mem
    rcases List.mem_cons.mp mem with rfl | mem
    · exact ⟨_, h.2.1⟩
    · exact ih h.2.2 other mem

/-- **Reading segments the source.** The text has a segmentation into gaps and
lexemes, none of these empty; and the tokens of every segmentation it has are
the tokens that are read. -/
theorem lexing_segments_source (source : String) :
    (∃ s : Segmentation source.toList,
      s.tokens = lex source ∧ ∀ piece ∈ s.pieces, piece.lexeme ≠ [])
    ∧ ∀ s : Segmentation source.toList, s.tokens = lex source := by
  have unique : ∀ s : Segmentation source.toList, s.tokens = lex source := by
    intro s
    rw [lex, s.lexOnto_eq [], List.reverse_nil, List.nil_append]
  refine ⟨?_, unique⟩
  obtain ⟨s⟩ := Segmentation.exists_segmentation source.toList
  refine ⟨s, unique s, fun piece mem => ?_⟩
  obtain ⟨rest, lexeme⟩ := s.segmented.exists_lexeme piece mem
  exact lexeme.ne_nil

/-! ## Lines -/

/-- What stripping comments adds does not depend on what was kept before. -/
theorem foldl_commentStep (done : List Char) (inside : Bool) (cs : List Char) :
    cs.foldl commentStep (done, inside)
      = ((cs.foldl commentStep ([], inside)).1 ++ done, (cs.foldl commentStep ([], inside)).2) := by
  induction cs generalizing done inside with
  | nil => rfl
  | cons c cs ih =>
    obtain ⟨kept, inside', step⟩ : ∃ kept inside', ∀ done,
        commentStep (done, inside) c = (kept ++ done, inside') := by
      cases inside with
      | true =>
        by_cases ends : (c == '\n' || c == '\r') = true
        · exact ⟨[c], false, fun done => if_pos ends⟩
        · exact ⟨[], true, fun done => if_neg ends⟩
      | false =>
        by_cases begins : (c == '%') = true
        · exact ⟨[' '], true, fun done => if_pos begins⟩
        · exact ⟨[c], false, fun done => if_neg begins⟩
    rw [List.foldl_cons, List.foldl_cons, step, step, ih, ih (kept ++ [])]
    simp

/-- **A line break ends a comment**, so comments are stripped line by line. -/
theorem stripComments_newline (xs ys : List Char) :
    stripComments (xs ++ '\n' :: ys) = stripComments xs ++ '\n' :: stripComments ys := by
  have after : ∀ state : List Char × Bool, commentStep state '\n' = ('\n' :: state.1, false) := by
    rintro ⟨done, _ | _⟩ <;> rfl
  unfold stripComments
  rw [List.foldl_append, List.foldl_cons, after, foldl_commentStep]
  simp

section Lines

variable {b : Char} (blank : isBlank b = true)

include blank

/-- A gap stays a gap if a blank is put behind the text. -/
theorem IsGap.append_blank {gap rest : List Char} (h : IsGap gap rest) (more : List Char) :
    IsGap gap (rest ++ b :: more) := by
  induction gap with
  | nil => trivial
  | cons c gap ih =>
    refine ⟨h.1.imp_right fun absent => ?_, ih h.2⟩
    rw [← List.append_assoc, ← List.cons_append, tokenBegins_append_blank blank]
    exact absent

/-- **A blank behind closed lexemes** ends what they are read as. -/
theorem lexOnto_append_blank (done : List Token) {pieces : List Piece} {tail : List Char}
    (h : Segmented pieces tail) (closed : ∀ piece ∈ pieces, IsClosed piece.token piece.lexeme)
    (more : List Char) :
    lexOnto done (written pieces tail ++ b :: more)
      = done.reverse ++ pieces.map Piece.token ++ lexOnto [] more := by
  induction pieces generalizing done with
  | nil =>
    have gap : IsGap tail ([] ++ b :: more) := h.append_blank blank more
    rw [List.nil_append] at gap
    rw [written, lexOnto_gap done gap, lexOnto_skip done (.inl blank), lexOnto_eq_append]
    simp
  | cons piece pieces ih =>
    obtain ⟨gap, lexeme, further⟩ := h
    have gap' := gap.append_blank blank more
    have lexeme' := lexeme.append_blank (closed piece (by simp)) blank more
    rw [List.append_assoc] at gap'
    rw [written, List.append_assoc, List.append_assoc, lexOnto_gap done gap',
      lexOnto_lexeme done lexeme', ih _ further fun other mem => closed other (by simp [mem])]
    simp

/-- **Two texts with a blank in between** are read one after the other, if the lexemes
of the first are closed. -/
theorem Segmentation.lexOnto_append_blank {source : List Char} (s : Segmentation source)
    (closed : ∀ piece ∈ s.pieces, IsClosed piece.token piece.lexeme) (more : List Char) :
    lexOnto [] (source ++ b :: more) = s.tokens ++ lexOnto [] more := by
  obtain ⟨pieces, tail, rfl, segmented⟩ := s
  exact VectorPage.lexOnto_append_blank blank [] segmented closed more

end Lines

/-- **Reading is local.** If no string of a text runs into its end, comments
stripped, then the tokens of the text, a line break and another text are the
tokens of the one followed by those of the other. -/
theorem lexing_is_local (a b : String) (s : Segmentation (stripComments a.toList))
    (closed : ∀ piece ∈ s.pieces, IsClosed piece.token piece.lexeme) :
    tokenize (a ++ "\n" ++ b) = tokenize a ++ tokenize b := by
  have text : (a ++ "\n" ++ b).toList = a.toList ++ '\n' :: b.toList := by simp
  rw [tokenize, text, stripComments_newline, s.lexOnto_append_blank rfl closed]
  rw [tokenize, tokenize, s.lexOnto_eq [], List.reverse_nil, List.nil_append]

/-- A comment inside a string, which goes on in the next line, and a numeral with
an exponent mark that is not complete: the line break that follows does not
complete it. -/
theorem lexing_is_local_across_comment :
    ∃ s : Segmentation (stripComments "(%x\n) 1e".toList),
      s.tokens = [.string " \n", .number "1", .operator "e"]
      ∧ (∀ piece ∈ s.pieces, IsClosed piece.token piece.lexeme)
      ∧ tokenize ("(%x\n) 1e" ++ "\n" ++ "5") = tokenize "(%x\n) 1e" ++ tokenize "5" := by
  have body : StringBody [' ', '\n'] [' ', '\n'] :=
    .spelled (.plain (by decide) (by decide) (by decide))
      (.spelled (.plain (by decide) (by decide) (by decide)) .nil)
  have numeral : Longest IsNumeral ['1'] ['e'] :=
    @Numeral.longest_of_take? ['1', 'e'] ['e'] ⟨none, ['1'], none, none⟩ rfl
  have word : Longest IsName ['e'] [] := (@longest_of_takeName? ['e'] ['e'] [] rfl).2
  have noNumeral : NoNumeral ['e'] := Numeral.take?_eq_none.mp rfl
  let s : Segmentation (stripComments "(%x\n) 1e".toList) :=
    { pieces := [⟨[], "( \n)".toList, .string " \n"⟩, ⟨[' '], ['1'], .number "1"⟩,
        ⟨[], ['e'], .operator "e"⟩]
      tail := []
      covers := rfl
      segmented := ⟨trivial, .string body, ⟨.inl rfl, trivial⟩, .number numeral, trivial,
        .operator word noNumeral, trivial⟩ }
  have closed : ∀ piece ∈ s.pieces, IsClosed piece.token piece.lexeme := by
    simp only [s, List.forall_mem_cons]
    exact ⟨⟨_, _, body, rfl⟩, trivial, trivial, by simp⟩
  exact ⟨s, rfl, closed, lexing_is_local _ _ s closed⟩

end VectorPage
