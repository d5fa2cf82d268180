/-
Texts survive escaping.

Escaping replaces five characters by references, among them the ampersand with
which every reference begins. So it can be undone without a look at what the
text was before: `unescape?` replaces the references back and accepts nothing
but escaped texts, each as what it was (`unescape?_eq_some_iff`).

The element of a text is written with escaped values and escaped content, apart
from the paint, which is written as it stands and is plain (`isPlain`). The
reader of elements takes tags apart by their angle brackets and quotes before it
replaces any reference, and gets back the font and the text that were shown.
-/
import VectorPage.Proofs.Styles
import VectorPage.Token.Lexer

set_option autoImplicit false

namespace VectorPage

/-! ## References -/

/-- **The five references**, and what they stand for. -/
def references : List (String × Char) :=
  [("&amp;", '&'), ("&lt;", '<'), ("&gt;", '>'), ("&quot;", '"'), ("&#x27;", '\'')]

/-- The character of the reference at the front of a text, and the text
after it. -/
def reference? (cs : List Char) : Option (Char × List Char) :=
  references.findSome? fun r =>
    if r.1.toList.isPrefixOf cs then some (r.2, cs.drop r.1.toList.length) else none

/-- What is read as a reference is one of the few, spelled out in full. -/
theorem eq_of_reference? {cs rest : List Char} {c : Char} (h : reference? cs = some (c, rest)) :
    ∃ r ∈ references, r.2 = c ∧ cs = r.1.toList ++ rest := by
  obtain ⟨r, mem, found⟩ := List.exists_of_findSome?_eq_some h
  split at found
  · rename_i begins
    cases found
    obtain ⟨after, rfl⟩ := List.isPrefixOf_iff_prefix.mp begins
    exact ⟨r, mem, rfl, by rw [List.drop_left]⟩
  · cases found

/-- No reference is the beginning of another, so each is read whatever follows. -/
theorem reference?_append {r : String × Char} (mem : r ∈ references) (cs : List Char) :
    reference? (r.1.toList ++ cs) = some (r.2, cs) := by
  simp only [references, List.mem_cons, List.not_mem_nil, or_false] at mem
  rcases mem with rfl | rfl | rfl | rfl | rfl <;> rfl

/-- **The text that was escaped**, if this is one: plain characters stand for
themselves, and no other character stands outside a reference. -/
def unescape? (cs : List Char) : Option (List Char) :=
  match cs with
  | [] => some []
  | c :: rest =>
    if isPlainChar c then (unescape? rest).map (c :: ·)
    else
      match _ : reference? (c :: rest) with
      | some (d, beyond) => (unescape? beyond).map (d :: ·)
      | none => none
termination_by cs.length
decreasing_by
  · exact Nat.lt_succ_self _
  · obtain ⟨r, mem, -, text⟩ := eq_of_reference? ‹_›
    have spelled : ∀ r ∈ references, 0 < r.1.toList.length := by decide
    have positive := spelled r mem
    rw [text, List.length_append]
    omega

/-! ## Spelling and reading -/

theorem entity_of_isPlainChar {c : Char} (plain : isPlainChar c = true) : entity c = [c] := by
  unfold entity
  split
  all_goals first | rfl | exact absurd plain (by decide)

theorem entity_of_reference : ∀ r ∈ references, entity r.2 = r.1.toList := by
  decide

/-- A character that is not plain has a reference. -/
theorem exists_reference {c : Char} (special : isPlainChar c = false) :
    ∃ r ∈ references, r.2 = c := by
  simp only [isPlainChar, isValueChar, Bool.and_eq_false_iff, bne_eq_false_iff_eq] at special
  rcases special with (((rfl | rfl) | rfl) | rfl) | rfl <;> simp [references]

/-- **A spelled character is read back**, and the rest of the text is read by itself. -/
theorem unescape?_entity_append (c : Char) (cs : List Char) :
    unescape? (entity c ++ cs) = (unescape? cs).map (c :: ·) := by
  cases plain : isPlainChar c with
  | true =>
    rw [entity_of_isPlainChar plain, List.singleton_append, unescape?, if_pos plain]
  | false =>
    obtain ⟨r, mem, rfl⟩ := exists_reference plain
    have begins : ∀ r ∈ references, r.1.toList.head? = some '&' := by decide
    obtain ⟨name, spelt⟩ := List.head?_eq_some_iff.mp (begins r mem)
    have found := reference?_append mem cs
    -- an ampersand is not plain, so the reader looks for a reference and finds this one
    rw [entity_of_reference r mem, spelt] at *
    rw [List.cons_append] at found ⊢
    rw [unescape?, if_neg (by decide)]
    split
    · rename_i d beyond read
      rw [found] at read
      cases read
      rfl
    · rename_i unread
      rw [found] at unread
      cases unread

/-- So is a whole text. By induction on its characters. -/
theorem unescape?_escape (s : List Char) : unescape? (s.flatMap entity) = some s := by
  induction s with
  | nil => rw [List.flatMap_nil, unescape?]
  | cons c s ih => rw [List.flatMap_cons, unescape?_entity_append, ih, Option.map_some]

/-- **There is one spelling of a text**: what can be read was escaped. -/
theorem eq_of_unescape? {cs s : List Char} (h : unescape? cs = some s) :
    cs = s.flatMap entity := by
  fun_induction unescape? cs generalizing s with
  | case1 =>
    cases h
    rfl
  | case2 c rest plain ih =>
    obtain ⟨after, read, rfl⟩ := Option.map_eq_some_iff.mp h
    rw [List.flatMap_cons, entity_of_isPlainChar plain, ih read, List.singleton_append]
  | case3 c rest _ d beyond found ih =>
    obtain ⟨after, read, rfl⟩ := Option.map_eq_some_iff.mp h
    obtain ⟨r, mem, rfl, text⟩ := eq_of_reference? found
    rw [List.flatMap_cons, entity_of_reference r mem, ← ih read, text]
  | case4 => cases h

/-- **Exactly the escaped texts are read back**, each as what it was. -/
theorem unescape?_eq_some_iff {cs s : List Char} :
    unescape? cs = some s ↔ cs = s.flatMap entity :=
  ⟨eq_of_unescape?, fun escaped => escaped ▸ unescape?_escape s⟩

/-- The characters of an escaped text are plain, or begin a reference. -/
theorem isPlainChar_of_mem_escape {s : String} {c : Char} (mem : c ∈ (escape s).toList) :
    isPlainChar c = true ∨ c = '&' := by
  rw [escape, String.toList_ofList] at mem
  obtain ⟨d, -, spelling⟩ := List.mem_flatMap.mp mem
  cases plain : isPlainChar d with
  | true =>
    rw [entity_of_isPlainChar plain] at spelling
    obtain rfl := List.mem_singleton.mp spelling
    exact .inl plain
  | false =>
    obtain ⟨r, known, rfl⟩ := exists_reference plain
    rw [entity_of_reference r known] at spelling
    have all : ∀ r ∈ references, r.1.toList.all (fun c => isPlainChar c || c == '&') := by decide
    simpa using List.all_eq_true.mp (all r known) c spelling

/-- A spelling has an ampersand at its front only, and is a reference then. -/
theorem ampersand_in_entity {c : Char} {before after : List Char}
    (spelling : entity c = before ++ '&' :: after) :
    before = [] ∧ ∃ r ∈ references, r.1.toList = '&' :: after := by
  cases plain : isPlainChar c with
  | true =>
    have here : '&' ∈ entity c := by simp [spelling]
    rw [entity_of_isPlainChar plain, List.mem_singleton] at here
    subst here
    exact absurd plain (by decide)
  | false =>
    obtain ⟨r, mem, rfl⟩ := exists_reference plain
    rw [entity_of_reference r mem] at spelling
    cases before with
    | nil => exact ⟨rfl, r, mem, spelling⟩
    | cons first before =>
      -- the ampersand would be a second one
      have once : ∀ r ∈ references, '&' ∉ r.1.toList.tail := by decide
      refine absurd ?_ (once r mem)
      simp [spelling]

/-- **Every ampersand of an escaped text begins a reference.** -/
theorem reference_of_ampersand {s before after : List Char}
    (escaped : s.flatMap entity = before ++ '&' :: after) :
    ∃ r ∈ references, r.1.toList <+: '&' :: after := by
  induction s generalizing before with
  | nil => simp at escaped
  | cons c s ih =>
    rw [List.flatMap_cons] at escaped
    rcases List.append_eq_append_iff.mp escaped with ⟨inner, -, rest⟩ | ⟨inner, spelling, rest⟩
    · exact ih rest
    · cases inner with
      | nil => exact @ih [] rest.symm
      | cons first inner =>
        -- the ampersand belongs to the spelling of this character
        obtain ⟨rfl, rfl⟩ := List.cons.inj rest
        obtain ⟨-, r, mem, reference⟩ := ampersand_in_entity spelling
        exact ⟨r, mem, by rw [reference]; exact List.prefix_append ('&' :: inner) _⟩

theorem escape_of_isPlain {s : String} (plain : isPlain s = true) : escape s = s := by
  have all := List.all_eq_true.mp plain
  have spelt : s.toList.flatMap entity = s.toList := by
    rw [List.flatMap_congr fun c mem => entity_of_isPlainChar (all c mem), List.flatMap_singleton']
  rw [escape, spelt, String.ofList_toList]

/-! ## Elements with escaped values -/

/-- Text up to a character, with its references replaced, and what comes after
that character. -/
def readUpTo? (stop : Char) (cs : List Char) : Option (String × List Char) :=
  match takeRun (· != stop) cs with
  | (raw, _ :: rest) => (unescape? raw).map fun s => (String.ofList s, rest)
  | (_, []) => none

/-- An attribute at the front of a text, its value escaped. -/
def readEscapedAttribute? (cs : List Char) : Option ((String × String) × List Char) :=
  match takeRun isTagLetter cs with
  | (name, '=' :: '"' :: text) =>
    if name.isEmpty then none
    else (readUpTo? '"' text).map fun read => ((String.ofList name, read.1), read.2)
  | _ => none

/-- Reading up to a character takes at least that one off. -/
theorem length_of_readUpTo? {stop : Char} {cs rest : List Char} {s : String}
    (h : readUpTo? stop cs = some (s, rest)) : rest.length < cs.length := by
  have shorter := takeRun_length_le (· != stop) cs
  unfold readUpTo? at h
  split at h
  · rename_i raw c rest' taken
    obtain ⟨read, -, same⟩ := Option.map_eq_some_iff.mp h
    cases same
    rw [taken] at shorter
    exact shorter
  · cases h

theorem length_of_readEscapedAttribute? {cs rest : List Char} {a : String × String}
    (h : readEscapedAttribute? cs = some (a, rest)) : rest.length < cs.length := by
  have shorter := takeRun_length_le isTagLetter cs
  unfold readEscapedAttribute? at h
  split at h
  · rename_i name text taken
    split at h
    · cases h
    · obtain ⟨read, value, same⟩ := Option.map_eq_some_iff.mp h
      cases same
      have shorter' := length_of_readUpTo? value
      rw [taken] at shorter
      simp only [List.length_cons] at shorter
      omega
  · cases h

/-- **The attributes at the front of a text**, their values escaped. -/
def readEscapedAttributes (cs : List Char) : Attributes × List Char :=
  match cs with
  | ' ' :: text =>
    match _ : readEscapedAttribute? text with
    | some (a, rest) =>
      let (more, rest) := readEscapedAttributes rest
      (a :: more, rest)
    | none => ([], cs)
  | _ => ([], cs)
termination_by cs.length
decreasing_by
  have := length_of_readEscapedAttribute? ‹_›
  simp only [List.length_cons]
  omega

/-- An element that holds text and no other element. -/
structure LeafElement where
  name : String
  attributes : Attributes
  content : String
  deriving DecidableEq, Repr

/-- **Reads one element** with its attributes and its text. No markup may stand
inside it, and the text must end with its end tag. -/
def readElement? (text : String) : Option LeafElement :=
  match text.toList with
  | '<' :: cs =>
    let (name, cs) := takeRun isTagLetter cs
    match readEscapedAttributes cs with
    | (attributes, '>' :: cs) =>
      match readUpTo? '<' cs with
      | some (content, ending) =>
        if ending = '/' :: (name ++ ['>']) then some ⟨String.ofList name, attributes, content⟩
        else none
      | none => none
    | _ => none
  | _ => none

/-- Attributes as they stand in a tag, their values escaped. -/
def escapedText (attributes : Attributes) : String :=
  attributesText (attributes.map fun a => (a.1, escape a.2))

/-- **The markup of an element**, everything in it escaped. -/
def LeafElement.markup (e : LeafElement) : String :=
  "<" ++ e.name ++ escapedText e.attributes ++ ">" ++ escape e.content ++ "</" ++ e.name ++ ">"

/-- An escaped text holds no quote and no angle bracket. -/
theorem ne_of_mem_escape {s : String} {c stop : Char} (mem : c ∈ (escape s).toList)
    (special : isPlainChar stop = false) (other : stop ≠ '&') : c ≠ stop := by
  rintro rfl
  rcases isPlainChar_of_mem_escape mem with plain | rfl
  · exact absurd plain (by simp [special])
  · exact other rfl

/-- An escaped text has no character in it that could end it early, so it is read up to
the one behind it. -/
theorem readUpTo?_escape (stop : Char) (special : isPlainChar stop = false) (other : stop ≠ '&')
    (s : String) (rest : List Char) :
    readUpTo? stop ((escape s).toList ++ stop :: rest) = some (s, rest) := by
  have taken : takeRun (· != stop) ((escape s).toList ++ stop :: rest)
      = ((escape s).toList, stop :: rest) := by
    refine takeRun_eq (fun c mem => ?_) (by simp)
    exact bne_iff_ne.mpr (ne_of_mem_escape mem special other)
  have read : unescape? (escape s).toList = some s.toList := by
    rw [escape, String.toList_ofList, unescape?_escape]
  rw [readUpTo?, taken]
  simp [read]

/-- An attribute is read back whatever its value is: the quote inside a value is
escaped. -/
theorem readEscapedAttribute?_attr {name : String} (named : isTagName name = true)
    (value : String) (rest : List Char) :
    readEscapedAttribute? ((attr name (escape value)).toList ++ rest)
      = some ((name, value), rest) := by
  simp only [isTagName, Bool.and_eq_true, Bool.not_eq_true', List.all_eq_true] at named
  have text : (attr name (escape value)).toList ++ rest
      = name.toList ++ ('=' :: '"' :: ((escape value).toList ++ '"' :: rest)) := by
    simp [attr]
  have taken : takeRun isTagLetter
        (name.toList ++ ('=' :: '"' :: ((escape value).toList ++ '"' :: rest)))
      = (name.toList, '=' :: '"' :: ((escape value).toList ++ '"' :: rest)) :=
    takeRun_eq named.2 (by simp [isTagLetter])
  rw [readEscapedAttribute?, text, taken]
  simp [named.1, readUpTo?_escape '"' (by decide) (by decide)]

theorem escapedText_cons (a : String × String) (attributes : Attributes) :
    (escapedText (a :: attributes)).toList
      = ' ' :: ((attr a.1 (escape a.2)).toList ++ (escapedText attributes).toList) := by
  rw [escapedText, List.map_cons, attributesText_cons]
  simp [escapedText]

/-- **Escaped attributes are read back**, up to the end of the tag. -/
theorem readEscapedAttributes_text {attributes : Attributes}
    (named : ∀ a ∈ attributes, isTagName a.1 = true) (rest : List Char) :
    readEscapedAttributes ((escapedText attributes).toList ++ '>' :: rest)
      = (attributes, '>' :: rest) := by
  induction attributes with
  | nil =>
    have text : (escapedText []).toList ++ '>' :: rest = '>' :: rest := rfl
    rw [text, readEscapedAttributes]
    simp
  | cons a attributes ih =>
    rw [List.forall_mem_cons] at named
    rw [escapedText_cons, List.cons_append, List.append_assoc, readEscapedAttributes]
    split
    · rename_i b rest' read
      rw [readEscapedAttribute?_attr named.1] at read
      cases read
      rw [ih named.2]
    · rename_i unread
      rw [readEscapedAttribute?_attr named.1] at unread
      cases unread

/-- The text of an element part by part, which is the order in which it is read. -/
theorem LeafElement.toList_markup (e : LeafElement) :
    e.markup.toList = '<' :: (e.name.toList ++ ((escapedText e.attributes).toList
      ++ '>' :: ((escape e.content).toList ++ '<' :: '/' :: (e.name.toList ++ ['>'])))) := by
  simp [markup]

section Angles

variable {angle : Char} (is : angle = '<' ∨ angle = '>')

include is

theorem not_mem_escape (s : String) : angle ∉ (escape s).toList := by
  intro here
  rcases is with rfl | rfl <;> exact ne_of_mem_escape here (by decide) (by decide) rfl

theorem not_mem_tagName {name : String} (named : isTagName name = true) :
    angle ∉ name.toList := by
  simp only [isTagName, Bool.and_eq_true, List.all_eq_true] at named
  intro here
  have letter := named.2 angle here
  rcases is with rfl | rfl <;> exact absurd letter (by decide)

/-- Escaped attributes have no angle brackets, so all those of an element belong to its
two tags. -/
theorem not_mem_escapedText {attributes : Attributes}
    (named : ∀ a ∈ attributes, isTagName a.1 = true) :
    angle ∉ (escapedText attributes).toList := by
  induction attributes with
  | nil => simp [escapedText, attributesText]
  | cons a attributes ih =>
    rw [List.forall_mem_cons] at named
    have inName := not_mem_tagName is named.1
    have inValue := not_mem_escape is a.2
    rcases is with rfl | rfl <;> simp [escapedText_cons, attr, ih named.2, inName, inValue]

end Angles

section Elements

variable {e : LeafElement} (named : isTagName e.name = true)
  (allNamed : ∀ a ∈ e.attributes, isTagName a.1 = true)

include named allNamed

/-- **An element is read back**, whatever its values and its text are. -/
theorem LeafElement.read_markup : readElement? e.markup = some e := by
  have letters : ∀ c ∈ e.name.toList, isTagLetter c = true := by
    simp only [isTagName, Bool.and_eq_true, List.all_eq_true] at named
    exact named.2
  -- the name of the tag ends at the blank of the first attribute, or at the bracket
  have taken (rest : List Char) : takeRun isTagLetter
        (e.name.toList ++ ((escapedText e.attributes).toList ++ '>' :: rest))
      = (e.name.toList, (escapedText e.attributes).toList ++ '>' :: rest) := by
    refine takeRun_eq letters ?_
    cases e.attributes with
    | nil => simp [escapedText, attributesText, isTagLetter]
    | cons a attributes => simp [escapedText_cons, isTagLetter]
  rw [readElement?, e.toList_markup]
  simp only [taken, readEscapedAttributes_text allNamed,
    readUpTo?_escape '<' (by decide) (by decide), if_true, String.ofList_toList]

/-- **The only angle brackets** of an element are those of its two tags. -/
theorem LeafElement.count_angle {angle : Char} (is : angle = '<' ∨ angle = '>') :
    e.markup.toList.count angle = 2 := by
  have inName := not_mem_tagName is named
  have inTag := not_mem_escapedText is allNamed
  have inText := not_mem_escape is e.content
  rw [e.toList_markup]
  rcases is with rfl | rfl <;> simp [List.count_eq_zero_of_not_mem, inName, inText, inTag]

end Elements

/-! ## Texts -/

/-- **The element of a text.** -/
def TextElement.element (t : TextElement) : LeafElement where
  name := "text"
  attributes :=
    [("transform", "scale(1 -1)"), ("x", numberText t.x), ("y", numberText (-t.y)),
      ("font-family", t.font), ("font-size", numberText t.fontSize), ("fill", t.fill.text),
      ("stroke", "none")]
  content := t.content

/-- **The markup of a text is that of its element**, if the paint is written in
plain characters: everything else is escaped or plain. -/
theorem TextElement.markup_eq {t : TextElement} (plain : isPlain t.fill.text = true) :
    t.markup = t.element.markup := by
  have transform : escape "scale(1 -1)" = "scale(1 -1)" := escape_of_isPlain (by decide)
  have unpainted : escape "none" = "none" := escape_of_isPlain (by decide)
  have number (x : Float) : escape (numberText x) = numberText x :=
    escape_of_isPlain (isPlain_numberText x)
  have opening : "<text transform=\"scale(1 -1)\" "
      = "<" ++ ("text" ++ (" " ++ (attr "transform" "scale(1 -1)" ++ " "))) := by decide
  have ending : "</text>" = "</" ++ ("text" ++ ">") := by decide
  have nothing : attributesText [] = "" := rfl
  -- the start of the tag is one literal, and has to come apart into its attributes
  delta TextElement.markup
  rw [opening, ending, LeafElement.markup, element, escapedText]
  simp only [List.map_cons, List.map_nil, attributesText_cons, transform, unpainted, number,
    escape_of_isPlain plain, nothing, String.empty_append, String.append_assoc]

/-- **A text is read back**, with no markup in it but its two tags. -/
theorem TextElement.read_markup {t : TextElement} (plain : isPlain t.fill.text = true) :
    readElement? t.markup = some t.element
    ∧ t.markup.toList.count '<' = 2 ∧ t.markup.toList.count '>' = 2 := by
  have named : isTagName t.element.name = true := show isTagName "text" = true by decide
  have allNamed : ∀ a ∈ t.element.attributes, isTagName a.1 = true := by
    simp only [element, List.forall_mem_cons]
    decide
  rw [markup_eq plain]
  exact ⟨LeafElement.read_markup named allNamed, LeafElement.count_angle named allNamed (.inl rfl),
    LeafElement.count_angle named allNamed (.inr rfl)⟩

namespace Machine

/-- What showing a text writes. -/
theorem showText_texts {limits : Limits} {level : Nat} {m m' : Machine}
    (executes : Executes limits level .showText m m') :
    m'.picture.texts = match m.graphics.textPosition with
      | some (x, y) => m.picture.texts.push
        ⟨(m.graphics.transform.apply x y).1, (m.graphics.transform.apply x y).2,
          m.graphics.font, m.graphics.fontSize, m.graphics.areaPaint, m.popDisplay.1⟩
      | none => m.picture.texts := by
  obtain ⟨rest, rfl⟩ := executes.eq_operate (by decide)
  rw [operate_counted, operate, showText_eq, popDisplay_eq]
  cases m.graphics.textPosition with
  | none => rfl
  | some p => rfl

/-- **Texts survive escaping.** An escaped text holds no angle bracket and no
quote, every ampersand in it begins one of the five references, and it is the
only text that reads back as what was escaped. So in every reachable machine,
what showing a text writes at the current place has no markup but one start tag
and one end tag; it is read as one element, whose text is the operand that was
shown and whose font family is the current font. With no current place nothing
is written. -/
theorem texts_read_as_shown {limits : Limits} {level : Nat} {m m' : Machine}
    (reachable : Reachable limits level m) (executes : Executes limits level .showText m m')
    (s : String) :
    ((∀ c ∈ (escape s).toList, c ∉ ['<', '>', '"', '\''])
      ∧ (∀ before after, (escape s).toList = before ++ '&' :: after →
          ∃ r ∈ references, r.1.toList <+: '&' :: after)
      ∧ ∀ cs, unescape? cs = some s.toList ↔ cs = (escape s).toList)
    ∧ (m.graphics.textPosition = none → m'.picture.texts = m.picture.texts)
    ∧ (m.graphics.textPosition.isSome → ∃ t e, m'.picture.texts = m.picture.texts.push t
        ∧ t.markup.toList.count '<' = 2 ∧ t.markup.toList.count '>' = 2
        ∧ readElement? t.markup = some e ∧ e.name = "text" ∧ e.content = m.popDisplay.1
        ∧ e.attributes.lookup "font-family" = some m.graphics.font) := by
  have texts := showText_texts executes
  refine ⟨⟨?_, fun before after escaped => ?_, fun cs => ?_⟩, fun nowhere => ?_,
    fun somewhere => ?_⟩
  · intro c mem special
    have other : isPlainChar c = false ∧ c ≠ '&' := by
      simp only [List.mem_cons, List.not_mem_nil, or_false] at special
      rcases special with rfl | rfl | rfl | rfl <;> decide
    exact ne_of_mem_escape mem other.1 other.2 rfl
  · rw [escape, String.toList_ofList] at escaped
    exact reference_of_ampersand escaped
  · rw [escape, String.toList_ofList]
    exact unescape?_eq_some_iff
  · rw [texts, nowhere]
  · obtain ⟨⟨x, y⟩, placed⟩ := Option.isSome_iff_exists.mp somewhere
    rw [placed] at texts
    obtain ⟨read, opening, closing⟩ := TextElement.read_markup (t := ⟨_, _, _, _, _, _⟩)
      (isPlain_areaPaint_of_moves reachable.moves)
    exact ⟨_, _, texts, opening, closing, read, rfl, rfl, rfl⟩

/-- A font and a text with markup, quotes and references in them. -/
theorem texts_read_as_shown_with_references :
    ∃ m m' t e, Reachable {} 0 m ∧ Executes {} 0 .showText m m'
      ∧ m.graphics.textPosition.isSome = true
      ∧ m.graphics.font = "A&amp;\"B" ∧ m.popDisplay.1 = "</text> &lt; 'c' & d"
      ∧ m'.picture.fragments.texts
        = ["<text transform=\"scale(1 -1)\" x=\"1\" y=\"-2\" font-family=\"A&amp;amp;&quot;B\" "
          ++ "font-size=\"12\" fill=\"black\" stroke=\"none\">"
          ++ "&lt;/text&gt; &amp;lt; &#x27;c&#x27; &amp; d</text>"]
      ∧ m'.picture.texts = m.picture.texts.push t
      ∧ t.markup.toList.count '<' = 2 ∧ t.markup.toList.count '>' = 2
      ∧ readElement? t.markup = some e ∧ e.name = "text" ∧ e.content = m.popDisplay.1
      ∧ e.attributes.lookup "font-family" = some m.graphics.font := by
  have ran : (initial.run {} 20
      (tokenize "(A&amp;\"B) setfont 1 2 moveto (</text> &lt; 'c' & d)")).map
        (fun m => ((m.graphics.textPosition.isSome, (m.lookup "show").isNone, m.isSpent {}),
          m.graphics.font, m.popDisplay.1,
          (m.counted.operate (.ofTokens []) .showText).picture.fragments.texts))
      = some ((true, true, false), "A&amp;\"B", "</text> &lt; 'c' & d",
        ["<text transform=\"scale(1 -1)\" x=\"1\" y=\"-2\" font-family=\"A&amp;amp;&quot;B\" "
          ++ "font-size=\"12\" fill=\"black\" stroke=\"none\">"
          ++ "&lt;/text&gt; &amp;lt; &#x27;c&#x27; &amp; d</text>"]) := by
    decide +kernel
  obtain ⟨m, ran, facts⟩ := Option.map_eq_some_iff.mp ran
  simp only [Prod.mk.injEq] at facts
  obtain ⟨⟨placed, unbound, live⟩, font, shown, texts⟩ := facts
  have reachable : Reachable {} 0 m := .of_run ran
  have executes : Executes {} 0 .showText m (m.counted.operate (.ofTokens []) .showText) :=
    .of_name "show" rfl (Option.isNone_iff_eq_none.mp unbound) live (by decide)
  obtain ⟨t, e, result⟩ := (texts_read_as_shown reachable executes "").2.2 placed
  exact ⟨m, _, t, e, reachable, executes, placed, font, shown, texts, result⟩

end Machine

end VectorPage
