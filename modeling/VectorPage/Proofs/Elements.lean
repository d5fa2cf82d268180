/-
The element of a path, and how it is read.

The markup of a path is one path element, which may stand inside one group.
Here the element is a value of its own, a list of attributes with another one
for the group, and the markup is what that value is written as. The reader
knows nothing of paths: it takes tags apart into names and quoted values, and
asks of a value only that it holds no quote, which would end it, and no angle
bracket or ampersand, which would begin something else.

Writing and reading fit together exactly if the values are of that kind
(`readPathElement?_markup`). Nothing is escaped on the way, so a value of
another kind is read as something else, or not at all.
-/
import VectorPage.Proofs.Numerals
import VectorPage.Proofs.References

set_option autoImplicit false

namespace VectorPage

/-! ## Reading -/

/-- A letter of the name of a tag or an attribute. -/
def isTagLetter (c : Char) : Bool :=
  c.isAlpha || c == '-'

/-- A character that stands for itself in the value of an attribute. -/
def isValueChar (c : Char) : Bool :=
  c != '"' && c != '<' && c != '&'

/-- Attributes by name and value, in the order in which they are written. -/
abbrev Attributes := List (String × String)

/-- An attribute at the front of a text: a name, an equals sign and a value in
quotes. -/
def readAttribute? (cs : List Char) : Option ((String × String) × List Char) :=
  match takeRun isTagLetter cs with
  | (name, '=' :: '"' :: text) =>
    if name.isEmpty then none
    else
      match takeRun isValueChar text with
      | (value, '"' :: rest) => some ((String.ofList name, String.ofList value), rest)
      | _ => none
  | _ => none

/-- An attribute takes characters off the text, so reading attributes one after the
other comes to an end. -/
theorem length_of_readAttribute? {cs rest : List Char} {a : String × String}
    (h : readAttribute? cs = some (a, rest)) : rest.length < cs.length := by
  unfold readAttribute? at h
  split at h
  · rename_i name text taken
    split at h
    · cases h
    · split at h
      · rename_i value rest' valued
        cases h
        have shorter := takeRun_length_le isTagLetter cs
        have shorter' := takeRun_length_le isValueChar text
        rw [taken] at shorter
        rw [valued] at shorter'
        simp only [List.length_cons] at shorter shorter'
        omega
      · cases h
  · cases h

/-- **The attributes at the front of a text**, as many as there are, each after a
blank. -/
def readAttributes (cs : List Char) : Attributes × List Char :=
  match cs with
  | ' ' :: text =>
    match _ : readAttribute? text with
    | some (a, rest) =>
      let (more, rest) := readAttributes rest
      (a :: more, rest)
    | none => ([], cs)
  | _ => ([], cs)
termination_by cs.length
decreasing_by
  have := length_of_readAttribute? ‹_›
  simp only [List.length_cons]
  omega

/-- A tag that opens an element, or is all of it. -/
structure Tag where
  name : String
  attributes : Attributes
  isWhole : Bool

/-- The tag at the front of a text. -/
def readTag? : List Char → Option (Tag × List Char)
  | '<' :: cs =>
    let (name, cs) := takeRun isTagLetter cs
    match readAttributes cs with
    | (attributes, '>' :: rest) => some (⟨String.ofList name, attributes, false⟩, rest)
    | (attributes, ' ' :: '/' :: '>' :: rest) => some (⟨String.ofList name, attributes, true⟩, rest)
    | _ => none
  | _ => none

/-- A path element, with the attributes of the group around it if there is
one. -/
structure PathElement where
  group : Option Attributes
  attributes : Attributes
  deriving DecidableEq, Repr

/-- All attributes of an element and its group. -/
def PathElement.allAttributes (e : PathElement) : Attributes :=
  e.group.getD [] ++ e.attributes

/-- **Reads one path element**, alone or as all that one group holds. The text
must end with it. -/
def readPathElement? (text : String) : Option PathElement :=
  match readTag? text.toList with
  | none => none
  | some (outer, rest) =>
    if outer.name = "path" ∧ outer.isWhole ∧ rest = [] then some ⟨none, outer.attributes⟩
    else if outer.name = "g" ∧ ¬ outer.isWhole then
      match readTag? rest with
      | none => none
      | some (inner, rest) =>
        if inner.name = "path" ∧ inner.isWhole ∧ rest = "</g>".toList then
          some ⟨some outer.attributes, inner.attributes⟩
        else none
    else none

/-! ## Writing -/

/-- Attributes as they stand in a tag. -/
def attributesText (attributes : Attributes) : String :=
  String.join (attributes.map fun a => " " ++ attr a.1 a.2)

/-- **The text of an element.** -/
def PathElement.markup (e : PathElement) : String :=
  let path := "<path" ++ attributesText e.attributes ++ " />"
  match e.group with
  | some attributes => "<g" ++ attributesText attributes ++ ">" ++ path ++ "</g>"
  | none => path

/-- The attributes of a group that carries the transform and the innermost
clip. -/
def GraphicsState.groupAttributes (g : GraphicsState) : Attributes :=
  (if transformText g.transform = "" then [] else [("transform", transformText g.transform)])
    ++ (g.clips.head?.map fun layer => ("clip-path", resourceText layer.id)).toList

/-- The attributes of a line, as far as they are written. -/
def GraphicsState.lineAttributes (g : GraphicsState) : Attributes :=
  (if g.lineWidth == 1 then [] else [("stroke-width", numberText g.lineWidth)])
    ++ (if g.lineCap = "butt" then [] else [("stroke-linecap", g.lineCap)])
    ++ (if g.lineJoin = "miter" then [] else [("stroke-linejoin", g.lineJoin)])
    ++ (match g.dash with
        | some dash => if dash = "" then [] else [("stroke-dasharray", dash)]
        | none => [])

/-- **The element of a path** that is painted under a graphics state. -/
def pathElement (data : PathData) (g : GraphicsState) (mode : PaintMode) (ref : Option String) :
    PathElement :=
  let stroke :=
    if mode.stroke && g.linePaint.text != "none" then
      ("stroke", g.linePaint.text) :: g.lineAttributes
    else if (fillPaint g mode none).text != "none" then [("stroke", "none")]
    else []
  { group := if g.needsGroup then some g.groupAttributes else none
    attributes := ("d", data.text) :: ("fill", (fillPaint g mode ref).text) :: stroke }

/-- Where no group is needed the transform is the identity. -/
theorem GraphicsState.transform_of_bare {g : GraphicsState} (bare : g.needsGroup = false) :
    g.transform.isIdentity = true := by
  simp only [needsGroup, Bool.or_eq_false_iff, Bool.not_eq_false'] at bare
  exact bare.1

theorem GraphicsState.clips_of_bare {g : GraphicsState} (bare : g.needsGroup = false) :
    g.clips = [] := by
  simp only [needsGroup, Bool.or_eq_false_iff, Bool.not_eq_false'] at bare
  exact List.isEmpty_iff.mp bare.2

/-- Attributes are written one after the other, a blank before each. -/
theorem attributesText_cons (a : String × String) (attributes : Attributes) :
    attributesText (a :: attributes) = " " ++ attr a.1 a.2 ++ attributesText attributes := by
  simp only [attributesText, List.map_cons, String.join_cons]

theorem attributesText_append (a b : Attributes) :
    attributesText (a ++ b) = attributesText a ++ attributesText b := by
  simp only [attributesText, List.map_append, String.join_append]

/-- A blank before every attribute, or only between two of them. -/
theorem attributesText_eq_intercalate (a : String × String) (attributes : Attributes) :
    attributesText (a :: attributes)
      = " " ++ " ".intercalate ((a :: attributes).map fun a => attr a.1 a.2) := by
  induction attributes generalizing a with
  | nil => simp [attributesText]
  | cons b attributes ih =>
    rw [attributesText_cons, ih b]
    simp only [List.map_cons, String.intercalate_cons_cons, String.append_assoc]

/-- The attributes of a line as texts are those of its element by name and value. -/
theorem lineAttributes_eq (g : GraphicsState) :
    lineAttributes g = g.lineAttributes.map fun a => attr a.1 a.2 := by
  simp only [lineAttributes, GraphicsState.lineAttributes, List.map_append]
  congr 1
  · split <;> split <;> split <;> rfl
  · cases g.dash with
    | none => rfl
    | some dash =>
      dsimp only
      split <;> rfl

/-- **The attributes of a path as texts** are those of its element by name and value.
Everything below speaks of the element, and reaches the texts that are written by
this. -/
theorem pathAttributes_eq (data : PathData) (g : GraphicsState) (mode : PaintMode)
    (ref : Option String) :
    pathAttributes data g mode ref
      = (pathElement data g mode ref).attributes.map fun a => attr a.1 a.2 := by
  have fill : (if mode.fill then g.areaPaint.text else "none") = (fillPaint g mode none).text := by
    rw [fillPaint]
    split <;> rfl
  simp only [pathAttributes, pathElement, List.map_cons, lineAttributes_eq, fill]
  congr 1
  congr 1
  · cases ref <;> rfl
  · split
    · rfl
    · split <;> rfl

/-- What stands in the tag of a group: the transform if it has a text, and the innermost
clip. -/
theorem GraphicsState.attributesText_group (g : GraphicsState) :
    attributesText g.groupAttributes
      = (if transformText g.transform = "" then ""
          else " " ++ attr "transform" (transformText g.transform))
        ++ clipAttribute g := by
  rw [groupAttributes, attributesText_append]
  congr 1
  · split
    · rfl
    · simp [attributesText]
  · rw [clipAttribute]
    cases g.clips with
    | nil => rfl
    | cons layer clips => simp [attributesText]

/-- **The markup of a path is that of its element.** -/
theorem pathMarkup_eq (data : PathData) (g : GraphicsState) (mode : PaintMode)
    (ref : Option String) : pathMarkup data g mode ref = (pathElement data g mode ref).markup := by
  have written : attributesText (pathElement data g mode ref).attributes
      = " " ++ " ".intercalate (pathAttributes data g mode ref) := by
    rw [pathAttributes_eq]
    exact attributesText_eq_intercalate _ _
  rw [PathElement.markup, written, pathMarkup, pathElement]
  by_cases group : g.needsGroup = true
  · simp only [group, if_true, g.attributesText_group, String.append_assoc]
    rfl
  · have clips : g.clips = [] := GraphicsState.clips_of_bare (by simpa using group)
    simp only [group, clipAttribute, clips, String.append_assoc, String.empty_append]
    rfl

/-! ## Reading what was written -/

/-- A text whose characters all stand for themselves in the value of an
attribute. -/
def isClean (s : String) : Bool :=
  s.toList.all isValueChar

/-- A name of a tag or an attribute. -/
def isTagName (s : String) : Bool :=
  !s.toList.isEmpty && s.toList.all isTagLetter

/-- **An attribute is read back**, if its name is a name and its value is clean: a clean
value ends at the quote that closes it. -/
theorem readAttribute?_attr {name value : String} (named : isTagName name = true)
    (clean : isClean value = true) (rest : List Char) :
    readAttribute? ((attr name value).toList ++ rest) = some ((name, value), rest) := by
  simp only [isTagName, Bool.and_eq_true, Bool.not_eq_true', List.all_eq_true] at named
  have text : (attr name value).toList ++ rest
      = name.toList ++ ('=' :: '"' :: (value.toList ++ '"' :: rest)) := by
    simp [attr]
  have taken : takeRun isTagLetter (name.toList ++ ('=' :: '"' :: (value.toList ++ '"' :: rest)))
      = (name.toList, '=' :: '"' :: (value.toList ++ '"' :: rest)) :=
    takeRun_eq named.2 (by simp [isTagLetter])
  have valued : takeRun isValueChar (value.toList ++ '"' :: rest) = (value.toList, '"' :: rest) :=
    takeRun_eq (List.all_eq_true.mp clean) (by simp [isValueChar])
  rw [readAttribute?, text, taken]
  simp [named.1, valued]

/-- **Attributes are read back**, up to a text that begins with none. -/
theorem readAttributes_attributesText {attributes : Attributes}
    (named : ∀ a ∈ attributes, isTagName a.1 = true)
    (clean : ∀ a ∈ attributes, isClean a.2 = true) {rest : List Char}
    (ends : readAttributes rest = ([], rest)) :
    readAttributes ((attributesText attributes).toList ++ rest) = (attributes, rest) := by
  induction attributes with
  | nil => simpa [attributesText] using ends
  | cons a attributes ih =>
    rw [List.forall_mem_cons] at named clean
    -- the blank in front of an attribute tells that one more follows
    have text : (attributesText (a :: attributes)).toList ++ rest
        = ' ' :: ((attr a.1 a.2).toList ++ ((attributesText attributes).toList ++ rest)) := by
      rw [attributesText_cons]
      simp
    rw [text, readAttributes]
    split
    · rename_i b rest' read
      rw [readAttribute?_attr named.1 clean.1] at read
      cases read
      rw [ih named.2 clean.2]
    · rename_i unread
      rw [readAttribute?_attr named.1 clean.1] at unread
      cases unread

/-- Nothing is read from the two ways in which a tag ends. -/
theorem readAttributes_tagEnd (rest : List Char) :
    readAttributes ('>' :: rest) = ([], '>' :: rest)
    ∧ readAttributes (' ' :: '/' :: '>' :: rest) = ([], ' ' :: '/' :: '>' :: rest) := by
  constructor
  · rw [readAttributes]
    simp
  · have nothing : readAttribute? ('/' :: '>' :: rest) = .none := by
      simp [readAttribute?, takeRun, isTagLetter]
    rw [readAttributes]
    split
    · rename_i read
      rw [nothing] at read
      cases read
    · rfl

/-- The name of a tag ends where its attributes begin, or the tag ends. -/
theorem takeRun_tagName {name : String} (named : isTagName name = true) (attributes : Attributes)
    {rest : List Char} (ends : ∀ c ∈ rest.head?, isTagLetter c = false) :
    takeRun isTagLetter (name.toList ++ ((attributesText attributes).toList ++ rest))
      = (name.toList, (attributesText attributes).toList ++ rest) := by
  simp only [isTagName, Bool.and_eq_true, List.all_eq_true] at named
  refine takeRun_eq named.2 ?_
  cases attributes with
  | nil => simpa [attributesText] using ends
  | cons a attributes =>
    rw [attributesText_cons]
    simp [isTagLetter]

section Tags

variable {name : String} {attributes : Attributes} (named : isTagName name = true)
  (allNamed : ∀ a ∈ attributes, isTagName a.1 = true)
  (clean : ∀ a ∈ attributes, isClean a.2 = true)

include named allNamed clean

/-- The opening tag of an element is read back with all its attributes. -/
theorem readTag?_opening (rest : List Char) :
    readTag? (("<" ++ name ++ attributesText attributes ++ ">").toList ++ rest)
      = some (⟨name, attributes, false⟩, rest) := by
  have text : ("<" ++ name ++ attributesText attributes ++ ">").toList ++ rest
      = '<' :: (name.toList ++ ((attributesText attributes).toList ++ '>' :: rest)) := by
    simp
  have read := readAttributes_attributesText allNamed clean (readAttributes_tagEnd rest).1
  rw [text, readTag?, takeRun_tagName named attributes (by simp [isTagLetter])]
  simp [read]

theorem readTag?_whole (rest : List Char) :
    readTag? (("<" ++ name ++ attributesText attributes ++ " />").toList ++ rest)
      = some (⟨name, attributes, true⟩, rest) := by
  have text : ("<" ++ name ++ attributesText attributes ++ " />").toList ++ rest
      = '<' :: (name.toList
          ++ ((attributesText attributes).toList ++ ' ' :: '/' :: '>' :: rest)) := by
    simp
  have read := readAttributes_attributesText allNamed clean (readAttributes_tagEnd rest).2
  rw [text, readTag?, takeRun_tagName named attributes (by simp [isTagLetter])]
  simp [read]

end Tags

/-- **An element is read back** if its values are clean. -/
theorem PathElement.read_markup {e : PathElement}
    (named : ∀ a ∈ e.allAttributes, isTagName a.1 = true)
    (clean : ∀ a ∈ e.allAttributes, isClean a.2 = true) : readPathElement? e.markup = some e := by
  obtain ⟨_ | carried, attributes⟩ := e
  · have read : readTag? (("<" ++ "path" ++ attributesText attributes ++ " />").toList ++ [])
        = some (⟨"path", attributes, true⟩, []) := readTag?_whole (by decide) named clean []
    have text : (PathElement.markup ⟨none, attributes⟩).toList
        = ("<" ++ "path" ++ attributesText attributes ++ " />").toList ++ [] :=
      (List.append_nil _).symm
    rw [readPathElement?, text, read]
    simp
  · simp only [allAttributes, Option.getD_some, List.forall_mem_append] at named clean
    -- the path inside a group is followed by the end of the group
    have inner : readTag? (("<" ++ "path" ++ attributesText attributes ++ " />").toList
          ++ "</g>".toList)
        = some (⟨"path", attributes, true⟩, "</g>".toList) :=
      readTag?_whole (by decide) named.2 clean.2 _
    have outer (rest : List Char) : readTag? (("<" ++ "g" ++ attributesText carried ++ ">").toList
          ++ rest)
        = some (⟨"g", carried, false⟩, rest) :=
      readTag?_opening (by decide) named.1 clean.1 rest
    have text : (PathElement.markup ⟨some carried, attributes⟩).toList
        = ("<" ++ "g" ++ attributesText carried ++ ">").toList
          ++ (("<" ++ "path" ++ attributesText attributes ++ " />").toList ++ "</g>".toList) := by
      simp only [PathElement.markup, ← String.toList_append, String.append_assoc]
      rfl
    rw [readPathElement?, text, outer]
    dsimp only
    rw [inner]
    simp

/-- Whatever is read as a value is clean: it ends at the first character that would not
be. So a value that is not clean cannot be read back. -/
theorem readAttribute?_clean {cs rest : List Char} {a : String × String}
    (h : readAttribute? cs = some (a, rest)) : isClean a.2 = true := by
  unfold readAttribute? at h
  split at h
  · split at h
    · cases h
    · split at h
      · rename_i value rest' valued
        cases h
        simp only [isClean, String.toList_ofList, List.all_eq_true]
        intro c mem
        exact mem_takeRun (by rw [valued]; exact mem)
      · cases h
  · cases h

theorem readAttributes_clean (cs : List Char) :
    ∀ a ∈ (readAttributes cs).1, isClean a.2 = true := by
  fun_induction readAttributes cs with
  | case1 text b rest read more rest' again ih =>
    rw [again] at ih
    intro a mem
    rcases List.mem_cons.mp mem with rfl | later
    · exact readAttribute?_clean read
    · exact ih a later
  | case2 => simp
  | case3 => simp

theorem readTag?_clean {cs rest : List Char} {tag : Tag} (h : readTag? cs = some (tag, rest)) :
    ∀ a ∈ tag.attributes, isClean a.2 = true := by
  unfold readTag? at h
  split at h
  · dsimp only at h
    split at h
    · rename_i cs _ attributes rest' read
      have clean := readAttributes_clean (takeRun isTagLetter cs).2
      rw [read] at clean
      cases h
      exact clean
    · rename_i cs _ attributes rest' read
      have clean := readAttributes_clean (takeRun isTagLetter cs).2
      rw [read] at clean
      cases h
      exact clean
    · cases h
  · cases h

/-- **Values that are read are clean**, whatever the text. -/
theorem readPathElement?_clean {text : String} {e : PathElement}
    (h : readPathElement? text = some e) : ∀ a ∈ e.allAttributes, isClean a.2 = true := by
  unfold readPathElement? at h
  split at h
  · cases h
  · rename_i outer rest opened
    split at h
    · cases h
      exact readTag?_clean opened
    · split at h
      · split at h
        · cases h
        · rename_i inner rest' within
          split at h
          · cases h
            exact List.forall_mem_append.mpr ⟨readTag?_clean opened, readTag?_clean within⟩
          · cases h
      · cases h

/-- **The markup of an element is read as that element if and only if all
values are clean.** -/
theorem PathElement.read_markup_iff {e : PathElement}
    (named : ∀ a ∈ e.allAttributes, isTagName a.1 = true) :
    readPathElement? e.markup = some e ↔ ∀ a ∈ e.allAttributes, isClean a.2 = true :=
  ⟨readPathElement?_clean, read_markup named⟩

/-! ## Clean texts -/

@[simp] theorem isClean_append (s t : String) : isClean (s ++ t) = (isClean s && isClean t) := by
  simp [isClean]

/-- Clean words with a clean separator make a clean text. -/
theorem isClean_intercalate {separator : String} (parted : isClean separator = true)
    {words : List String} (clean : ∀ w ∈ words, isClean w = true) :
    isClean (separator.intercalate words) = true := by
  induction words with
  | nil => rfl
  | cons word words ih =>
    rw [List.forall_mem_cons] at clean
    cases words with
    | nil => simpa using clean.1
    | cons next words =>
      rw [String.intercalate_cons_cons]
      simp [clean.1, parted, ih clean.2]

/-- A character that has but one spelling, in a value and elsewhere. -/
def isPlainChar (c : Char) : Bool :=
  isValueChar c && c != '>' && c != '\''

/-- A text of such characters. -/
def isPlain (s : String) : Bool :=
  s.toList.all isPlainChar

/-- Plain characters are those among the clean ones that mean nothing outside of values
either. -/
theorem isClean_of_isPlain {s : String} (plain : isPlain s = true) : isClean s = true := by
  simp only [isPlain, isPlainChar, List.all_eq_true, Bool.and_eq_true] at plain
  exact List.all_eq_true.mpr fun c mem => (plain c mem).1.1

@[simp] theorem isPlain_append (s t : String) : isPlain (s ++ t) = (isPlain s && isPlain t) := by
  simp [isPlain]

theorem isPlainChar_of_isDigit {c : Char} (digit : c.isDigit = true) : isPlainChar c = true := by
  simp only [isPlainChar, isValueChar, Bool.and_eq_true, bne_iff_ne]
  refine ⟨⟨⟨⟨?_, ?_⟩, ?_⟩, ?_⟩, ?_⟩ <;> rintro rfl <;> exact absurd digit (by decide)

theorem isPlain_repr (n : Nat) : isPlain (Nat.repr n) = true := by
  rw [Nat.repr_eq_ofList_toDigits, isPlain, String.toList_ofList, List.all_eq_true]
  intro c mem
  exact isPlainChar_of_isDigit (Nat.isDigit_of_mem_toDigits (by decide) (by decide) mem)

theorem isPlain_fractionText (n : Nat) : isPlain (fractionText n) = true := by
  have digit : ∀ d : Fin 10, isPlainChar (Char.ofNat (48 + d)) = true := by decide
  have digits : ∀ c ∈ thousandthDigits n, isPlainChar c = true := by
    have all (d : Nat) : isPlainChar (digitChar d) = true :=
      digit ⟨d % 10, Nat.mod_lt _ (by decide)⟩
    simp [thousandthDigits, all]
  unfold fractionText
  split
  · rfl
  · simp only [isPlain, String.toList_ofList, List.all_cons, Bool.and_eq_true, List.all_eq_true]
    refine ⟨by decide, fun c mem => digits c ?_⟩
    have dropped := List.mem_reverse.mp mem
    exact List.mem_reverse.mp ((List.dropWhile_suffix _).mem dropped)

/-- **Every number is written in plain characters.** -/
theorem isPlain_numberText (x : Float) : isPlain (numberText x) = true := by
  unfold numberText
  split
  · rw [thousandthsText]
    split
    · simp [isPlain_repr, isPlain_fractionText]
      decide
    · simp [isPlain_repr, isPlain_fractionText]
  · decide

/-- A colour is written in digits and the letters around them. -/
theorem Color.isPlain_text (c : Color) : isPlain c.text = true := by
  simp [Color.text, isPlain_repr]
  decide

theorem isClean_numberText (x : Float) : isClean (numberText x) = true :=
  isClean_of_isPlain (isPlain_numberText x)

theorem isPlain_resourceText {id : String} (plain : isPlain id = true) :
    isPlain (resourceText id) = true := by
  simp [resourceText, plain]
  decide

theorem Color.isClean_text (c : Color) : isClean c.text = true :=
  isClean_of_isPlain c.isPlain_text

theorem Segment.isClean_words (s : Segment) : ∀ w ∈ s.words, isClean w = true := by
  have flags : ∀ flag, isClean (flagText flag) = true := by decide
  cases s <;> simp [words, isClean_numberText, flags] <;> decide

/-- The data of a path are letters, numbers and blanks, so they never end an attribute
early. -/
theorem isClean_segmentsText (segments : List Segment) :
    isClean (segmentsText segments) = true := by
  refine isClean_intercalate (by decide) fun w mem => ?_
  obtain ⟨s, -, mem⟩ := List.mem_flatMap.mp mem
  exact s.isClean_words w mem

/-- The text of a transform is made of words, brackets and numbers. -/
theorem isClean_transformText (t : Affine Float) : isClean (transformText t) = true := by
  refine isClean_intercalate (by decide) fun w mem => ?_
  simp only [List.mem_append, List.mem_ite_nil_right, List.mem_singleton] at mem
  -- each part is written or not, and consists of its name and one number or two
  rcases mem with (⟨-, rfl⟩ | ⟨-, rfl⟩) | ⟨-, rfl⟩ <;> simp [isClean_numberText] <;> decide

/-! ## Where the attributes come from -/

/-- **The attributes that the element of a path can have.** -/
inductive PathElement.Source (data : PathData) (g : GraphicsState) (mode : PaintMode)
    (ref : Option String) : String × String → Prop where
  | transform : Source data g mode ref ("transform", transformText g.transform)
  | clip {layer : ClipLayer} (inForce : layer ∈ g.clips) :
      Source data g mode ref ("clip-path", resourceText layer.id)
  | data : Source data g mode ref ("d", data.text)
  | fill : Source data g mode ref ("fill", (fillPaint g mode ref).text)
  | stroke : Source data g mode ref ("stroke", g.linePaint.text)
  | noStroke : Source data g mode ref ("stroke", "none")
  | width : Source data g mode ref ("stroke-width", numberText g.lineWidth)
  | cap : Source data g mode ref ("stroke-linecap", g.lineCap)
  | join : Source data g mode ref ("stroke-linejoin", g.lineJoin)
  | dash {lengths : String} (dashed : g.dash = some lengths) :
      Source data g mode ref ("stroke-dasharray", lengths)

section Sources

variable {data : PathData} {g : GraphicsState} {mode : PaintMode} {ref : Option String}
  {a : String × String}

theorem GraphicsState.source_of_group (mem : a ∈ g.groupAttributes) :
    PathElement.Source data g mode ref a := by
  simp only [groupAttributes, List.mem_append, List.mem_ite_nil_left, List.mem_singleton,
    Option.mem_toList, Option.map_eq_some_iff] at mem
  rcases mem with ⟨-, rfl⟩ | ⟨layer, innermost, rfl⟩
  · exact .transform
  · exact .clip (List.mem_of_mem_head? innermost)

/-- A line has a width, a cap, a join and dashes, each only if it differs from what
holds without it. -/
theorem GraphicsState.source_of_line (mem : a ∈ g.lineAttributes) :
    PathElement.Source data g mode ref a := by
  simp only [lineAttributes, List.mem_append, List.mem_ite_nil_left, List.mem_singleton] at mem
  rcases mem with ((⟨-, rfl⟩ | ⟨-, rfl⟩) | ⟨-, rfl⟩) | mem
  · exact .width
  · exact .cap
  · exact .join
  · split at mem
    · rename_i lengths dashed
      obtain ⟨-, rfl⟩ := by simpa using mem
      exact .dash dashed
    · cases mem

/-- **Every attribute of an element is one of a few**, and its value comes from one
place in the graphics state. Whether values are clean can then be asked of these
places. -/
theorem pathElement_source (mem : a ∈ (pathElement data g mode ref).allAttributes) :
    PathElement.Source data g mode ref a := by
  rcases List.mem_append.mp mem with carried | own
  · simp only [pathElement] at carried
    split at carried
    · exact g.source_of_group carried
    · cases carried
  · simp only [pathElement, List.mem_cons] at own
    rcases own with rfl | rfl | own
    · exact .data
    · exact .fill
    · split at own
      · rcases List.mem_cons.mp own with rfl | own
        · exact .stroke
        · exact g.source_of_line own
      · split at own
        · obtain rfl := List.mem_singleton.mp own
          exact .noStroke
        · cases own

theorem PathElement.Source.named (h : Source data g mode ref a) : isTagName a.1 = true := by
  cases h <;> dsimp only <;> decide

/-- **A path is read as its element if and only if all values are clean.** -/
theorem read_pathMarkup_iff :
    readPathElement? (pathMarkup data g mode ref) = some (pathElement data g mode ref)
      ↔ ∀ a ∈ (pathElement data g mode ref).allAttributes, isClean a.2 = true := by
  rw [pathMarkup_eq]
  exact PathElement.read_markup_iff fun a mem => (pathElement_source mem).named

end Sources

end VectorPage
