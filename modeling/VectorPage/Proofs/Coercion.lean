/-
Texts that stand for numbers.

An operand may be given as a text or a name where a number is expected, if it is
written as a plain decimal. Three readers meet there: a pattern, whose digits may
be those of any script, the reader of decimals, and the reader of tokens. What
all of them take is described by the pattern over the ten digits alone, and on
that they agree: such a text is one token, a number, and executing it leaves the
value that the text stands for.

Each operator takes so many operands, and takes each of them for its number, for a
dictionary or a pattern, or for what it is (`Operator.takes`). What an operator does
depends on what it takes its operands for (`operate_of_takenAlike`), so a text and its
number do the same, except where an operand is moved, bound, shown or named as it was
given. It makes a difference in each of these places (`Operator.tellsApart`), and in no
place below (`operate_onTop`).
-/
import VectorPage.Proofs.Effects
import VectorPage.Proofs.Printing
import VectorPage.Proofs.TextPatterns

set_option autoImplicit false

namespace VectorPage

/-! ## Plain decimals -/

/-- **A plain decimal** in the digits of a class, `-?d+.?d*`. -/
def TextPattern.plainDecimal (digits : List Char) : TextPattern :=
  optional (word ['-']) * (run digits * (optional point * many digits))

/-- **A wider class of digits**: it has the ten digits, and no other character of
ASCII. -/
def IsDigitClass (digits : List Char) : Prop :=
  ∀ c : Char, c.toNat < 128 → (c ∈ digits ↔ c ∈ TextPattern.digits)

section Plain

open TextPattern

/-- A plain decimal by its parts. -/
theorem matches_plainDecimal {wide cs : List Char} :
    (plainDecimal wide).Matches cs ↔ ∃ minus whole dot fraction, (minus = [] ∨ minus = ['-'])
      ∧ (whole ≠ [] ∧ ∀ c ∈ whole, c ∈ wide) ∧ (dot = [] ∨ dot = ['.'])
      ∧ (∀ c ∈ fraction, c ∈ wide) ∧ minus ++ (whole ++ (dot ++ fraction)) = cs := by
  simp only [plainDecimal, matches_mul, matches_optional, matches_word, matches_run, matches_many,
    point]
  constructor
  · rintro ⟨minus, _, isMinus, ⟨whole, _, isWhole, ⟨dot, fraction, isDot, isFraction, rfl⟩, rfl⟩,
      rfl⟩
    exact ⟨minus, whole, dot, fraction, isMinus, isWhole, isDot, isFraction, rfl⟩
  · rintro ⟨minus, whole, dot, fraction, isMinus, isWhole, isDot, isFraction, rfl⟩
    exact ⟨minus, _, isMinus, ⟨whole, _, isWhole, ⟨dot, fraction, isDot, isFraction, rfl⟩, rfl⟩,
      rfl⟩

/-- Behind a sign: digits, and at most one point among them. -/
theorem isPlainDecimal_cons_minus {cs : List Char} :
    isPlainDecimal ('-' :: cs) = true ↔ ∃ whole dot fraction,
      (whole ≠ [] ∧ ∀ c ∈ whole, isDigit c = true) ∧ (dot = [] ∨ dot = ['.'])
      ∧ (∀ c ∈ fraction, isDigit c = true) ∧ whole ++ (dot ++ fraction) = cs := by
  constructor
  · intro plain
    simp only [isPlainDecimal, Bool.and_eq_true, Bool.not_eq_true', List.isEmpty_eq_false_iff]
      at plain
    obtain ⟨present, plain⟩ := plain
    have parts := takeRun_append isDigit cs
    split at plain
    · rename_i noPoint
      rw [noPoint] at parts
      exact ⟨_, [], [], ⟨present, fun _ => mem_takeRun⟩, .inl rfl, by simp, parts⟩
    · rename_i fraction dotted
      rw [dotted] at parts
      exact ⟨_, ['.'], fraction, ⟨present, fun _ => mem_takeRun⟩, .inr rfl,
        List.all_eq_true.mp plain, parts⟩
    · cases plain
  · rintro ⟨whole, dot, fraction, ⟨present, isWhole⟩, rfl | rfl, isFraction, rfl⟩
    · -- without a point, all digits are in the first run
      have digits : ∀ c ∈ whole ++ fraction, isDigit c = true :=
        List.forall_mem_append.mpr ⟨isWhole, isFraction⟩
      have run := @takeRun_eq isDigit _ [] digits (by simp)
      rw [List.append_nil] at run
      simp [isPlainDecimal, run, present]
    · have run := @takeRun_eq isDigit _ ('.' :: fraction) isWhole (by simp [isDigit])
      simp only [isPlainDecimal, List.singleton_append, run]
      simpa [present] using isFraction

/-- A missing sign makes no difference to what is asked of the rest. -/
theorem isPlainDecimal_of_head {cs : List Char} (unsigned : cs.head? ≠ some '-') :
    isPlainDecimal cs = isPlainDecimal ('-' :: cs) := by
  unfold isPlainDecimal
  split
  · exact absurd rfl unsigned
  · rfl

/-- **What an operand may look like** is the pattern over the ten digits. -/
theorem isPlainDecimal_iff {cs : List Char} :
    isPlainDecimal cs = true ↔ (plainDecimal digits).Matches cs := by
  rw [matches_plainDecimal]
  simp only [mem_digits]
  constructor
  · intro plain
    by_cases signed : cs.head? = some '-'
    · obtain ⟨rest, rfl⟩ := List.head?_eq_some_iff.mp signed
      obtain ⟨whole, dot, fraction, isWhole, isDot, isFraction, rfl⟩ :=
        isPlainDecimal_cons_minus.mp plain
      exact ⟨['-'], whole, dot, fraction, .inr rfl, isWhole, isDot, isFraction, rfl⟩
    · rw [isPlainDecimal_of_head signed] at plain
      obtain ⟨whole, dot, fraction, isWhole, isDot, isFraction, rfl⟩ :=
        isPlainDecimal_cons_minus.mp plain
      exact ⟨[], whole, dot, fraction, .inl rfl, isWhole, isDot, isFraction, rfl⟩
  · rintro ⟨minus, whole, dot, fraction, rfl | rfl, isWhole, isDot, isFraction, rfl⟩
    · have plain := isPlainDecimal_cons_minus.mpr
        ⟨whole, dot, fraction, isWhole, isDot, isFraction, rfl⟩
      rw [List.nil_append, isPlainDecimal_of_head ?_, plain]
      -- a digit comes first
      obtain ⟨d, whole, rfl⟩ := List.exists_cons_of_ne_nil isWhole.1
      intro signed
      obtain rfl : d = '-' := by simpa using signed
      exact absurd (isWhole.2 '-' List.mem_cons_self) (by decide)
    · exact isPlainDecimal_cons_minus.mpr ⟨whole, dot, fraction, isWhole, isDot, isFraction, rfl⟩

/-- A plain decimal is a numeral. -/
theorem isNumeral_of_plainDecimal {cs : List Char} (plain : (plainDecimal digits).Matches cs) :
    IsNumeral cs := by
  obtain ⟨minus, whole, dot, fraction, isMinus, ⟨present, isWhole⟩, isDot, isFraction, rfl⟩ :=
    matches_plainDecimal.mp plain
  simp only [mem_digits] at isWhole isFraction
  obtain ⟨mark, isMark, rfl⟩ : ∃ mark : Option Char, (∀ c ∈ mark, isSign c = true)
      ∧ mark.toList = minus := by
    rcases isMinus with rfl | rfl
    · exact ⟨none, by simp, rfl⟩
    · exact ⟨some '-', by simp [isSign], rfl⟩
  rcases isDot with rfl | rfl
  · refine ⟨⟨mark, whole ++ fraction, none, none⟩, ⟨isMark, ?_, by simp, ?_, by simp⟩, ?_⟩
    · exact List.forall_mem_append.mpr ⟨isWhole, isFraction⟩
    · exact .inl (List.append_ne_nil_of_left_ne_nil present fraction)
    · simp [Numeral.text_eq, Numeral.pointText, Numeral.powerText]
  · refine ⟨⟨mark, whole, some fraction, none⟩, ⟨isMark, isWhole, ?_, .inl present, by simp⟩, ?_⟩
    · rintro _ ⟨⟩
      exact isFraction
    · simp [Numeral.text_eq, Numeral.pointText, Numeral.powerText]

/-- **Digits of other scripts make no difference**: a numeral has none. -/
theorem matches_plainDecimal_of_isNumeral {wide cs : List Char} (isClass : IsDigitClass wide)
    (isNumeral : IsNumeral cs) :
    (plainDecimal wide).Matches cs ↔ (plainDecimal digits).Matches cs := by
  have ascii : ∀ c ∈ cs, (c ∈ wide ↔ c ∈ digits) := by
    obtain ⟨n, formed, rfl⟩ := isNumeral
    exact fun c mem => isClass c (toNat_lt_of_isNumeralChar (formed.isNumeralChar c mem))
  rw [matches_plainDecimal, matches_plainDecimal]
  constructor
  · rintro ⟨minus, whole, dot, fraction, isMinus, ⟨present, isWhole⟩, isDot, isFraction, rfl⟩
    refine ⟨minus, whole, dot, fraction, isMinus, ⟨present, ?_⟩, isDot, ?_, rfl⟩
    · exact fun c mem => (ascii c (by simp [mem])).mp (isWhole c mem)
    · exact fun c mem => (ascii c (by simp [mem])).mp (isFraction c mem)
  · rintro ⟨minus, whole, dot, fraction, isMinus, ⟨present, isWhole⟩, isDot, isFraction, rfl⟩
    refine ⟨minus, whole, dot, fraction, isMinus, ⟨present, ?_⟩, isDot, ?_, rfl⟩
    · exact fun c mem => (ascii c (by simp [mem])).mpr (isWhole c mem)
    · exact fun c mem => (ascii c (by simp [mem])).mpr (isFraction c mem)

/-- A text that stands for a number is a numeral with that value. -/
theorem textNumber?_eq_some_iff {s : String} {x : Float} :
    textNumber? s = some x
      ↔ (plainDecimal digits).Matches s.toList ∧ Numeral.read? s.toList = some x := by
  rw [textNumber?, ← isPlainDecimal_iff]
  split
  · rename_i plain
    simp [plain]
  · rename_i other
    simp [other]

end Plain

/-! ## What operators take -/

/-- **How an operator takes an operand**: for its number; for a dictionary or a
pattern, which neither a number nor a text is; or for what it is. -/
inductive Taking where
  | number
  | resource
  | given
  deriving DecidableEq

/-- **The operands that an operator takes**, from the top of the stack on. What it
takes for what it is, it moves, binds, shows or names; the caps and joins of lines and
the pattern of dashes are among these, where a number is one way to name a style and a
text is another or none. -/
def Operator.takes : Operator → List Taking
  | negate | rotate | setLineWidth | setGray | newDict => [.number]
  | add | subtract | multiply | divide | translate | scale | moveTo | moveBy | lineTo | lineBy =>
    [.number, .number]
  | setRgbColor => [.number, .number, .number]
  | setCmykColor => [.number, .number, .number, .number]
  | arc => [.number, .number, .number, .number, .number]
  | curveTo | curveBy => [.number, .number, .number, .number, .number, .number]
  | beginDict | setPattern | shadingFill | makePattern => [.resource]
  | setDash | scaleFont => [.number, .given]
  | setLineCap | setLineJoin | findFont | setFont | showText | duplicate => [.given]
  | exchange | define => [.given, .given]
  | _ => []

/-- What has a number is a number, a text or a name. -/
theorem Value.cases_of_number? {v : Value} (numeric : v.number?.isSome) :
    (∃ x, v = .number x) ∨ (∃ s, v = .text s) ∨ ∃ s, v = .name s := by
  cases v with
  | number x => exact .inl ⟨x, rfl⟩
  | text s => exact .inr (.inl ⟨s, rfl⟩)
  | name s => exact .inr (.inr ⟨s, rfl⟩)
  | _ => cases numeric

/-- **Operands that are taken alike**, if there are any. -/
def Taking.Alike : Taking → Option Value → Option Value → Prop
  | number, v, w => v.bind Value.number? = w.bind Value.number?
  | resource, v, w =>
    v = w ∨ ∃ x y, v = some x ∧ w = some y ∧ x.number?.isSome ∧ y.number?.isSome
  | given, v, w => v = w

theorem Taking.Alike.refl (taking : Taking) (v : Option Value) : taking.Alike v v := by
  cases taking with
  | number => rfl
  | resource => exact .inl rfl
  | given => rfl

/-- What has a number is taken as the number, unless it is taken for what it is. -/
theorem Taking.Alike.of_number? {taking : Taking} (formless : taking ≠ given) {v : Value}
    {x : Float} (found : v.number? = some x) : taking.Alike (some v) (some (.number x)) := by
  cases taking with
  | number => exact found
  | resource => exact .inr ⟨v, .number x, rfl, rfl, Option.isSome_of_eq_some found, rfl⟩
  | given => exact absurd rfl formless

/-- **Stacks that are taken alike**: the operands taken are alike one by one, and the
stacks are the same below. -/
def TakenAlike : List Taking → List Value → List Value → Prop
  | [], xs, ys => xs = ys
  | taking :: rest, xs, ys => taking.Alike xs.head? ys.head? ∧ TakenAlike rest xs.tail ys.tail

theorem TakenAlike.refl (takes : List Taking) (xs : List Value) : TakenAlike takes xs xs := by
  induction takes generalizing xs with
  | nil => rfl
  | cons taking rest ih => exact ⟨.refl taking xs.head?, ih xs.tail⟩

/-- One of the operands given in another way. -/
theorem TakenAlike.of_alike {taking : Taking} {v w : Value}
    (alike : taking.Alike (some v) (some w)) {takes : List Taking} {above : List Value}
    (taken : takes[above.length]? = some taking) (below : List Value) :
    TakenAlike takes (above ++ v :: below) (above ++ w :: below) := by
  induction above generalizing takes with
  | nil =>
    obtain ⟨rest, rfl⟩ := List.head?_eq_some_iff.mp (List.head?_eq_getElem? ▸ taken)
    exact ⟨alike, .refl rest below⟩
  | cons top above ih =>
    cases takes with
    | nil => cases taken
    | cons first rest => exact ⟨.refl first (some top), ih taken⟩

/-- Operands taken for what they are must be the same. -/
theorem TakenAlike.eq_of_given {takes : List Taking} {xs ys : List Value}
    (alike : TakenAlike takes xs ys) (form : ∀ taking ∈ takes, taking = .given) : xs = ys := by
  induction takes generalizing xs ys with
  | nil => exact alike
  | cons taking rest ih =>
    obtain ⟨head, tail⟩ := alike
    obtain rfl := form taking List.mem_cons_self
    have below := ih tail fun other mem => form other (List.mem_cons_of_mem _ mem)
    cases xs <;> cases ys <;> simp_all [Taking.Alike]

/-- Only a dictionary or a pattern makes a difference to what drops numbers, texts and
names alike. -/
theorem TakenAlike.congr_of_resource {α : Type} {xs ys : List Value}
    (alike : TakenAlike [.resource] xs ys) (result : List Value → α)
    (dropped : ∀ v rest, v.number?.isSome → result (v :: rest) = result (.number 0 :: rest)) :
    result xs = result ys := by
  obtain ⟨same | ⟨x, y, head, head', numeric, numeric'⟩, tail⟩ := alike
  · refine congrArg result ?_
    cases xs <;> cases ys <;> simp_all [TakenAlike]
  · obtain ⟨rest, rfl⟩ := List.head?_eq_some_iff.mp head
    obtain ⟨rest', rfl⟩ := List.head?_eq_some_iff.mp head'
    obtain rfl : rest = rest' := tail
    rw [dropped x rest numeric, dropped y rest numeric']

namespace Machine

/-- **What an operator does depends on what it takes its operands for.** -/
theorem operate_of_takenAlike (m : Machine) (s : TokenStream) {op : Operator}
    (other : op ≠ .makePattern) {xs ys : List Value} (alike : TakenAlike op.takes xs ys) :
    { m with operands := xs }.operate s op = { m with operands := ys }.operate s op := by
  cases op with
  -- numbers and dashes: the stack enters only through what is said to be alike
  | negate | newDict =>
    simp only [Operator.takes, TakenAlike, Taking.Alike] at alike
    simp only [operate, negate, newDict, pop_eq, alike]
  | add | subtract | multiply | divide =>
    simp only [Operator.takes, TakenAlike, Taking.Alike] at alike
    simp only [operate, combine, popNumber_eq, alike]
  | translate | scale | rotate | setLineWidth | setGray | setRgbColor | setCmykColor =>
    simp only [Operator.takes, TakenAlike, Taking.Alike] at alike
    simp only [operate, translate, scale, rotate, setLineWidth, setGray, setRgbColor, setCmykColor,
      popNumber_eq, alike]
  | setDash | scaleFont =>
    simp only [Operator.takes, TakenAlike, Taking.Alike] at alike
    simp only [operate, setDash, scaleFont, popNumber_eq, pop_eq, alike]
  | moveTo | moveBy | lineBy | curveTo | curveBy | arc =>
    simp only [Operator.takes, TakenAlike, Taking.Alike] at alike
    simp only [operate, moveTo, moveBy, lineBy, curveTo, curveBy, arc, popNumber_eq, popPoint_eq,
      alike]
  | lineTo =>
    simp only [Operator.takes, TakenAlike, Taking.Alike] at alike
    simp only [operate, lineTo, popPoint_eq, alike]
  -- what is no dictionary and no pattern is dropped, whichever of the three it is
  | beginDict | setPattern | shadingFill =>
    refine alike.congr_of_resource (fun xs => operate { m with operands := xs } s _) ?_
    intro v rest numeric
    rcases Value.cases_of_number? numeric with ⟨_, rfl⟩ | ⟨_, rfl⟩ | ⟨_, rfl⟩ <;> rfl
  | makePattern => exact absurd rfl other
  | _ =>
    -- all operands are taken for what they are, or there are none
    obtain rfl : xs = ys := alike.eq_of_given (by simp [Operator.takes])
    rfl

/-- A pattern is made of a dictionary only. -/
theorem makePattern_of_takenAlike (m : Machine) {xs ys : List Value}
    (alike : TakenAlike [.resource] xs ys) (limits : Limits) (level : Nat)
    (paint : List Token → Option Machine) :
    { m with operands := xs }.makePattern limits level paint
      = { m with operands := ys }.makePattern limits level paint := by
  refine alike.congr_of_resource
    (fun xs => { m with operands := xs }.makePattern limits level paint) ?_
  intro v rest numeric
  rcases Value.cases_of_number? numeric with ⟨_, rfl⟩ | ⟨_, rfl⟩ | ⟨_, rfl⟩ <;> rfl

/-- Executing a name that is not bound is the operator of the name. -/
theorem step_operator_eq {m : Machine} {name : String} {op : Operator}
    (unbound : m.lookup name = none) (named : Operator.ofName? name = some op) (limits : Limits)
    (level : Nat) (paint : List Token → Option Machine) (s : TokenStream) :
    m.step limits level paint (.operator name) s
      = if op = .makePattern then (m.makePattern limits level paint).map fun m => (s, m)
        else some (s, m.operate s op) := by
  simp only [step, executeName, unbound, named]
  cases op <;> rfl

/-- Executing its name depends on no more than that, if the name is not bound. -/
theorem step_of_takenAlike {m : Machine} {name : String} {op : Operator} {xs ys : List Value}
    (unbound : m.lookup name = none) (named : Operator.ofName? name = some op)
    (alike : TakenAlike op.takes xs ys) (limits : Limits) (level : Nat)
    (paint : List Token → Option Machine) (s : TokenStream) :
    { m with operands := xs }.step limits level paint (.operator name) s
      = { m with operands := ys }.step limits level paint (.operator name) s := by
  -- binding does not depend on operands
  have unboundIn : ∀ operands, { m with operands := operands }.lookup name = none :=
    fun _ => unbound
  rw [step_operator_eq (unboundIn xs) named, step_operator_eq (unboundIn ys) named]
  by_cases makes : op = .makePattern
  · subst makes
    rw [if_pos rfl, if_pos rfl, makePattern_of_takenAlike m alike]
  · rw [if_neg makes, if_neg makes, operate_of_takenAlike m s makes alike]

/-! ## What operators leave -/

/-- The machine with more operands below those that it has. -/
def onTop (m : Machine) (below : List Value) : Machine :=
  { m with operands := m.operands ++ below }

/-- Clips are defined anew under the same ids, whatever the operands are. -/
theorem renewClips_onTop (m : Machine) (below : List Value) (layers : List ClipLayer) :
    (m.onTop below).renewClips layers
      = ((m.renewClips layers).1, (m.renewClips layers).2.onTop below) := by
  unfold renewClips
  generalize ([] : List ClipLayer) = done
  induction layers generalizing done m with
  | nil => rfl
  | cons layer rest ih =>
    rw [List.foldl_cons, List.foldl_cons]
    exact ih ((m.freshId "clip").2.define (.clipPath (m.freshId "clip").1 layer.data)) _

/-- So restoring a state leaves the operands alone. -/
theorem restoreGraphics_onTop (m : Machine) (below : List Value) :
    (m.onTop below).restoreGraphics = m.restoreGraphics.onTop below := by
  rcases saved : m.saved with _ | ⟨g, rest⟩
  · have saved' : (m.onTop below).saved = [] := saved
    simp only [restoreGraphics, saved, saved']
  · have saved' : (m.onTop below).saved = g :: rest := saved
    simp only [restoreGraphics, saved, saved', renewClips_onTop]
    rfl

/-- A line takes the two operands of its point, and none when it is painted at once. -/
theorem lineTo_onTop (m : Machine) (s : TokenStream) (below : List Value)
    (enough : 2 ≤ m.operands.length) : (m.onTop below).lineTo s = (m.lineTo s).onTop below := by
  have drawn : (m.onTop below).drawLine = m.drawLine.onTop below := by
    rcases top : m.operands with _ | ⟨u, _ | ⟨v, rest⟩⟩ <;> simp [top] at enough
    simp only [drawLine, onTop, popPoint_eq, top, List.cons_append, List.head?_cons, List.tail_cons]
  rw [lineTo_eq, lineTo_eq, drawn, paintPath_eq, paintPath_eq]
  change (if m.drawLine.path.isSingleLine && endsLine s then _ else _) = _
  split <;> rfl

/-- **An operator does not look below the operands that it takes.** -/
theorem operate_onTop (m : Machine) (s : TokenStream) {op : Operator} (below : List Value)
    (enough : op.takes.length ≤ m.operands.length) :
    (m.onTop below).operate s op = (m.operate s op).onTop below := by
  cases op with
  | restoreGraphics => exact restoreGraphics_onTop m below
  | lineTo => exact lineTo_onTop m s below enough
  | clip =>
    simp only [operate, clip_eq]
    change (if m.path.isEmpty then _ else _) = _
    split <;> rfl
  -- with enough operands the stack is a list whose first elements are known
  | negate | rotate | setLineWidth | setGray | newDict | beginDict | setPattern | shadingFill
  | setLineCap | setLineJoin | findFont | setFont | showText | duplicate =>
    rcases top : m.operands with _ | ⟨v, rest⟩ <;> simp [Operator.takes, top] at enough
    simp only [operate, negate, rotate, setLineWidth, setGray, newDict, beginDict_eq,
      setPattern_eq, shadingFill_eq, shading?, setLineCap_eq, setLineJoin_eq, findFont, setFont_eq,
      showText_eq, duplicate_eq, pop_eq, popNumber_eq, popDisplay_eq, onTop, top, List.cons_append,
      List.head?_cons, List.tail_cons] <;> rfl
  | add | subtract | multiply | divide | translate | scale | moveTo | moveBy | lineBy
  | setDash | scaleFont | exchange | define =>
    rcases top : m.operands with _ | ⟨u, _ | ⟨v, rest⟩⟩ <;> simp [Operator.takes, top] at enough
    simp only [operate, combine, translate, scale, moveTo, moveBy, lineBy, setDash, scaleFont,
      exchange_eq, bindName_eq, pop_eq, popNumber_eq, popPoint_eq, onTop, top, List.cons_append,
      List.head?_cons, List.tail_cons] <;> rfl
  | setRgbColor =>
    rcases top : m.operands with _ | ⟨b, _ | ⟨g, _ | ⟨r, rest⟩⟩⟩ <;>
      simp [Operator.takes, top] at enough
    simp only [operate, setRgbColor, popNumber_eq, onTop, top, List.cons_append, List.head?_cons,
      List.tail_cons]
    rfl
  | setCmykColor =>
    rcases top : m.operands with _ | ⟨k, _ | ⟨y, _ | ⟨g, _ | ⟨c, rest⟩⟩⟩⟩ <;>
      simp [Operator.takes, top] at enough
    simp only [operate, setCmykColor, popNumber_eq, onTop, top, List.cons_append, List.head?_cons,
      List.tail_cons]
    rfl
  | arc =>
    rcases top : m.operands with _ | ⟨last, _ | ⟨first, _ | ⟨r, _ | ⟨y, _ | ⟨x, rest⟩⟩⟩⟩⟩ <;>
      simp [Operator.takes, top] at enough
    simp only [operate, arc, popNumber_eq, popPoint_eq, onTop, top, List.cons_append,
      List.head?_cons, List.tail_cons]
    rfl
  | curveTo | curveBy =>
    rcases top : m.operands with
      _ | ⟨y₃, _ | ⟨x₃, _ | ⟨y₂, _ | ⟨x₂, _ | ⟨y₁, _ | ⟨x₁, rest⟩⟩⟩⟩⟩⟩ <;>
      simp [Operator.takes, top] at enough
    simp only [operate, curveTo, curveBy, popPoint_eq, onTop, top, List.cons_append,
      List.head?_cons, List.tail_cons]
    rfl
  | _ => simp only [operate, closePath_eq, paintPath_eq] <;> rfl

/-- Nor does the making of a pattern. -/
theorem makePattern_onTop (m : Machine) (below : List Value) (enough : 1 ≤ m.operands.length)
    (limits : Limits) (level : Nat) (paint : List Token → Option Machine) :
    (m.onTop below).makePattern limits level paint
      = (m.makePattern limits level paint).map (·.onTop below) := by
  rcases top : m.operands with _ | ⟨v, rest⟩ <;> simp [top] at enough
  have head : (m.onTop below).operands.head? = m.operands.head? := by simp [onTop, top]
  have heap : (m.onTop below).heap = m.heap := rfl
  -- the operand that is replaced is on top, so the rest is only carried along
  have made : ∀ ref tile hits,
      (m.onTop below).withPattern ref tile hits = (m.withPattern ref tile hits).onTop below := by
    intro ref tile hits
    simp only [withPattern, onTop, top, List.cons_append, List.tail_cons]
    rfl
  rw [makePattern_eq, makePattern_eq, head, heap, top, List.head?_cons]
  cases v with
  | dict ref =>
    simp only [made]
    split
    · split
      · rfl
      · rw [Option.map_map]
        rfl
    · rfl
  | _ => simp only [onTop, top, List.cons_append, List.tail_cons, Option.map_some]

/-- Nor does executing a name that is not bound. -/
theorem step_onTop {m : Machine} {name : String} {op : Operator}
    (unbound : m.lookup name = none) (named : Operator.ofName? name = some op)
    (enough : op.takes.length ≤ m.operands.length) (below : List Value) (limits : Limits)
    (level : Nat) (paint : List Token → Option Machine) (s : TokenStream) :
    (m.onTop below).step limits level paint (.operator name) s
      = (m.step limits level paint (.operator name) s).map fun c => (c.1, c.2.onTop below) := by
  rw [step_operator_eq unbound named, step_operator_eq (m := m.onTop below) unbound named]
  by_cases makes : op = .makePattern
  · subst makes
    rw [if_pos rfl, if_pos rfl, makePattern_onTop m below enough, Option.map_map, Option.map_map]
    rfl
  · rw [if_neg makes, if_neg makes, operate_onTop m s below enough]
    rfl

end Machine

/-! ## What operators tell apart -/

/-- **An operator tells a text from its number** when it takes the operand that stands
so deep. -/
def Operator.TellsApart (op : Operator) (depth : Nat) : Prop :=
  ∃ (m : Machine) (stream : TokenStream) (above below : List Value) (s : String) (x : Float),
    above.length = depth ∧ textNumber? s = some x
    ∧ { m with operands := above ++ Value.text s :: below }.operate stream op
      ≠ { m with operands := above ++ Value.number x :: below }.operate stream op

/-- One part of the machine that differs is enough. The text is one whose number would
be written otherwise, so that what is shown or bound differs as well. -/
theorem Operator.TellsApart.of_probe {α : Type} [DecidableEq α] (probe : Machine → α)
    {op : Operator} (m : Machine) (above below : List Value)
    (differ : probe ({ m with operands := above ++ Value.text "05" :: below }.operate (.ofTokens [])
        op)
      ≠ probe ({ m with operands := above ++ Value.number 5 :: below }.operate (.ofTokens []) op)) :
    op.TellsApart above.length :=
  ⟨m, .ofTokens [], above, below, "05", 5, rfl, by decide +kernel,
    fun same => differ (congrArg probe same)⟩

/-- **What is taken for what it is makes a difference.** -/
theorem Operator.tellsApart {op : Operator} {depth : Nat}
    (taken : op.takes[depth]? = some .given) : op.TellsApart depth := by
  rcases depth with _ | _ | depth
  · cases op with
    | setLineCap => exact .of_probe (·.graphics.lineCap) .initial [] [] (by decide +kernel)
    | setLineJoin => exact .of_probe (·.graphics.lineJoin) .initial [] [] (by decide +kernel)
    | setFont => exact .of_probe (·.graphics.font) .initial [] [] (by decide +kernel)
    -- what was bound to the new font shows when the font is set
    | findFont => exact .of_probe (·.setFont.graphics.font) .initial [] [] (by decide +kernel)
    -- nothing is shown without a place for it
    | showText =>
      exact .of_probe (·.picture.fragments.texts)
        { graphics := { textPosition := some (0, 0) } } [] [] (by decide +kernel)
    | duplicate => exact .of_probe (·.operands.map Value.display) .initial [] [] (by decide +kernel)
    | exchange =>
      exact .of_probe (·.operands.map Value.display) .initial [] [.number 0] (by decide +kernel)
    | define =>
      exact .of_probe (fun m => (m.lookup "x").map Value.display) .initial [] [.name "x"]
        (by decide +kernel)
    | _ => cases taken
  · cases op with
    | setDash => exact .of_probe (·.graphics.dash) .initial [.number 0] [] (by decide +kernel)
    | scaleFont =>
      exact .of_probe (·.setFont.graphics.font) .initial [.number 0] [] (by decide +kernel)
    | exchange =>
      exact .of_probe (·.operands.map Value.display) .initial [.number 0] [] (by decide +kernel)
    | define =>
      exact .of_probe (fun m => (m.lookup "05").map Value.display) .initial [.number 0] []
        (by decide +kernel)
    | _ => cases taken
  · -- from the third operand on, only numbers are taken
    have deep : Taking.given ∈ op.takes.drop 2 := by
      refine List.mem_of_getElem? (i := depth) ?_
      rw [List.getElem?_drop, Nat.add_comm]
      exact taken
    exact absurd deep (by cases op <;> decide)

/-! ## Texts as operands -/

/-- A numeral alone is one token. -/
theorem lex_of_isNumeral {s : String} (isNumeral : IsNumeral s.toList) : lex s = [.number s] := by
  have lexeme : Lexeme (.number (.ofList s.toList)) s.toList [] := .number (.at_end isNumeral)
  have read := lexOnto_lexeme [] lexeme
  rw [List.append_nil, String.ofList_toList] at read
  rw [lex, read, lexOnto, List.reverse_singleton]

open TextPattern in
/-- **A decimal given as a text or a name acts as the number.** Such an operand is a
number exactly if it is written as a plain decimal in the ten digits; a pattern that
admits the digits of other scripts admits no more, since the reader of decimals does
not take them. The text alone is then one token, executing this token leaves the same
number, and an operator does the same with either wherever it takes an operand, unless
it takes the operand for what it is. The list of what operators take is exact: what
stands below stays as it is, and what is taken for what it is makes a difference. -/
theorem decimal_texts_act_as_numbers (s : String) (operand : Value)
    (given : operand = .text s ∨ operand = .name s) :
    (operand.number?.isSome ↔ (plainDecimal digits).Matches s.toList)
    ∧ (∀ wide, IsDigitClass wide → ∀ v, operand.number? = some v
      ↔ (plainDecimal wide).Matches s.toList ∧ Numeral.read? s.toList = some v)
    ∧ (∀ v, operand.number? = some v →
      lex s = [.number s]
      ∧ (∀ (m : Machine) (limits : Limits) (level : Nat) (paint : List Token → Option Machine)
          (stream : TokenStream),
        m.step limits level paint (.number s) stream = some (stream, m.push (.number v)))
      ∧ ∀ (m : Machine) (name : String) (op : Operator) (taking : Taking) (above below : List Value),
        m.lookup name = none → Operator.ofName? name = some op →
        op.takes[above.length]? = some taking → taking ≠ .given →
        ∀ (limits : Limits) (level : Nat) (paint : List Token → Option Machine)
          (stream : TokenStream),
        { m with operands := above ++ operand :: below }.step limits level paint (.operator name)
            stream
          = { m with operands := above ++ Value.number v :: below }.step limits level paint
            (.operator name) stream)
    ∧ (∀ (m : Machine) (name : String) (op : Operator) (below : List Value),
        m.lookup name = none → Operator.ofName? name = some op →
        op.takes.length ≤ m.operands.length →
        ∀ (limits : Limits) (level : Nat) (paint : List Token → Option Machine)
          (stream : TokenStream),
        (m.onTop below).step limits level paint (.operator name) stream
          = (m.step limits level paint (.operator name) stream).map
            fun c => (c.1, c.2.onTop below))
    ∧ ∀ (op : Operator) (depth : Nat), op.takes[depth]? = some .given → op.TellsApart depth := by
  have reads : operand.number? = textNumber? s := by rcases given with rfl | rfl <;> rfl
  rw [reads]
  refine ⟨?_, fun wide isClass v => ?_, fun v found => ?_,
    fun m name op below unbound named enough => Machine.step_onTop unbound named enough below,
    fun op depth => Operator.tellsApart⟩
  · rw [Option.isSome_iff_exists]
    constructor
    · rintro ⟨v, found⟩
      exact (textNumber?_eq_some_iff.mp found).1
    · intro plain
      -- plain decimals are among the numerals, and those have values
      have accepted := matches_decimal.mpr (isNumeral_of_plainDecimal plain)
      obtain ⟨v, value⟩ := Option.isSome_iff_exists.mp (Numeral.isSome_read?_iff.mpr accepted)
      exact ⟨v, textNumber?_eq_some_iff.mpr ⟨plain, value⟩⟩
  · rw [textNumber?_eq_some_iff]
    refine and_congr_left fun value => ?_
    have accepted := Numeral.isSome_read?_iff.mp (Option.isSome_of_eq_some value)
    exact (matches_plainDecimal_of_isNumeral isClass (matches_decimal.mp accepted)).symm
  · obtain ⟨plain, value⟩ := textNumber?_eq_some_iff.mp found
    refine ⟨lex_of_isNumeral (isNumeral_of_plainDecimal plain), ?_, ?_⟩
    · intro m limits level paint stream
      rw [Machine.step, numeralValue, value, Option.getD_some]
    · intro m name op taking above below unbound named taken formless
      have alike := Taking.Alike.of_number? formless (reads.trans found)
      exact Machine.step_of_takenAlike unbound named (.of_alike alike taken below)

/-- The ten digits and one of another script. -/
def digitsAndThree : List Char :=
  TextPattern.digits ++ ['٣']

/-- It is a wider class: the character added is beyond ASCII. -/
theorem isDigitClass_digitsAndThree : IsDigitClass digitsAndThree := by
  intro c ascii
  rw [digitsAndThree, List.mem_append, or_iff_left]
  intro other
  rw [List.mem_singleton.mp other] at ascii
  exact absurd ascii (by decide)

/-- The horizontal coordinate of a line, given as a name. -/
theorem decimal_texts_act_as_numbers_line :
    ∃ v, (Value.name "-12.").number? = some v
      ∧ (TextPattern.plainDecimal digitsAndThree).Matches "-12.".toList
      ∧ lex "-12." = [.number "-12."]
      ∧ ∀ limits level paint stream,
        Machine.step { operands := [.number 1, .name "-12."] } limits level paint
            (.operator "lineto") stream
          = Machine.step { operands := [.number 1, .number v] } limits level paint
            (.operator "lineto") stream := by
  obtain ⟨isNumber, admits, acts, -⟩ :=
    decimal_texts_act_as_numbers "-12." (.name "-12.") (.inr rfl)
  have plain : (TextPattern.plainDecimal TextPattern.digits).Matches "-12.".toList :=
    isPlainDecimal_iff.mp (by decide)
  obtain ⟨v, found⟩ := Option.isSome_iff_exists.mp (isNumber.mpr plain)
  obtain ⟨single, -, same⟩ := acts v found
  have unbound : Machine.initial.lookup "lineto" = none := by decide
  have named : Operator.ofName? "lineto" = some .lineTo := by decide
  exact ⟨v, found, ((admits _ isDigitClass_digitsAndThree v).mp found).1, single,
    same _ _ _ .number [.number 1] [] unbound named rfl (by decide)⟩

/-- **Dashes and caps tell a text from its number.** Dashes of the length five given as
a number are set, and given as a text they are none; the cap of the code one is round,
and a text is its own name. -/
theorem dashes_and_caps_tell_texts_from_numbers :
    (Value.text "5").number? = some 5 ∧ (Value.text "1").number? = some 1
    ∧ [Token.string "5", .number "5"].map (fun pattern =>
        (Machine.initial.run {} 20 [pattern, .number "0", .operator "setdash", .operator "moveto",
            .number "9", .number "9", .operator "lineto", .operator "stroke"]).map
          (·.picture.fragments.shapes))
      = [some ["<path d=\"M 0 0 L 9 9\" fill=\"none\" stroke=\"black\" />"],
        some ["<path d=\"M 0 0 L 9 9\" fill=\"none\" stroke=\"black\" stroke-dasharray=\"5\" />"]]
    ∧ [Token.string "1", .number "1"].map (fun code =>
        (Machine.initial.run {} 20 [code, .operator "setlinecap", .operator "moveto",
            .number "9", .number "9", .operator "lineto", .operator "stroke"]).map
          (·.picture.fragments.shapes))
      = [some ["<path d=\"M 0 0 L 9 9\" fill=\"none\" stroke=\"black\" stroke-linecap=\"1\" />"],
        some ["<path d=\"M 0 0 L 9 9\" fill=\"none\" stroke=\"black\" stroke-linecap=\"round\" />"]]
    := by
  decide +kernel

end VectorPage
