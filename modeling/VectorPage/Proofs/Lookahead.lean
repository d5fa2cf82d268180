/-
What a line sees ahead, and what comes.

A single line is painted at once if the operator that comes next neither
restyles it nor goes on from its end. What is asked is the first executable name
among the tokens ahead, as it is written: whatever the name is bound to, and
wherever it stands, inside braces and brackets too. So the answer is right if
that name is what the program executes next. It is wrong when the name is passed
over as something else, since what comes after it was not looked at.

The tokens in front of that name are operands and brackets, and none of them can
bring tokens of its own (`Step.unread_suffix`). Up to the name there is thus one
sequence, which only gets shorter, and the name either is still ahead or was
passed over at some step (`StepsAside.upcoming_or_passed`).
-/
import VectorPage.Proofs.Inlining
import VectorPage.Proofs.Moves

set_option autoImplicit false

namespace VectorPage

/-- **Whether an operator is one of the two groups for paths**: those under *building
a path* and those under *painting* in the list of operators. The second group is taken
whole: making a pattern and showing an image are in it, though neither paints the path
under construction. -/
def Operator.drawsPath : Operator → Bool
  | newPath | moveTo | moveBy | lineTo | lineBy | curveTo | curveBy | closePath | arc
  | stroke | fill | clip | shadingFill | makePattern | image => true
  | _ => false

/-- Whether a token opens a procedure body or a literal. -/
def Token.opens : Token → Bool
  | openBrace | openBracket | openDict => true
  | _ => false

namespace Scanner

variable {σ ρ : Type} (scanner : Scanner σ ρ)

/-- A scan that is done leaves the end of the tokens it was fed. -/
theorem suffix_of_feed_done {state : σ} {tokens rest : List Token} {result : ρ}
    (h : scanner.feed state tokens = .done (result, rest)) : rest <:+ tokens := by
  induction tokens generalizing state with
  | nil => cases h
  | cons token tokens ih =>
    simp only [feed] at h
    cases stepped : scanner.step state token with
    | more state =>
      rw [stepped] at h
      exact (ih h).trans (List.suffix_cons token tokens)
    | done value =>
      rw [stepped] at h
      obtain ⟨-, rfl⟩ := Prod.mk.inj (Scan.done.inj h)
      exact List.suffix_cons token tokens

/-- **A scan leaves an end of what was unread.** -/
theorem suffix_run (state : σ) (s : TokenStream) : (scanner.run state s).2.unread <:+ s.unread := by
  rw [(scanner.run_flat state s).2, scan]
  cases fed : scanner.feed state s.unread with
  | more state => exact List.nil_suffix
  | done result => exact scanner.suffix_of_feed_done fed

end Scanner

namespace Machine

variable {limits : Limits} {level : Nat} {c c' c₁ c₂ : TokenStream × Machine}

/-! ## Lines that are painted at once -/

/-- **A line is painted early**: it is drawn, and no path is left. -/
def PaintsEarly (limits : Limits) (level : Nat) (c c' : TokenStream × Machine) : Prop :=
  operatorAt? c = some .lineTo ∧ Step limits level c c' ∧ c'.2.path.isEmpty = true

/-- **A step at an operator** executes its name, which is not bound. -/
theorem Step.executes_name {op : Operator} (step : Step limits level c c')
    (stands : operatorAt? c = some op) :
    ∃ name rest fuel, c.1.next = (some (.operator name), rest) ∧ c.2.lookup name = none
      ∧ Operator.ofName? name = some op
      ∧ c.2.counted.executeName limits level (paintWith limits fuel level) name rest
        = some c' := by
  obtain ⟨token, rest, fuel, next, -, stepped⟩ := step
  simp only [operatorAt?, next, Option.bind_some] at stands
  cases token with
  | operator name =>
    simp only [Token.operator?, Option.bind_some] at stands
    cases bound : c.2.lookup name with
    | some value => simp [bound] at stands
    | none =>
      simp only [bound, Option.isSome_none, Bool.false_eq_true, if_false] at stands
      exact ⟨name, rest, fuel, next, bound, stands, stepped⟩
  | _ => cases stands

/-- **What an operator does**: it is taken off the stream, and given what follows. -/
theorem Step.eq_operate {op : Operator} (step : Step limits level c c')
    (stands : operatorAt? c = some op) (other : op ≠ .makePattern) :
    c' = (c.1.next.2, c.2.counted.operate c.1.next.2 op) := by
  obtain ⟨name, rest, fuel, next, unbound, named, executed⟩ := step.executes_name stands
  simp only [executeName, counted_lookup, unbound, named] at executed
  rw [next]
  cases op with
  | makePattern => exact absurd rfl other
  | _ =>
    cases executed
    rfl

/-- **What a line sees when it is painted early**: the executable name that comes
first, as it is written, neither restyles it nor goes on from its end. -/
theorem PaintsEarly.upcoming (h : PaintsEarly limits level c c') {name : String} {op : Operator}
    (upcoming : c'.1.upcomingOperator? = some name) (named : Operator.ofName? name = some op) :
    op.restyles = false ∧ op.extendsPath = false := by
  obtain ⟨stands, step, empty⟩ := h
  have line : c'.2 = c.2.counted.lineTo c'.1 := by
    rw [step.eq_operate stands nofun]
    rfl
  have ends : endsLine c'.1 = true := by
    rw [line, lineTo_eq] at empty
    split at empty
    · rename_i early
      exact (Bool.and_eq_true_iff.mp early).2
    · -- a line that is not painted is still there
      simp [drawLine, Path.lineTo, Path.push, Path.isEmpty] at empty
  simpa [endsLine, upcoming, named] using ends

/-! ## What is read on the way -/

/-- **A token that is no name brings no tokens.** What is unread after it is an end
of what was, and all of it unless the token opens a body or a literal. -/
theorem Step.unread_suffix (h : Step limits level c c') {token : Token} {rest : List Token}
    (ahead : c.1.unread = token :: rest) (operand : token.operator? = none) :
    c'.1.unread <:+ rest ∧ (token.opens = false → c'.1.unread = rest) := by
  obtain ⟨token', s, fuel, next, -, stepped⟩ := h
  have taken := c.1.next_of_unread
  rw [next, ahead] at taken
  obtain ⟨first, left⟩ := taken
  obtain rfl : token' = token := Option.some.inj first
  obtain rfl : s.unread = rest := left
  -- only the three openings read on; every other token is an operand by itself
  cases token' with
  | operator name => cases operand
  | openBrace =>
    cases stepped
    exact ⟨bodyScanner.suffix_run _ s, nofun⟩
  | openBracket =>
    cases stepped
    exact ⟨literalScanner.suffix_run _ s, nofun⟩
  | openDict =>
    cases stepped
    exact ⟨literalScanner.suffix_run _ s, nofun⟩
  | _ =>
    cases stepped
    exact ⟨List.suffix_rfl, fun _ => rfl⟩

/-- **Tokens are executed, none of which builds or paints a path.** -/
def StepsAside (limits : Limits) (level : Nat) :
    TokenStream × Machine → TokenStream × Machine → Prop :=
  Relation.ReflTransGen fun c c' =>
    Step limits level c c' ∧ ∀ op, operatorAt? c = some op → op.drawsPath = false

/-- **A name is passed over** as something else than an operator that builds or
paints a path. -/
inductive PassedOver (name : String) (c c' : TokenStream × Machine) : Prop where
  /-- It is executed: it is bound, or unknown, or the name of another operator. -/
  | executed (next : c.1.next.1 = some (.operator name))
      (other : ∀ op, operatorAt? c = some op → op.drawsPath = false)
  /-- It is collected into a procedure body or a literal. -/
  | collected (opener : Token) (taken : List Token) (opens : opener.opens = true)
      (read : c.1.unread = opener :: taken ++ c'.1.unread) (within : .operator name ∈ taken)

/-- A step takes the first of the tokens ahead. -/
theorem Step.exists_token (h : Step limits level c c') :
    ∃ token rest, c.1.unread = token :: rest ∧ c.1.next.1 = some token := by
  obtain ⟨token, s, fuel, next, -, -⟩ := h
  have taken := c.1.next_of_unread.1
  rw [next] at taken
  obtain ⟨rest, unread⟩ := List.head?_eq_some_iff.mp taken.symm
  exact ⟨token, rest, unread, by rw [next]⟩

/-- **One step leaves the name ahead or passes it over.** -/
theorem Step.upcoming_or_passed {name : String} (step : Step limits level c c')
    (other : ∀ op, operatorAt? c = some op → op.drawsPath = false)
    (ahead : c.1.upcomingOperator? = some name) :
    c'.1.upcomingOperator? = some name ∨ PassedOver name c c' := by
  rw [TokenStream.upcomingOperator?_eq] at ahead ⊢
  obtain ⟨token, rest, unread, next⟩ := step.exists_token
  rw [unread, List.findSome?_cons] at ahead
  cases named : token.operator? with
  | some first =>
    -- the name itself is executed
    rw [named] at ahead
    cases ahead
    cases token with
    | operator _ =>
      cases named
      exact .inr (.executed next other)
    | _ => cases named
  | none =>
    rw [named] at ahead
    obtain ⟨⟨taken, read⟩, whole⟩ := step.unread_suffix unread named
    dsimp only at ahead
    rw [← read, List.findSome?_append] at ahead
    cases found : taken.findSome? Token.operator? with
    | none =>
      rw [found, Option.none_or] at ahead
      exact .inl ahead
    | some first =>
      rw [found, Option.some_or] at ahead
      cases ahead
      obtain ⟨inside, within, is⟩ := List.exists_of_findSome?_eq_some found
      cases inside with
      | operator _ =>
        cases is
        refine .inr (.collected token taken ?_ (by rw [unread, ← read, List.cons_append]) within)
        -- a token that opens nothing takes nothing
        by_contra closed
        rw [whole (Bool.not_eq_true _ ▸ closed)] at read
        obtain rfl : taken = [] := by simpa using read
        cases within
      | _ => cases is

/-- Where no name comes, none comes later: only names can bring new tokens. -/
theorem Step.upcoming_none (step : Step limits level c c')
    (ahead : c.1.upcomingOperator? = none) : c'.1.upcomingOperator? = none := by
  rw [TokenStream.upcomingOperator?_eq] at ahead ⊢
  obtain ⟨token, rest, unread, -⟩ := step.exists_token
  rw [unread, List.findSome?_cons] at ahead
  cases named : token.operator? with
  | some first => simp [named] at ahead
  | none =>
    rw [named] at ahead
    obtain ⟨⟨taken, read⟩, -⟩ := step.unread_suffix unread named
    dsimp only at ahead
    rw [← read, List.findSome?_append, Option.or_eq_none_iff] at ahead
    exact ahead.2

/-- **The name is still ahead, or it was passed over on the way.** -/
theorem StepsAside.upcoming_or_passed {name : String} (steps : StepsAside limits level c₁ c₂)
    (ahead : c₁.1.upcomingOperator? = some name) :
    c₂.1.upcomingOperator? = some name
    ∨ ∃ d d', StepsAside limits level c₁ d ∧ Step limits level d d' ∧ PassedOver name d d'
        ∧ StepsAside limits level d' c₂ := by
  induction steps with
  | refl => exact .inl ahead
  | tail before last ih =>
    rcases ih with still | ⟨d, d', there, step, passed, since⟩
    · rcases last.1.upcoming_or_passed last.2 still with still | passed
      · exact .inl still
      · exact .inr ⟨_, _, before, last.1, passed, .refl⟩
    · exact .inr ⟨d, d', there, step, passed, since.tail last⟩

/-- Nor does one come any later in the run. -/
theorem Steps.upcoming_none (steps : Steps limits level c₁ c₂)
    (ahead : c₁.1.upcomingOperator? = none) : c₂.1.upcomingOperator? = none := by
  induction steps with
  | refl => exact ahead
  | tail _ last ih => exact last.upcoming_none ih

/-- An operator that is executed is the name that comes first. -/
theorem upcoming_of_operatorAt? {op : Operator} (h : operatorAt? c = some op) :
    ∃ name, c.1.upcomingOperator? = some name ∧ Operator.ofName? name = some op := by
  rw [operatorAt?, c.1.next_of_unread.1] at h
  rw [TokenStream.upcomingOperator?_eq]
  cases unread : c.1.unread with
  | nil => simp [unread] at h
  | cons token rest =>
    rw [unread, List.head?_cons, Option.bind_some] at h
    obtain ⟨name, named, h⟩ := Option.bind_eq_some_iff.mp h
    split at h
    · cases h
    · exact ⟨name, by simp [named], h⟩

/-- **Where no name comes, no operator is executed** for the rest of the run. -/
theorem Steps.operatorAt?_eq_none (steps : Steps limits level c₁ c₂)
    (ahead : c₁.1.upcomingOperator? = none) : operatorAt? c₂ = none := by
  rw [Option.eq_none_iff_forall_ne_some]
  intro op stands
  obtain ⟨name, comes, -⟩ := upcoming_of_operatorAt? stands
  rw [steps.upcoming_none ahead] at comes
  cases comes

theorem StepsAside.steps (h : StepsAside limits level c₁ c₂) : Steps limits level c₁ c₂ :=
  h.lift id fun _ _ step => step.1

/-- **A line that is painted early is not gone on from**, unless the program passes
over the name that it saw. Let a line be painted early, whatever the machine. The
first executable name ahead of it, as it is written, names no operator that restyles a
line or goes on from its end; and if no name is ahead, no operator is executed any more
in this run. Now let the program come to an operator before any other one has built or
painted a path. Then that operator does not extend the path, or the first name ahead of
the line is not the one that is executed now: on the way it was executed as something
else, or collected into a body or a literal. -/
theorem early_line_is_not_extended (early : PaintsEarly limits level c c₁) :
    (∀ name written, c₁.1.upcomingOperator? = some name → Operator.ofName? name = some written →
      written.restyles = false ∧ written.extendsPath = false)
    ∧ (c₁.1.upcomingOperator? = none → ∀ c₂, Steps limits level c₁ c₂ → operatorAt? c₂ = none)
    ∧ ∀ c₂ op, StepsAside limits level c₁ c₂ → operatorAt? c₂ = some op →
        op.extendsPath = false
        ∨ ∃ name d d', c₁.1.upcomingOperator? = some name
            ∧ StepsAside limits level c₁ d ∧ Step limits level d d' ∧ PassedOver name d d'
            ∧ StepsAside limits level d' c₂ := by
  refine ⟨fun name written saw named => early.upcoming saw named,
    fun nothing c₂ steps => steps.operatorAt?_eq_none nothing, ?_⟩
  intro c₂ op aside next
  obtain ⟨name, comes, named⟩ := upcoming_of_operatorAt? next
  cases saw : c₁.1.upcomingOperator? with
  | none =>
    rw [aside.steps.operatorAt?_eq_none saw] at next
    cases next
  | some first =>
    rcases aside.upcoming_or_passed saw with still | ⟨d, d', there, step, passed, since⟩
    · -- the name that was seen is the one that is executed
      rw [still] at comes
      cases comes
      exact .inl (early.upcoming saw named).2
    · exact .inr ⟨first, d, d', rfl, there, step, passed, since⟩

/-! Two programs that draw a line and go on. -/

/-- A line from the corner of the page, and what follows it. -/
def lineThen (rest : List Token) : List Token :=
  [.number "0", .number "0", .operator "moveto", .number "5", .number "5", .operator "lineto"]
    ++ rest

/-- A new figure begins behind an array; the line before it is painted early. -/
theorem early_line_is_not_extended_before_move :
    ∃ c c₁ c₂, Steps {} 0 (.ofTokens (lineThen [.openBracket, .number "1", .closeBracket,
        .number "2", .operator "moveto"]), initial) c
      ∧ PaintsEarly {} 0 c c₁ ∧ StepsAside {} 0 c₁ c₂ ∧ operatorAt? c₂ = some .moveTo
      ∧ c₁.1.upcomingOperator? = some "moveto"
      ∧ Operator.restyles .moveTo = false ∧ Operator.extendsPath .moveTo = false
      ∧ (c₁.1.upcomingOperator? = none → ∀ c₂, Steps {} 0 c₁ c₂ → operatorAt? c₂ = none)
      ∧ (Operator.extendsPath .moveTo = false
        ∨ ∃ name d d', c₁.1.upcomingOperator? = some name
            ∧ StepsAside {} 0 c₁ d ∧ Step {} 0 d d' ∧ PassedOver name d d'
            ∧ StepsAside {} 0 d' c₂) := by
  have run : ∃ c c₁ c₂, Steps {} 0 (.ofTokens (lineThen [.openBracket, .number "1", .closeBracket,
        .number "2", .operator "moveto"]), initial) c
      ∧ PaintsEarly {} 0 c c₁ ∧ StepsAside {} 0 c₁ c₂ ∧ operatorAt? c₂ = some .moveTo
      ∧ c₁.1.upcomingOperator? = some "moveto" :=
    ⟨_, _, _,
      .head ⟨_, _, 0, rfl, rfl, rfl⟩ <| .head ⟨_, _, 0, rfl, rfl, rfl⟩ <|
      .head ⟨_, _, 0, rfl, rfl, rfl⟩ <| .head ⟨_, _, 0, rfl, rfl, rfl⟩ <|
      .head ⟨_, _, 0, rfl, rfl, rfl⟩ .refl,
      ⟨rfl, ⟨_, _, 0, rfl, rfl, rfl⟩, rfl⟩,
      .head ⟨⟨_, _, 0, rfl, rfl, rfl⟩, nofun⟩ <| .head ⟨⟨_, _, 0, rfl, rfl, rfl⟩, nofun⟩ .refl,
      rfl, rfl⟩
  obtain ⟨c, c₁, c₂, reached, early, aside, next, saw⟩ := run
  obtain ⟨harmless, silent, goesOn⟩ := early_line_is_not_extended early
  exact ⟨c, c₁, c₂, reached, early, aside, next, saw, (harmless _ _ saw rfl).1,
    (harmless _ _ saw rfl).2, silent, goesOn c₂ .moveTo aside next⟩

/-- **A line that is painted early may still be gone on from.** The coordinates of
the next point are computed: the operator that is looked at is not the one that
goes on from the end of the line, and that one finds no path. What should be one
line of three points becomes two elements, the second of which has no start. -/
theorem early_line_is_extended :
    (∃ c c₁ c₂, Steps {} 0 (.ofTokens (lineThen [.number "9", .operator "dup",
          .operator "lineto", .operator "stroke"]), initial) c
        ∧ PaintsEarly {} 0 c c₁ ∧ StepsAside {} 0 c₁ c₂
        ∧ operatorAt? c₂ = some .lineTo ∧ Operator.extendsPath .lineTo = true)
    ∧ (initial.run {} 12 (lineThen [.number "9", .operator "dup", .operator "lineto",
          .operator "stroke"])).map (fun m => m.picture.fragments.shapes)
        = some ["<path d=\"M 0 0 L 5 5\" fill=\"none\" stroke=\"black\" />",
            "<path d=\"L 9 9\" fill=\"none\" stroke=\"black\" />"] := by
  have harmless : ∀ op, some Operator.duplicate = some op → op.drawsPath = false := by
    rintro _ ⟨⟩
    rfl
  exact ⟨⟨_, _, _,
      .head ⟨_, _, 0, rfl, rfl, rfl⟩ <| .head ⟨_, _, 0, rfl, rfl, rfl⟩ <|
      .head ⟨_, _, 0, rfl, rfl, rfl⟩ <| .head ⟨_, _, 0, rfl, rfl, rfl⟩ <|
      .head ⟨_, _, 0, rfl, rfl, rfl⟩ .refl,
      ⟨rfl, ⟨_, _, 0, rfl, rfl, rfl⟩, rfl⟩,
      .head ⟨⟨_, _, 0, rfl, rfl, rfl⟩, nofun⟩ <| .head ⟨⟨_, _, 0, rfl, rfl, rfl⟩, harmless⟩ .refl,
      rfl, rfl⟩,
    by decide +kernel⟩

end Machine

end VectorPage
