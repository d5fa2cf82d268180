/-
A limit on operations bounds everything.

A call puts tokens back in front of the stream, so the number of tokens left
says nothing about how long a run goes on: a procedure that calls itself never
gets to the end of them. What goes down is the number of operations a machine
may still execute. Scans are not counted, but a scan only reads tokens that are
there. A paint procedure runs on a machine of its own with the full number of
operations, so that number alone does not go down either; but it runs one level
further in, and at the limit on patterns no machine further in is started.

The measure is therefore

    (operations left) + (levels left) * (limit on operations)

A step takes one from the first part, and going one level further in trades the
second part for a full first one. Fuel beyond it is never used up.

`AtWork` names all machines that take part in a run, the program's own and
those of paint procedures, with the tokens each has executed.
-/
import VectorPage.Proofs.Drawing

set_option autoImplicit false

namespace VectorPage.Machine

/-! ## What a step writes down

A machine counts its tokens and records the limits it hits. Operators leave both
alone. -/

/-- The count of tokens and the record of limits are the same. -/
structure SameBooks (m m' : Machine) : Prop where
  executed : m'.executed = m.executed
  hits : m'.hits = m.hits

/-- No operator touches the count or the list of limits that were hit: these are the
books of the loop. -/
theorem operate_books (m : Machine) (s : TokenStream) (op : Operator) :
    SameBooks m (m.operate s op) := by
  cases op with
  | restoreGraphics =>
    obtain ⟨graphics, saved, path, nextId, picture, restored⟩ := exists_restoreGraphics_eq m
    rw [operate, restored]
    exact ⟨rfl, rfl⟩
  | lineTo =>
    simp only [operate, lineTo_eq, paintPath_eq]
    split <;> exact ⟨rfl, rfl⟩
  | clip =>
    simp only [operate, clip_eq]
    split <;> exact ⟨rfl, rfl⟩
  | _ =>
    simp only [operate, negate, combine, exchange_eq, duplicate_eq, newDict, beginDict_eq, endDict,
      bindName_eq, saveGraphics, translate, scale, rotate, setLineWidth, setLineCap_eq,
      setLineJoin_eq, setDash, setRgbColor, setGray, setCmykColor, setPattern_eq, moveTo, moveBy,
      lineBy, curveTo, curveBy, closePath_eq, arc, paintPath_eq, shadingFill_eq, findFont,
      scaleFont, setFont_eq, showText_eq, pop_eq, popNumber_eq, popPoint_eq, popDisplay_eq]
    exact ⟨rfl, rfl⟩

/-- **A step counts one token.** -/
theorem Step.executed {limits : Limits} {level : Nat} {c c' : TokenStream × Machine}
    (step : Step limits level c c') : c'.2.executed = c.2.executed + 1 := by
  cases step.effect with
  | operate op rest _ result =>
    rw [result, (operate_books _ rest op).executed]
    rfl
  | makePattern fuel _ made =>
    -- the count of the machine that painted the tile is not carried over
    obtain ⟨ref, tile, hits, -, -, result⟩ | result := makePattern_cases made
    · rw [result]
      rfl
    · rw [result]
      rfl
  | aside _ result =>
    cases result with
    | literal kind s pushed =>
      rw [pushed]
      simp only [pushLiteral]
      split <;> rfl
    | nothing result | operand _ _ result | bound _ _ _ result | unknown _ result
    | refused _ _ result =>
      rw [result]
      rfl

/-! ## What a limit can act on

Three kinds of tokens do something that a limit may cut short: a call, a literal,
and the making of a pattern. All others do the same whatever the limits are. -/

/-- The procedure that a token calls. -/
def called? (m : Machine) : Token → Option (List Token)
  | .operator name =>
    match m.lookup name with
    | some (.procedure body) => some body
    | _ => none
  | _ => none

/-- The literal that a token opens. -/
def opening? : Token → Option OpenLiteral
  | .openBracket => some (.array [])
  | .openDict => some (.dict [] none)
  | _ => none

/-- The dictionary on top of the stack and its paint procedure. -/
def patternBody? (m : Machine) : Option (DictRef × List Token) :=
  match m.operands.head? with
  | some (.dict ref) =>
    match m.heap.get? ref "PaintProc" with
    | some (.procedure body) => some (ref, body)
    | _ => none
  | _ => none

/-- The paint procedure of the pattern that a token makes. -/
def paintBody? (m : Machine) : Token → Option (List Token)
  | .operator name =>
    match m.lookup name, Operator.ofName? name with
    | none, some .makePattern => m.patternBody?.map Prod.snd
    | _, _ => none
  | _ => none

/-- **How a token is exposed to limits.** A call may be refused, a literal may
be cut short, and a paint procedure may not be run. -/
inductive Exposed (m : Machine) (s : TokenStream) (token : Token) : Prop where
  | call (name : String) (body : List Token) (called : m.called? token = some body)
      (other : opening? token = none ∧ m.paintBody? token = none)
      (step : ∀ limits level paint,
        m.step limits level paint token s = some (m.callProcedure limits name body s))
  | literal (kind : OpenLiteral) (opens : opening? token = some kind)
      (other : m.called? token = none ∧ m.paintBody? token = none)
      (step : ∀ limits level paint,
        m.step limits level paint token s = some (m.pushLiteral limits kind s))
  | paint (ref : DictRef) (body : List Token) (paints : m.paintBody? token = some body)
      (other : m.called? token = none ∧ opening? token = none)
      (step : ∀ limits level paint, m.step limits level paint token s =
        if limits.patterns ≤ level then
          some (s, m.withPattern ref (some []) [.pattern (m.freshId "pattern").1])
        else (paint body).map fun painted =>
          (s, m.withPattern ref (some (tileOf painted)) painted.hits))
  | never (c : TokenStream × Machine) (books : SameBooks m c.2)
      (other : m.called? token = none ∧ opening? token = none ∧ m.paintBody? token = none)
      (step : ∀ limits level paint, m.step limits level paint token s = some c)

/-- With a paint procedure there are two cases, by the level of the machine. -/
theorem makePattern_of_body {m : Machine} {ref : DictRef} {body : List Token}
    (h : m.patternBody? = some (ref, body)) (limits : Limits) (level : Nat)
    (paint : List Token → Option Machine) :
    m.makePattern limits level paint =
      if limits.patterns ≤ level then
        some (m.withPattern ref (some []) [.pattern (m.freshId "pattern").1])
      else (paint body).map fun painted =>
        m.withPattern ref (some (tileOf painted)) painted.hits := by
  unfold patternBody? at h
  split at h
  · rename_i ref' top
    split at h
    · rename_i body' entry
      cases h
      simp only [makePattern_eq, top, entry]
    · cases h
  · cases h

/-- Without one, a pattern is made in one way under all limits, with no tile or not at
all. -/
theorem makePattern_of_no_body {m : Machine} (h : m.patternBody? = none) :
    ∃ made, SameBooks m made
      ∧ ∀ limits level paint, m.makePattern limits level paint = some made := by
  unfold patternBody? at h
  split at h
  · rename_i ref top
    split at h
    · cases h
    · rename_i bare
      refine ⟨m.withPattern ref none [], ⟨rfl, rfl⟩, fun limits level paint => ?_⟩
      rw [makePattern_eq, top]
      dsimp only
      split
      · rename_i body found
        exact absurd found (bare body)
      · rfl
  · rename_i other
    refine ⟨{ m with operands := m.operands.tail }, ⟨rfl, rfl⟩, fun limits level paint => ?_⟩
    rw [makePattern_eq]
    split
    · rename_i ref top
      exact absurd top (other ref)
    · rfl

/-- The name that makes patterns is exposed to the limit on patterns, and to no
other. -/
theorem exposed_makePattern {m : Machine} (s : TokenStream) {name : String}
    (unbound : m.lookup name = none) (named : Operator.ofName? name = some .makePattern) :
    Exposed m s (.operator name) := by
  have uncalled : m.called? (.operator name) = none := by simp [called?, unbound]
  have paints : m.paintBody? (.operator name) = m.patternBody?.map Prod.snd := by
    simp [paintBody?, unbound, named]
  have makes : ∀ limits level paint, m.step limits level paint (.operator name) s
      = (m.makePattern limits level paint).map fun m => (s, m) := by
    intro limits level paint
    simp only [step, executeName, unbound, named]
  -- the dictionary decides, before any limit is looked at
  cases pattern : m.patternBody? with
  | none =>
    rw [pattern, Option.map_none] at paints
    obtain ⟨made, books, answer⟩ := makePattern_of_no_body pattern
    refine .never (s, made) books ⟨uncalled, rfl, paints⟩ fun limits level paint => ?_
    rw [makes, answer, Option.map_some]
  | some found =>
    obtain ⟨ref, body⟩ := found
    rw [pattern, Option.map_some] at paints
    refine .paint ref body paints ⟨uncalled, rfl⟩ fun limits level paint => ?_
    rw [makes, makePattern_of_body pattern]
    split
    · rfl
    · rw [Option.map_map]
      rfl

/-- A name is exposed to the limit on calls if it is bound to a procedure. A bound name
is no operator, so no token is exposed to two limits. -/
theorem exposed_name (m : Machine) (s : TokenStream) (name : String) :
    Exposed m s (.operator name) := by
  cases bound : m.lookup name with
  | some v =>
    have noPaint : m.paintBody? (.operator name) = none := by simp [paintBody?, bound]
    -- only a procedure is called; any other value is pushed under all limits
    by_cases procedure : ∃ body, v = .procedure body
    · obtain ⟨body, rfl⟩ := procedure
      refine .call name body (by simp [called?, bound]) ⟨rfl, noPaint⟩ fun _ _ _ => ?_
      simp only [step, executeName, bound]
    · have uncalled : m.called? (.operator name) = none := by
        cases v <;> simp_all [called?]
      refine .never (s, m.push v) ⟨rfl, rfl⟩ ⟨uncalled, rfl, noPaint⟩ fun _ _ _ => ?_
      cases v with
      | procedure body => exact absurd ⟨body, rfl⟩ procedure
      | _ => simp only [step, executeName, bound]
  | none =>
    have uncalled : m.called? (.operator name) = none := by simp [called?, bound]
    cases builtin : Operator.ofName? name with
    | none =>
      refine .never (s, m.remark ("Unhandled operator: " ++ name)) ⟨rfl, rfl⟩
        ⟨uncalled, rfl, by simp [paintBody?, builtin]⟩ fun _ _ _ => ?_
      simp only [step, executeName, bound, builtin]
    | some op =>
      by_cases pattern : op = .makePattern
      · subst pattern
        exact exposed_makePattern s bound builtin
      · refine .never (s, m.operate s op) (operate_books m s op)
          ⟨uncalled, rfl, by simp [paintBody?, builtin, pattern]⟩ fun _ _ _ => ?_
        simp only [step, executeName, bound, builtin]

/-- **Each token is exposed to one limit at most**: a call to that on calls, a bracket
to that on literals, the making of a pattern to that on patterns. The other tokens do
the same under all limits. -/
theorem exposed (m : Machine) (s : TokenStream) (token : Token) : Exposed m s token := by
  cases token with
  | operator name => exact exposed_name m s name
  | openBracket => exact .literal _ rfl ⟨rfl, rfl⟩ fun _ _ _ => rfl
  | openDict => exact .literal _ rfl ⟨rfl, rfl⟩ fun _ _ _ => rfl
  | _ => exact .never _ ⟨rfl, rfl⟩ ⟨rfl, rfl, rfl⟩ fun _ _ _ => rfl

/-- **A step has no answer** exactly when it runs a paint procedure that has
none; and beyond the limit on patterns it runs none. -/
theorem step_eq_none_iff {m : Machine} {limits : Limits} {level : Nat}
    {paint : List Token → Option Machine} {token : Token} {s : TokenStream} :
    m.step limits level paint token s = none
      ↔ ∃ body, m.paintBody? token = some body ∧ level < limits.patterns ∧ paint body = none := by
  cases exposed m s token with
  | call name body _ other step => simp [step, other.2]
  | literal kind _ other step => simp [step, other.2]
  | never c _ other step => simp [step, other.2.2]
  | paint ref body paints _ step =>
    rw [step, paints]
    by_cases deep : limits.patterns ≤ level
    · simp [deep, Nat.not_lt.mpr deep]
    · simp [deep, Nat.lt_of_not_le deep]

/-! ## The machines at work -/

/-- **The next token runs a paint procedure**: as long as the run of that body
has no answer, the step has none. -/
def RunsPaint (limits : Limits) (level : Nat) (c : TokenStream × Machine) (body : List Token) :
    Prop :=
  ∃ token rest, c.1.next = (some token, rest) ∧ c.2.isSpent limits = false
    ∧ ∀ paint : List Token → Option Machine, paint body = none →
      c.2.counted.step limits level paint token rest = none

/-- **The machines at work** in a run that begins with a stream and a machine
at some level: the level, how many tokens the machine has executed since its
run began, and how it stands. A paint procedure starts a fresh machine one
level further in, and that machine may start others. -/
inductive AtWork (limits : Limits) (outermost : Nat) (start : TokenStream × Machine) :
    Nat → Nat → TokenStream × Machine → Prop where
  | start : AtWork limits outermost start outermost 0 start
  | step {level count : Nat} {c c' : TokenStream × Machine} :
      AtWork limits outermost start level count c → Step limits level c c' →
      AtWork limits outermost start level (count + 1) c'
  | paint {level count : Nat} {c : TokenStream × Machine} {body : List Token} :
      AtWork limits outermost start level count c → RunsPaint limits level c body →
      AtWork limits outermost start (level + 1) 0 (.ofTokens body, initial)

section Levels

variable {limits : Limits} {level : Nat}

/-- **What is run** is the paint procedure of the pattern that the token makes,
and only below the limit on patterns. -/
theorem runsPaint_iff {c : TokenStream × Machine} {body : List Token} :
    RunsPaint limits level c body ↔ ∃ token rest, c.1.next = (some token, rest)
      ∧ c.2.isSpent limits = false ∧ c.2.counted.paintBody? token = some body
      ∧ level < limits.patterns := by
  refine exists_congr fun token => exists_congr fun rest => and_congr_right fun _ =>
    and_congr_right fun _ => ⟨fun unanswered => ?_, fun ⟨paints, shallow⟩ paint unpainted => ?_⟩
  · -- a paint function that leaves out this body alone
    obtain ⟨body', paints, shallow, unpainted⟩ := step_eq_none_iff.mp
      (unanswered (fun b => if b = body then none else some initial) (if_pos rfl))
    obtain rfl : body' = body := by simpa using unpainted
    exact ⟨paints, shallow⟩
  · exact step_eq_none_iff.mpr ⟨body, paints, shallow, unpainted⟩

/-- **No machine is further in than the limit on patterns**, unless the run
began there. -/
theorem AtWork.level_le {outermost count : Nat} {start c : TokenStream × Machine}
    (h : AtWork limits outermost start level count c) (within : outermost ≤ limits.patterns) :
    level ≤ limits.patterns := by
  induction h with
  | start => exact within
  | step _ _ ih => exact ih
  | paint _ runs _ =>
    obtain ⟨-, -, -, -, -, shallow⟩ := runsPaint_iff.mp runs
    exact shallow

end Levels

/-! ## Under a limit on operations -/

section Bounded

variable {limits : Limits} {n level : Nat}

/-- There is room as long as the count is below the limit. -/
theorem isSpent_eq_false_iff (bounded : limits.operations = some n) (m : Machine) :
    m.isSpent limits = false ↔ m.executed < n := by
  simp [isSpent, bounded]

/-- **Enough fuel.** The induction is on the fuel; a step leaves one operation
less, and a paint procedure one level less. -/
theorem execute_isSome (bounded : limits.operations = some n) {fuel : Nat} (s : TokenStream)
    (m : Machine) (enough : (n - m.executed) + (limits.patterns - level) * n < fuel) :
    (execute limits fuel level s m).isSome := by
  induction fuel generalizing level s m with
  | zero => exact absurd enough (Nat.not_lt_zero _)
  | succ fuel ih =>
    rcases hn : s.next with ⟨_ | token, rest⟩
    · rw [execute_of_next_none (by rw [hn])]
      rfl
    · rw [execute_of_next_some hn]
      by_cases spent : m.isSpent limits = false
      · rw [if_neg (by simp [spent])]
        have live : m.executed < n := (isSpent_eq_false_iff bounded m).mp spent
        have painted : level < limits.patterns →
            ∀ body, (paintWith limits fuel level body).isSome := by
          intro within body
          rw [paintWith, Option.isSome_map]
          -- the fresh machine has all operations left, and one level less
          have levels : limits.patterns - level = (limits.patterns - (level + 1)) + 1 := by omega
          rw [levels, Nat.succ_mul] at enough
          have full : n - initial.executed = n := Nat.sub_zero n
          exact ih _ _ (by omega)
        have answered :
            m.counted.step limits level (paintWith limits fuel level) token rest ≠ none := by
          intro unanswered
          obtain ⟨body, -, within, unpainted⟩ := step_eq_none_iff.mp unanswered
          simpa [unpainted] using painted within body
        obtain ⟨c, stepped⟩ := Option.ne_none_iff_exists'.mp answered
        have counted : c.2.executed = m.executed + 1 :=
          Step.executed (c := (s, m)) ⟨token, rest, fuel, hn, spent, stepped⟩
        rw [stepped, Option.bind_some]
        exact ih c.1 c.2 (by omega)
      · rw [if_pos (by simpa using spent)]
        rfl

/-- **Under a limit on operations every run ends.** The fuel needed is bounded by what
is left to execute here and by a full run for each level further in. -/
theorem exists_ends (bounded : limits.operations = some n) (s : TokenStream) (m : Machine) :
    ∃ m', Ends limits level s m m' := by
  have ended : (execute limits _ level s m).isSome :=
    execute_isSome bounded s m (Nat.lt_succ_self _)
  obtain ⟨m', ended⟩ := Option.isSome_iff_exists.mp ended
  exact ⟨m', _, ended⟩

/-- What a machine at work has executed is in its count, and within the limit
if it is anything. -/
theorem AtWork.count_le (bounded : limits.operations = some n) {outermost count : Nat}
    {start c : TokenStream × Machine} (h : AtWork limits outermost start level count c) :
    count ≤ n ∧ count ≤ c.2.executed := by
  induction h with
  | start => exact ⟨Nat.zero_le _, Nat.zero_le _⟩
  | @step level count c c' _ step ih =>
    have counted := step.executed
    obtain ⟨-, -, -, -, live, -⟩ := step
    have left : c.2.executed < n := (isSpent_eq_false_iff bounded c.2).mp live
    omega
  | paint => exact ⟨Nat.zero_le _, Nat.zero_le _⟩

/-- **Execution is bounded.** Under a limit of `n` operations, whatever the
other limits, the run of any program on any machine ends, and its fuel matters
no more once it exceeds `n` times the number of levels. Every machine at work in
it, the program's own or that of a paint procedure, executes at most `n` tokens
and ends, and none is further in than the limit on patterns. -/
theorem execution_is_bounded (bounded : limits.operations = some n) (m : Machine)
    (program : List Token) :
    (∃ m', ∀ fuel, n * (limits.patterns + 1) < fuel → m.run limits fuel program = some m')
    ∧ ∀ level count c, AtWork limits 0 (.ofTokens program, m) level count c →
      count ≤ n ∧ level ≤ limits.patterns ∧ ∃ m', Ends limits level c.1 c.2 m' := by
  constructor
  · have enough : (n - m.executed) + (limits.patterns - 0) * n
        < n * (limits.patterns + 1) + 1 := by
      rw [Nat.mul_succ, Nat.sub_zero, Nat.mul_comm limits.patterns]
      omega
    obtain ⟨done, ended⟩ :=
      Option.isSome_iff_exists.mp (execute_isSome bounded (.ofTokens program) m enough)
    refine ⟨done.finish, fun fuel more => ?_⟩
    rw [run, execute_of_le more ended, Option.map_some]
  · intro level count c work
    exact ⟨(work.count_le bounded).1, work.level_le (Nat.zero_le _), exists_ends bounded _ _⟩

/-- A procedure that calls itself for ever, and makes a pattern each time. -/
def endlessPatterns : List Token :=
  [.name "f", .openBrace, .openDict, .name "PaintProc", .openBrace, .operator "newpath",
    .closeBrace, .closeDict, .operator "makepattern", .operator "f", .closeBrace, .operator "def",
    .operator "f"]

/-- Under a limit of eight operations it ends with one pattern made, and the
machine of its paint procedure was at work one level further in. -/
theorem execution_is_bounded_endless :
    let limits : Limits := { operations := some 8, patterns := 1 }
    (∃ m', (∀ fuel, 16 < fuel → initial.run limits fuel endlessPatterns = some m')
      ∧ m'.picture.definitions.size = 1)
    ∧ (∃ c, AtWork limits 0 (.ofTokens endlessPatterns, initial) 1 1 c)
    ∧ ∀ level count c, AtWork limits 0 (.ofTokens endlessPatterns, initial) level count c →
      count ≤ 8 ∧ level ≤ 1 ∧ ∃ m', Ends limits level c.1 c.2 m' := by
  intro limits
  obtain ⟨⟨m', ends⟩, work⟩ := @execution_is_bounded limits 8 rfl initial endlessPatterns
  have defined : (initial.run limits 17 endlessPatterns).map (·.picture.definitions.size)
      = some 1 := by decide +kernel
  rw [ends 17 (by decide), Option.map_some] at defined
  have called : AtWork limits 0 (.ofTokens endlessPatterns, initial) 0 5 _ :=
    .step (.step (.step (.step (.step .start ⟨_, _, 0, rfl, rfl, rfl⟩)
      ⟨_, _, 0, rfl, rfl, rfl⟩) ⟨_, _, 0, rfl, rfl, rfl⟩) ⟨_, _, 0, rfl, rfl, rfl⟩)
      ⟨_, _, 0, rfl, rfl, rfl⟩
  have painting : AtWork limits 0 (.ofTokens endlessPatterns, initial) 1 0
      (.ofTokens [.operator "newpath"], initial) :=
    called.paint ⟨_, _, rfl, rfl, fun paint unanswered =>
      Option.map_eq_none_iff.mpr (Option.map_eq_none_iff.mpr unanswered)⟩
  exact ⟨⟨m', ends, Option.some.inj defined⟩,
    ⟨_, painting.step ⟨_, _, 0, rfl, rfl, rfl⟩⟩, work⟩

end Bounded

end VectorPage.Machine
