/-
Where tokens come from.

A program can take tokens apart from the place where they were written: into
procedure bodies, which lie on the operand stack, are bound to names, come back
in front of what remains to be read, or are run as the paint procedure of a
pattern on a machine of its own. But it cannot make a token up. `Carries` lists
the places of a token, and no step brings one to them that was not there before
(`Step.carries`). So every token that is met in a run, in literals and paint
procedures too, was read from the text of a program (`Underway.exists_source`),
and has the form that tokens of a text have.

For the numbers among them this means that each has a value.
-/
import VectorPage.Proofs.Bounds
import VectorPage.Proofs.Lookahead
import VectorPage.Proofs.Printing
import VectorPage.Proofs.References
import VectorPage.Proofs.TextPatterns

set_option autoImplicit false

namespace VectorPage

/-! ## Scans -/

/-- What holds of the state if the scan goes on, and of the result if it is done. -/
def Scan.Satisfies {σ ρ : Type} (during : σ → Prop) (after : ρ → Prop) : Scan σ ρ → Prop
  | more state => during state
  | done result => after result

namespace Scanner

variable {σ ρ : Type}

/-- **An invariant of a scan** of known tokens: a token keeps it, and the result has
what is asked for. -/
structure Keeps (scanner : Scanner σ ρ) (known : Token → Prop) (during : σ → Prop)
    (after : ρ → Prop) : Prop where
  step : ∀ state token, during state → known token →
    (scanner.step state token).Satisfies during after
  finish : ∀ state, during state → after (scanner.finish state)

variable {scanner : Scanner σ ρ} {known : Token → Prop} {during : σ → Prop} {after : ρ → Prop}

/-- What each step of a scan keeps, a scan of many tokens keeps. By induction on the
tokens. -/
theorem Keeps.feed (keeps : scanner.Keeps known during after) {state : σ} {tokens : List Token}
    (start : during state) (all : ∀ token ∈ tokens, known token) :
    (scanner.feed state tokens).Satisfies during fun result => after result.1 := by
  induction tokens generalizing state with
  | nil => exact start
  | cons token tokens ih =>
    obtain ⟨first, later⟩ := List.forall_mem_cons.mp all
    have stepped := keeps.step state token start first
    rw [Scanner.feed]
    cases outcome : scanner.step state token with
    | more state' =>
      rw [outcome] at stepped
      exact ih stepped later
    | done result =>
      rw [outcome] at stepped
      exact stepped

/-- A scan of the stream, across the boundaries between calls. -/
theorem Keeps.run (keeps : scanner.Keeps known during after) {state : σ} {s : TokenStream}
    (start : during state) (all : ∀ token ∈ s.unread, known token) :
    after (scanner.run state s).1 := by
  have fed := keeps.feed start all
  rw [(scanner.run_flat state s).1, scan]
  cases outcome : scanner.feed state s.unread with
  | more state' =>
    rw [outcome] at fed
    exact keeps.finish state' fed
  | done result =>
    rw [outcome] at fed
    exact fed

end Scanner

/-! ## Procedures in literals -/

section Literals

variable {known : Token → Prop}

/-- The tokens collected so far are known. -/
def BodyScan.MadeOf (known : Token → Prop) (scan : BodyScan) : Prop :=
  ∀ token ∈ scan.tokens, known token

/-- The body of a procedure is made of tokens that were read: the scan copies them and
makes none up. -/
theorem bodyScanner_keeps :
    bodyScanner.Keeps known (BodyScan.MadeOf known) fun body => ∀ token ∈ body, known token := by
  constructor
  · intro scan token collected here
    have more : ∀ t ∈ token :: scan.tokens, known t := List.forall_mem_cons.mpr ⟨here, collected⟩
    cases token with
    | closeBrace =>
      obtain ⟨_ | depth, tokens⟩ := scan
      · exact fun t mem => collected t (List.mem_reverse.mp mem)
      · exact more
    | _ => exact more
  · exact fun scan collected t mem => collected t (List.mem_reverse.mp mem)

/-- The procedures in a literal are made of known tokens. -/
def Datum.MadeOf (known : Token → Prop) (d : Datum) : Prop :=
  ∀ body, d.HasProcedure body → ∀ token ∈ body, known token

/-- So are those in a literal that has been collected. -/
def Literal.MadeOf (known : Token → Prop) (literal : Literal) : Prop :=
  literal.datum.MadeOf known

/-- Whether a literal is a number, a text or a name. -/
def Datum.isAtom : Datum → Bool
  | number _ | text _ | name _ => true
  | procedure _ | array _ | dict _ => false

theorem Datum.MadeOf.atom {d : Datum} (atom : d.isAtom = true) : d.MadeOf known := by
  intro body inside
  cases inside <;> cases atom

theorem Datum.MadeOf.procedure {body : List Token} (all : ∀ token ∈ body, known token) :
    (Datum.procedure body).MadeOf known := by
  rintro _ ⟨⟩
  exact all

namespace OpenLiteral

/-- And those in one that is not closed yet. -/
def MadeOf (known : Token → Prop) (kind : OpenLiteral) : Prop :=
  kind.close.MadeOf known

theorem MadeOf.add {kind : OpenLiteral} {d : Datum} (before : kind.MadeOf known)
    (value : d.MadeOf known) : (kind.add d).MadeOf known := by
  cases kind with
  | array items =>
    rintro body ⟨⟩
    rename_i d' mem inside
    rcases List.mem_cons.mp (List.mem_reverse.mp mem) with rfl | mem
    · exact value body inside
    · exact before body (.item (List.mem_reverse.mpr mem) inside)
  | dict entries key =>
    cases key with
    | none => exact before
    | some key =>
      rintro body ⟨⟩
      rename_i entry mem inside
      rcases mem_setEntry mem with rfl | mem
      · exact value body inside
      · exact before body (.entry mem inside)

theorem madeOf_array_nil : (OpenLiteral.array []).MadeOf known := by
  rintro body ⟨⟩
  rename_i mem inside
  cases mem

theorem madeOf_dict_nil {key : Option String} : (OpenLiteral.dict [] key).MadeOf known := by
  rintro body ⟨⟩
  rename_i mem inside
  cases mem

end OpenLiteral

namespace LiteralScan

open OpenLiteral

/-- The tokens of a procedure that will be an entry. -/
def collecting (scan : LiteralScan) : List Token :=
  match scan.mode with
  | .procedure body => body.tokens
  | _ => []

/-- **The procedures collected so far are made of known tokens**: in the literals
that are open, and in the one under collection. -/
structure MadeOf (known : Token → Prop) (scan : LiteralScan) : Prop where
  inner : scan.inner.MadeOf known
  outer : ∀ kind ∈ scan.outer, kind.MadeOf known
  collecting : ∀ token ∈ scan.collecting, known token

/-- An element is added to the innermost literal of a scan, and brings its tokens. -/
theorem MadeOf.add {scan : LiteralScan} {d : Datum} (made : scan.MadeOf known)
    (value : d.MadeOf known) : (scan.add d).MadeOf known where
  inner := made.inner.add value
  outer := made.outer
  collecting := by simp [LiteralScan.add, LiteralScan.collecting]

/-- A literal opened inside another adds none of its own. -/
theorem MadeOf.nest {scan : LiteralScan} {kind : OpenLiteral} (made : scan.MadeOf known)
    (opened : kind.MadeOf known) : (scan.nest kind).MadeOf known := by
  obtain ⟨inner, outer, _ | room, mode, truncated⟩ := scan
  · exact ⟨made.inner, made.outer, by simp [LiteralScan.nest, LiteralScan.collecting]⟩
  · exact ⟨opened, List.forall_mem_cons.mpr ⟨made.inner, made.outer⟩, made.collecting⟩

/-- A literal that is closed takes its tokens along, to the one around it or to the
result. -/
theorem MadeOf.closeInner {scan : LiteralScan} (made : scan.MadeOf known) :
    scan.closeInner.Satisfies (MadeOf known) (Literal.MadeOf known) := by
  obtain ⟨inner, _ | ⟨parent, outer⟩, room, mode, truncated⟩ := scan
  · exact made.inner
  · obtain ⟨around, beyond⟩ := List.forall_mem_cons.mp made.outer
    exact ⟨around.add made.inner, beyond, made.collecting⟩

/-- The scan may turn to anything in which it collects nothing. -/
theorem MadeOf.withMode {scan : LiteralScan} (made : scan.MadeOf known) {mode : LiteralMode}
    (idle : { scan with mode := mode }.collecting = []) :
    { scan with mode := mode }.MadeOf known where
  inner := made.inner
  outer := made.outer
  collecting := by simp [idle]

/-- In an array every token is an element or is passed over. -/
theorem MadeOf.stepArray {scan : LiteralScan} (made : scan.MadeOf known) (token : Token) :
    (scan.stepArray token).Satisfies (MadeOf known) (Literal.MadeOf known) := by
  cases token with
  | number s | string s | hexString s | name s => exact made.add (.atom rfl)
  | openBracket => exact made.nest madeOf_array_nil
  | closeBracket => exact made.closeInner
  | operator _ | openBrace | closeBrace | openDict | closeDict => exact made

/-- In a dictionary a token is a key, a value, or passed over. -/
theorem MadeOf.stepDict {scan : LiteralScan} (made : scan.MadeOf known)
    {entries : List (String × Datum)} {key : Option String}
    (inside : scan.inner = .dict entries key) (token : Token) :
    (scan.stepDict entries key token).Satisfies (MadeOf known) (Literal.MadeOf known) := by
  cases token with
  | number s | string s | hexString s => exact made.add (.atom rfl)
  | name s =>
    cases key with
    | none =>
      -- a key that waits is not part of the literal yet
      have inner := made.inner
      rw [inside] at inner
      exact ⟨inner, made.outer, made.collecting⟩
    | some key => exact made.add (.atom rfl)
  | operator s =>
    cases key with
    | none => exact made
    | some key => exact made.add (.atom rfl)
  | openBrace => exact made.withMode rfl
  | openBracket => exact made.nest madeOf_array_nil
  | openDict => exact made.nest madeOf_dict_nil
  | closeDict => exact made.closeInner
  | closeBrace | closeBracket => exact made

theorem MadeOf.stepSkipping {scan : LiteralScan} (made : scan.MadeOf known) {brackets : Nat}
    (token : Token) : (scan.stepSkipping brackets token).MadeOf known := by
  cases token with
  | closeBracket | closeDict => cases brackets <;> exact made.withMode rfl
  | openBracket | openDict | openBrace => exact made.withMode rfl
  | number _ | string _ | hexString _ | name _ | operator _ | closeBrace => exact made

/-- **One token more**: whatever the scan does with it, what it holds is made of tokens
read. -/
theorem MadeOf.step {scan : LiteralScan} (made : scan.MadeOf known) {token : Token}
    (here : known token) :
    (scan.step token).Satisfies (MadeOf known) (Literal.MadeOf known) := by
  obtain ⟨inner, outer, room, mode, truncated⟩ := scan
  cases mode with
  | reading =>
    cases inner with
    | array items => exact made.stepArray token
    | dict entries key => exact made.stepDict rfl token
  | procedure body =>
    have collected := bodyScanner_keeps.step body token made.collecting here
    simp only [LiteralScan.step]
    change (BodyScan.step body token).Satisfies _ _ at collected
    cases stepped : body.step token with
    | more body' =>
      rw [stepped] at collected
      exact ⟨made.inner, made.outer, collected⟩
    | done tokens =>
      rw [stepped] at collected
      exact made.add (.procedure collected)
  | skipping brackets => exact made.stepSkipping token
  | skippingProcedure brackets body =>
    -- what is passed over is not kept
    simp only [LiteralScan.step]
    cases body.step token with
    | more body' => exact made.withMode rfl
    | done tokens => exact made.withMode rfl

/-- Literals closed at the end of the input have what they had. -/
theorem madeOf_closeAll {inner : OpenLiteral} {outer : List OpenLiteral} (made : inner.MadeOf known)
    (around : ∀ kind ∈ outer, kind.MadeOf known) : (closeAll inner outer).MadeOf known := by
  induction outer generalizing inner with
  | nil => exact made
  | cons parent outer ih =>
    obtain ⟨first, beyond⟩ := List.forall_mem_cons.mp around
    exact ih (first.add made) beyond

theorem MadeOf.finish {scan : LiteralScan} (made : scan.MadeOf known) :
    Literal.MadeOf known scan.finish := by
  obtain ⟨inner, outer, room, mode, truncated⟩ := scan
  cases mode with
  | procedure body =>
    have whole := bodyScanner_keeps.finish body made.collecting
    exact madeOf_closeAll (made.inner.add (.procedure whole)) made.outer
  | _ => exact madeOf_closeAll made.inner made.outer

end LiteralScan

/-- **A literal's procedures are made of its tokens.** -/
theorem literalScanner_keeps :
    literalScanner.Keeps known (LiteralScan.MadeOf known) (Literal.MadeOf known) where
  step _ _ made here := made.step here
  finish _ made := made.finish

end Literals

namespace Machine

/-! ## Procedures of a machine -/

/-- **The machine has a procedure**: as an operand, or as an entry of a dictionary. -/
inductive HasBody (m : Machine) (body : List Token) : Prop where
  | operand (here : Value.procedure body ∈ m.operands)
  | entry (here : m.heap.Has (.procedure body))

section Bodies

variable {limits : Limits} {level : Nat} {m m' : Machine} {body : List Token}

/-- Procedures are held by operands and dictionaries, so a machine that agrees in these
has no new ones. -/
theorem HasBody.of_same (h : m'.HasBody body) (operands : m'.operands ⊆ m.operands)
    (heap : m'.heap = m.heap) : m.HasBody body := by
  cases h with
  | operand here => exact .operand (operands here)
  | entry here => exact .entry (heap ▸ here)

theorem HasBody.of_push {v : Value} (h : (m.push v).HasBody body) :
    m.HasBody body ∨ v = .procedure body := by
  cases h with
  | operand here =>
    rcases List.mem_cons.mp here with top | old
    · exact .inr top.symm
    · exact .inl (.operand old)
  | entry here => exact .inl (.entry here)

/-- **No operator makes a procedure.** -/
theorem operate_hasBody {s : TokenStream} {op : Operator} (h : (m.operate s op).HasBody body) :
    m.HasBody body := by
  by_cases restore : op = .restoreGraphics
  · subst restore
    obtain ⟨graphics, saved, path, nextId, picture, restored⟩ := exists_restoreGraphics_eq m
    rw [operate, restored] at h
    exact h.of_same (List.Subset.refl _) rfl
  cases h with
  | operand here =>
    rcases operate_operands restore here with old | made
    · exact .operand old
    · cases made
  | entry here =>
    rcases operate_heap restore here with old | operand | made
    · exact .entry old
    · exact .operand operand
    · cases made

/-- A pattern holds its dictionary and no procedure besides; what its paint procedure
makes is gone with the machine that ran it. -/
theorem makePattern_hasBody {fuel : Nat}
    (made : m.makePattern limits level (paintWith limits fuel level) = some m')
    (h : m'.HasBody body) : m.HasBody body := by
  obtain ⟨ref, tile, hits, -, -, rfl⟩ | rfl := makePattern_cases made
  · cases h with
    | operand here =>
      rcases List.mem_cons.mp here with top | old
      · cases top
      · exact .operand (List.mem_of_mem_tail old)
    | entry here => exact .entry here
  · exact h.of_same (List.tail_suffix _).subset rfl

/-- What a literal leaves on the stack and on the heap. -/
theorem pushLiteral_values (m : Machine) (limits : Limits) (kind : OpenLiteral) (s : TokenStream) :
    (m.pushLiteral limits kind s).2.operands
        = (m.heap.store (literalScanner.run (.start limits.literals kind) s).1.datum).1
          :: m.operands
      ∧ (m.pushLiteral limits kind s).2.heap
        = (m.heap.store (literalScanner.run (.start limits.literals kind) s).1.datum).2 := by
  simp only [pushLiteral]
  split <;> exact ⟨rfl, rfl⟩

/-- **A literal brings procedures made of the tokens ahead.** -/
theorem pushLiteral_hasBody {kind : OpenLiteral} {s : TokenStream}
    (opened : kind.MadeOf (· ∈ s.unread)) (h : (m.pushLiteral limits kind s).2.HasBody body) :
    m.HasBody body ∨ ∀ token ∈ body, token ∈ s.unread := by
  have start : (LiteralScan.start limits.literals kind).MadeOf (· ∈ s.unread) :=
    ⟨opened, by simp [LiteralScan.start], by simp [LiteralScan.start, LiteralScan.collecting]⟩
  have made := literalScanner_keeps.run start fun _ => id
  obtain ⟨operands, heap⟩ := pushLiteral_values m limits kind s
  -- on the stack and on the heap, a procedure is an old one or one of the literal
  have passive : Heap.HasPassive fun v => ∀ body, v = .procedure body →
      ∀ token ∈ body, token ∈ s.unread :=
    fun v _ other body isBody => absurd isBody (other body)
  obtain ⟨top, kept⟩ := Heap.store_keeps passive m.heap _ fun body inside => by
    rintro _ ⟨⟩
    exact made body inside
  cases h with
  | operand here =>
    rw [operands] at here
    rcases List.mem_cons.mp here with isTop | old
    · exact .inr (top body isTop.symm)
    · exact .inl (.operand old)
  | entry here =>
    rw [heap] at here
    rcases kept _ here with old | new
    · exact .inl (.entry old)
    · exact .inr (new body rfl)

end Bodies

/-! ## Tokens of a run -/

/-- **The token is at hand**: still to be read, or in a procedure of the machine. -/
def Carries (c : TokenStream × Machine) (token : Token) : Prop :=
  token ∈ c.1.unread ∨ ∃ body, c.2.HasBody body ∧ token ∈ body

section Tokens

variable {limits : Limits} {level : Nat} {c c' : TokenStream × Machine} {token : Token}

/-- What is at hand if nothing new is ahead, and the procedures are old ones or made
of what was ahead. -/
theorem Carries.of_parts (h : Carries c' token) (ahead : c'.1.unread ⊆ c.1.unread)
    (bodies : ∀ body, c'.2.HasBody body → c.2.HasBody body ∨ ∀ t ∈ body, t ∈ c.1.unread) :
    Carries c token := by
  rcases h with unread | ⟨body, has, mem⟩
  · exact .inl (ahead unread)
  · rcases bodies body has with old | new
    · exact .inr ⟨body, old, mem⟩
    · exact .inl (new token mem)

/-- A call brings into the stream the tokens of a body that the machine has. -/
theorem callProcedure_carries {m : Machine} {name : String} {body : List Token} {s : TokenStream}
    (has : m.HasBody body) (h : Carries (m.callProcedure limits name body s) token) :
    Carries (s, m) token := by
  have ahead := s.unread_call body limits.calls
  rcases called : s.call body limits.calls with ⟨_ | _, rest⟩
  · rw [called, if_neg Bool.false_ne_true] at ahead
    simp only [callProcedure, called] at h
    refine h.of_parts (ahead ▸ List.Subset.refl _) fun body has => .inl ?_
    exact has.of_same (List.Subset.refl _) rfl
  · rw [called, if_pos rfl] at ahead
    simp only [callProcedure, called] at h
    rcases h with unread | old
    · rw [show rest.unread = body ++ s.unread from ahead] at unread
      rcases List.mem_append.mp unread with new | old
      · exact .inr ⟨body, has, new⟩
      · exact .inl old
    · exact .inr old

/-- **Executing a name carries no token in from elsewhere.** What it can bring is the
body of a procedure, which was bound, and so was held before. -/
theorem executeName_carries {m : Machine} {fuel : Nat} {name : String} {s : TokenStream}
    (executed : m.executeName limits level (paintWith limits fuel level) name s = some c')
    (h : Carries c' token) : Carries (s, m) token := by
  have stays : ∀ m', c' = (s, m') → (∀ body, m'.HasBody body → m.HasBody body) →
      Carries (s, m) token := by
    rintro m' rfl bodies
    exact h.of_parts (List.Subset.refl _) fun body has => .inl (bodies body has)
  simp only [executeName] at executed
  split at executed
  · rename_i body found
    cases executed
    exact callProcedure_carries (.entry (has_of_lookup found)) h
  · rename_i v other found
    refine stays _ (Option.some.inj executed).symm fun body has => ?_
    rcases has.of_push with old | isBody
    · exact old
    · exact absurd isBody (other body)
  · split at executed
    · obtain ⟨m', made, same⟩ := Option.map_eq_some_iff.mp executed
      exact stays m' same.symm fun body => makePattern_hasBody made
    · exact stays _ (Option.some.inj executed).symm fun body => operate_hasBody
    · exact stays _ (Option.some.inj executed).symm fun body has =>
        has.of_same (List.Subset.refl _) rfl

/-- **No step makes a token up.** -/
theorem Step.carries (step : Step limits level c c') (h : Carries c' token) : Carries c token := by
  obtain ⟨first, s, fuel, next, -, stepped⟩ := step
  have ahead := c.1.next_of_unread.2
  rw [next] at ahead
  -- it is enough to look behind the token that is executed
  suffices behind : Carries (s, c.2.counted) token by
    refine behind.of_parts ?_ fun body has => .inl (has.of_same (List.Subset.refl _) rfl)
    exact ahead ▸ (List.tail_suffix _).subset
  have pushes : ∀ v, c' = (s, c.2.counted.push v) → (∀ body, v ≠ .procedure body) →
      Carries (s, c.2.counted) token := by
    rintro v rfl passive
    refine h.of_parts (List.Subset.refl _) fun body has => .inl ?_
    exact has.of_push.resolve_right (passive body)
  cases first with
  | number text | string text | hexString text | name text =>
    exact pushes _ (Option.some.inj stepped).symm fun _ => Value.noConfusion
  | openBrace =>
    cases stepped
    refine h.of_parts (bodyScanner.suffix_run .start s).subset fun body has => ?_
    refine has.of_push.imp_right fun isBody => ?_
    cases isBody
    exact bodyScanner_keeps.run (by simp [BodyScan.MadeOf, BodyScan.start]) fun _ => id
  | openBracket =>
    cases stepped
    refine h.of_parts (literalScanner.suffix_run _ s).subset fun body => ?_
    exact pushLiteral_hasBody OpenLiteral.madeOf_array_nil
  | openDict =>
    cases stepped
    refine h.of_parts (literalScanner.suffix_run _ s).subset fun body => ?_
    exact pushLiteral_hasBody OpenLiteral.madeOf_dict_nil
  | operator name => exact executeName_carries stepped h
  | closeBrace | closeBracket | closeDict =>
    cases stepped
    exact h

/-- Nor do any number of them. -/
theorem Steps.carries (steps : Steps limits level c c') (h : Carries c' token) :
    Carries c token := by
  induction steps with
  | refl => exact h
  | tail _ step ih => exact ih (step.carries h)

/-- The end of a run leaves the procedures that it has come to. -/
theorem Ends.carries {s : TokenStream} {m m' : Machine} (ends : Ends limits level s m m')
    {body : List Token} (has : m'.finish.HasBody body) (mem : token ∈ body) :
    Carries (s, m) token := by
  obtain ⟨s₁, m₁, steps, halted⟩ := ends.steps
  refine steps.carries (.inr ⟨body, ?_, mem⟩)
  -- a run ends as with a stroke
  have unpainted : m'.HasBody body := by
    change (m'.operate (.ofTokens []) .stroke).HasBody body at has
    exact operate_hasBody has
  rcases halted with ⟨-, rfl⟩ | ⟨-, rfl⟩
  · exact unpainted
  · exact unpainted.of_same (List.Subset.refl _) rfl

theorem not_hasBody_initial (body : List Token) : ¬ initial.HasBody body := by
  rintro (here | ⟨⟨i⟩, key, here⟩)
  · cases here
  · cases i <;> cases here

theorem hasBody_of_paintBody? {m : Machine} {body : List Token}
    (paints : m.paintBody? token = some body) : m.HasBody body := by
  cases token with
  | operator name =>
    simp only [paintBody?] at paints
    split at paints
    · obtain ⟨⟨ref, body'⟩, found, rfl⟩ := Option.map_eq_some_iff.mp paints
      unfold patternBody? at found
      split at found
      · split at found
        · rename_i entry
          cases found
          exact .entry ⟨_, _, entry⟩
        · cases found
      · cases found
    · cases paints
  | _ => cases paints

/-- A paint procedure is run on a fresh machine, but its tokens were at hand before. -/
theorem RunsPaint.carries {body : List Token} (runs : RunsPaint limits level c body)
    (h : Carries (.ofTokens body, initial) token) : Carries c token := by
  obtain ⟨first, rest, -, -, paints, -⟩ := runsPaint_iff.mp runs
  rcases h with mem | ⟨body', has, -⟩
  · exact .inr ⟨body, (hasBody_of_paintBody? paints).of_same (List.Subset.refl _) rfl, mem⟩
  · exact absurd has (not_hasBody_initial body')

end Tokens

/-- **Every configuration that programs lead to**, given as texts. A fresh machine
starts on a text, and when its run has ended it may start on another; a token is
executed; a paint procedure is started on a machine of its own, one level further
in. -/
inductive Underway (limits : Limits) : Nat → TokenStream × Machine → Prop where
  | fresh (source : String) : Underway limits 0 (.ofTokens (tokenize source), initial)
  | next {s : TokenStream} {m m' : Machine} (source : String) :
      Underway limits 0 (s, m) → Ends limits 0 s m m' →
      Underway limits 0 (.ofTokens (tokenize source), m'.finish)
  | step {level : Nat} {c c' : TokenStream × Machine} :
      Underway limits level c → Step limits level c c' → Underway limits level c'
  | paint {level : Nat} {c : TokenStream × Machine} {body : List Token} :
      Underway limits level c → RunsPaint limits level c body →
      Underway limits (level + 1) (.ofTokens body, initial)

section Underway

variable {limits : Limits} {level : Nat} {c : TokenStream × Machine} {token : Token}

/-- **Every token at hand was read from a text.** -/
theorem Underway.exists_source (underway : Underway limits level c) (h : Carries c token) :
    ∃ source, token ∈ tokenize source := by
  induction underway with
  | fresh source =>
    rcases h with unread | ⟨body, has, -⟩
    · exact ⟨source, unread⟩
    · exact absurd has (not_hasBody_initial body)
  | next source _ ends ih =>
    rcases h with unread | ⟨body, has, mem⟩
    · exact ⟨source, unread⟩
    · exact ih (ends.carries has mem)
  | step _ step ih => exact ih (step.carries h)
  | paint _ runs ih => exact ih (runs.carries h)

end Underway

/-! ## Numbers of a run -/

/-- A numeral in a text is well formed. -/
theorem isNumeral_of_mem_tokenize {source text : String} (mem : .number text ∈ tokenize source) :
    IsNumeral text.toList := by
  obtain ⟨s⟩ := Segmentation.exists_segmentation (stripComments source.toList)
  rw [tokenize, s.lexOnto_eq [], List.reverse_nil, List.nil_append] at mem
  obtain ⟨piece, inside, isNumber⟩ := List.mem_map.mp mem
  obtain ⟨rest, lexeme⟩ := s.segmented.exists_lexeme piece inside
  have formed := lexeme.wellFormed
  rwa [isNumber] at formed

/-- What a numeral with a value stands for, as a token of a program. -/
theorem numeralValue_of_read? {text : String} {x : Float}
    (value : Numeral.read? text.toList = some x) : numeralValue text = x := by
  rw [numeralValue, value, Option.getD_some]

/-- **Numerals are read as far as they go, and have values.** At every place of a text
the reader takes the longest text that the pattern of numerals matches, and takes
none exactly if only the empty text could match. What it takes is a number for a
decimal reader too, and these have values. So has every number that comes up in a
run, wherever it stands: executing it leaves this value, and so does a literal in
which it is read. -/
theorem number_tokens_have_values :
    (∀ (cs : List Char) (pos : Nat),
      (∀ n, Numeral.length? (cs.drop pos) = some n
        ↔ IsGreatest (TextPattern.numeral.lengthsAt (cs.drop pos)) n)
      ∧ (Numeral.length? (cs.drop pos) = none
        ↔ ∀ front, front <+: cs.drop pos → front ≠ [] → ¬ TextPattern.numeral.Matches front))
    ∧ (∀ cs, TextPattern.numeral.Matches cs → TextPattern.decimal.Matches cs)
    ∧ (∀ cs, TextPattern.decimal.Matches cs ↔ (Numeral.read? cs).isSome)
    ∧ ∀ (limits : Limits) (level : Nat) (c : TokenStream × Machine) (text : String),
      Underway limits level c → Carries c (.number text) →
      ∃ x, Numeral.read? text.toList = some x
        ∧ (∀ (m : Machine) (paint : List Token → Option Machine) (s : TokenStream),
          m.step limits level paint (.number text) s = some (s, m.push (.number x)))
        ∧ ∀ scan : LiteralScan, scan.mode = .reading →
          literalScanner.step scan (.number text) = .more (scan.add (.number x)) := by
  refine ⟨fun cs pos => ⟨fun n => Numeral.length?_eq_some_iff, Numeral.length?_eq_none_iff⟩,
    fun cs isNumeral => ?_, fun cs => Numeral.isSome_read?_iff.symm, ?_⟩
  · exact TextPattern.matches_decimal.mpr (TextPattern.matches_numeral.mp isNumeral)
  · intro limits level c text underway carried
    obtain ⟨source, written⟩ := underway.exists_source carried
    have accepted := TextPattern.matches_decimal.mpr (isNumeral_of_mem_tokenize written)
    obtain ⟨x, value⟩ := Option.isSome_iff_exists.mp (Numeral.isSome_read?_iff.mpr accepted)
    have worth := numeralValue_of_read? value
    refine ⟨x, value, fun m paint s => ?_, fun scan reading => ?_⟩
    · rw [step, worth]
    · obtain ⟨inner, outer, room, mode, truncated⟩ := scan
      obtain rfl : mode = .reading := reading
      cases inner <;> rw [← worth] <;> rfl

/-- A number in a procedure body, and one in an array that is still ahead. -/
def bodyBeforeArray : TokenStream × Machine :=
  (⟨[], [.openBracket, .number "7.", .closeBracket]⟩,
    initial.counted.push (.procedure [.number "-.5e1"]))

theorem number_tokens_have_values_in_body :
    Underway {} 0 bodyBeforeArray ∧ Carries bodyBeforeArray (.number "-.5e1")
      ∧ Carries bodyBeforeArray (.number "7.")
      ∧ (∃ x, Numeral.read? "-.5e1".toList = some x)
      ∧ ∃ x, literalScanner.step (.start 256 (.array [])) (.number "7.")
        = .more ((LiteralScan.start 256 (.array [])).add (.number x)) := by
  have tokens : tokenize "\x7b-.5e1\x7d [7.]" = [.openBrace, .number "-.5e1", .closeBrace,
      .openBracket, .number "7.", .closeBracket] := by decide +kernel
  have underway : Underway {} 0 bodyBeforeArray := by
    have start := @Underway.fresh {} "\x7b-.5e1\x7d [7.]"
    rw [tokens] at start
    exact start.step ⟨.openBrace, _, 0, rfl, rfl, rfl⟩
  have inBody : Carries bodyBeforeArray (.number "-.5e1") :=
    .inr ⟨_, .operand List.mem_cons_self, List.mem_cons_self⟩
  have inArray : Carries bodyBeforeArray (.number "7.") := .inl (by decide)
  obtain ⟨x, value, -⟩ := number_tokens_have_values.2.2.2 {} 0 _ _ underway inBody
  obtain ⟨y, -, -, read⟩ := number_tokens_have_values.2.2.2 {} 0 _ _ underway inArray
  exact ⟨underway, inBody, inArray, ⟨x, value⟩, y, read _ rfl⟩

end Machine

end VectorPage
