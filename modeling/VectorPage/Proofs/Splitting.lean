/-
Splitting a program between two runs.

A machine can run several programs one after the other, and what it keeps
carries over. Cutting a program in two is still not the same as running it
whole: at the end of the first part a body or a literal may be left open, a
line may wait for the operator that comes next, and a path left over is
painted. Where none of this happens, the two runs and the one end alike.

The whole program is run with the second part as a tail behind the first. A
step of the first part that scans no further than its own tokens is a step of
the whole program too, as long as a waiting line finds in the tail what it
finds at the end of a program: nothing that keeps it open. When the first part
is used up, what is left of its calls is empty, and the next token read is the
first of the tail.
-/
import VectorPage.Proofs.Inlining
import VectorPage.Proofs.Limits

set_option autoImplicit false

namespace VectorPage

namespace TokenStream

theorem followedBy_nil (s : TokenStream) : s.followedBy [] = s := by
  rw [followedBy, List.append_nil]

end TokenStream

namespace Machine

variable {limits : Limits} {level : Nat} {m : Machine} {tail : List Token}

/-! ## The first part before the second -/

/-- **The scan at hand closes**: if the next token opens a body or a literal,
the tokens after it close it. -/
def ScanCloses (limits : Limits) (s : TokenStream) : Prop :=
  ∀ token rest, s.next = (some token, rest) → ¬ ScanRunsOut limits token rest.unread

/-- **A step, with more program behind it.** The tail is not read, since the
scan closes, and a line that waits for it ends there as it does at the end of
the program. -/
theorem Step.append {s : TokenStream} {c : TokenStream × Machine}
    (h : Step limits level (s, m) c) (closes : ScanCloses limits s)
    (ends : endsLine (.ofTokens tail) = true) :
    Step limits level (s.followedBy tail, m) (c.1.followedBy tail, c.2) := by
  obtain ⟨token, rest, fuel, next, live, stepped⟩ := h
  have agree : LineWaits m.counted token rest →
      endsLine (.ofTokens []) = endsLine (.ofTokens tail) := fun _ => ends.symm
  rw [← rest.followedBy_nil] at stepped
  obtain ⟨rest', stays, stepped'⟩ := step_within stepped (closes token rest next) agree
  rw [TokenStream.followedBy_nil] at stays
  rw [← stays] at stepped'
  exact ⟨token, rest.followedBy tail, fuel, TokenStream.next_followedBy next tail, live, stepped'⟩

/-- **A run, with more program behind it.** -/
theorem Steps.append {c c' : TokenStream × Machine} (h : Steps limits level c c')
    (closes : ∀ d, Steps limits level c d → ScanCloses limits d.1)
    (ends : endsLine (.ofTokens tail) = true) :
    Steps limits level (c.1.followedBy tail, c.2) (c'.1.followedBy tail, c'.2) := by
  induction h with
  | refl => exact .refl
  | tail before last ih => exact .tail ih (last.append (closes _ before) ends)

/-! ## Where the first part ends -/

/-- How an execution ends depends on the stream only through the next token and
what is behind it. -/
theorem ends_iff_of_next {s s' : TokenStream} (same : s.next = s'.next) {m' : Machine} :
    Ends limits level s m m' ↔ Ends limits level s' m m' := by
  refine exists_congr fun fuel => ?_
  cases fuel with
  | zero => rfl
  | succ fuel => rw [execute, execute, same]

/-- Without a path left over the end of a run changes nothing. -/
theorem finish_of_isEmpty (h : m.path.isEmpty = true) : m.finish = m := by
  rw [finish, paintPath, if_pos h]

/-- A line ends before tokens whose first executable name, as written, neither
restyles it nor goes on from its end. -/
theorem endsLine_of_apart
    (apart : ∀ name op, tail.findSome? Token.operator? = some name →
      Operator.ofName? name = some op → op.restyles = false ∧ op.extendsPath = false) :
    endsLine (.ofTokens tail) = true := by
  have unread : (TokenStream.ofTokens tail).unread = tail := rfl
  rw [endsLine, TokenStream.upcomingOperator?_eq, unread]
  cases found : tail.findSome? Token.operator? with
  | none => rfl
  | some name =>
    rw [Option.bind_some]
    cases builtin : Operator.ofName? name with
    | none => rfl
    | some op =>
      obtain ⟨restyles, extends'⟩ := apart name op found builtin
      simp only [restyles, extends', Bool.or_self, Bool.not_false]

/-- **A program can be split between two runs** where nothing is left open. Let
the first part end without a limit on operations, every scan closed and no path
left over, and let the first executable name of the second part neither restyle
a line nor go on from its end. Then the second part, run where the first has
ended, ends exactly when the whole program does, and with the same machine. -/
theorem split_between_runs (operations : limits.operations = none) (first second : List Token)
    (m₁ : Machine) (ended : Ends limits level (.ofTokens first) m m₁)
    (closes : ∀ c, Steps limits level (.ofTokens first, m) c → ScanCloses limits c.1)
    (noPath : m₁.path.isEmpty = true)
    (apart : ∀ name op, second.findSome? Token.operator? = some name →
      Operator.ofName? name = some op → op.restyles = false ∧ op.extendsPath = false) :
    ∃ between, RunsFrom limits level m first between
      ∧ ∀ m', RunsFrom limits level between second m'
        ↔ RunsFrom limits level m (first ++ second) m' := by
  obtain ⟨s, m₀, steps, halted⟩ := ended.steps
  have live : m₀.isSpent limits = false := by simp [isSpent, operations]
  obtain ⟨last, rfl⟩ : s.next.1 = none ∧ m₁ = m₀ := by simpa [live] using halted
  have used : s.unread = [] := by
    rw [← List.head?_eq_none_iff, ← s.next_of_unread.1, last]
  have finished : m₁.finish = m₁ := finish_of_isEmpty noPath
  -- the whole program, up to where the first part ends
  have whole : Steps limits level (.ofTokens (first ++ second), m) (s.followedBy second, m₁) :=
    steps.append closes (endsLine_of_apart apart)
  have same : (s.followedBy second).next = (TokenStream.ofTokens second).next :=
    TokenStream.next_of_unread_nil used second
  refine ⟨m₁, runsFrom_iff.mpr ⟨m₁, ended, finished⟩, fun m' => ?_⟩
  rw [runsFrom_iff, runsFrom_iff]
  refine exists_congr fun m₂ => and_congr_left fun _ => ?_
  rw [whole.ends_iff]
  exact (ends_iff_of_next same).symm

/-- What holds here and of all that follows the one step from here holds of all
that follows. -/
theorem Step.forall_steps {P : TokenStream × Machine → Prop} {c c' : TokenStream × Machine}
    (h : Step limits level c c') (here : P c) (later : ∀ d, Steps limits level c' d → P d) :
    ∀ d, Steps limits level c d → P d := by
  intro d steps
  obtain rfl | ⟨c₁, first, rest⟩ := steps.cases_head
  · exact here
  · obtain rfl := h.unique first
    exact later d rest

/-- At the end of a stream nothing follows. -/
theorem forall_steps_of_next_none {P : TokenStream × Machine → Prop} {c : TokenStream × Machine}
    (h : c.1.next.1 = none) (here : P c) : ∀ d, Steps limits level c d → P d := by
  intro d steps
  obtain rfl | ⟨c₁, ⟨token, rest, fuel, next, -⟩, -⟩ := steps.cases_head
  · exact here
  · simp [next] at h

/-- A scan that closes in what is ahead does not depend on anything behind. -/
theorem scanCloses_of_next {s rest : TokenStream} {token : Token}
    (next : s.next = (some token, rest)) (closes : ¬ ScanRunsOut limits token rest.unread) :
    ScanCloses limits s := by
  intro token' rest' next'
  obtain ⟨rfl, rfl⟩ : token = token' ∧ rest = rest' := by simpa [next] using next'
  exact closes

/-- A program whose last token is a call, and whose last line waits for what
comes after it. -/
def drawsInCall : List Token :=
  [.name "f", .openBrace, .operator "moveto", .number "9", .number "9", .operator "lineto",
    .closeBrace, .operator "def", .operator "f"]

/-- The call is made twice, the second time in a run of its own. The line of the
first call waits for the second call, which is no operator by its name. -/
theorem split_between_runs_in_call :
    (∃ m', RunsFrom {} 0 initial (drawsInCall ++ [.operator "f"]) m')
    ∧ ∃ between, RunsFrom {} 0 initial drawsInCall between
      ∧ ∀ m', RunsFrom {} 0 between [.operator "f"] m'
        ↔ RunsFrom {} 0 initial (drawsInCall ++ [.operator "f"]) m' := by
  have whole : (initial.run {} 14 (drawsInCall ++ [.operator "f"])).isSome := by decide +kernel
  have ran : (execute {} 9 0 (.ofTokens drawsInCall) initial).map (·.path.isEmpty) = some true :=
    by decide +kernel
  obtain ⟨m₁, ended, noPath⟩ := Option.map_eq_some_iff.mp ran
  have closes : ∀ c, Steps {} 0 (.ofTokens drawsInCall, initial) c → ScanCloses {} c.1 := by
    iterate 8
      refine Step.forall_steps ⟨_, _, 0, rfl, rfl, rfl⟩ (scanCloses_of_next rfl nofun) ?_
    exact forall_steps_of_next_none rfl nofun
  obtain ⟨m', whole⟩ := Option.isSome_iff_exists.mp whole
  refine ⟨⟨m', 14, whole⟩, split_between_runs rfl drawsInCall [.operator "f"] m₁ ⟨9, ended⟩
    closes noPath ?_⟩
  intro name op found builtin
  cases found
  cases builtin

end Machine

end VectorPage
