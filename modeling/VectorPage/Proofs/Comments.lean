/-
Comments, and the remarks that they hold.

Markup allows no two hyphens in a row inside a comment. `partHyphens` goes over a
message once and puts a blank into each pair that it meets. It takes the hyphens
two by two, so there is no blank between the second hyphen of one pair and a hyphen
that follows: three hyphens in a row, and nothing else, leave two in a row behind.

Most remarks of a machine are fixed texts without such a run. The others end with
the name that could not be executed, and a name may have as many hyphens as it
likes.
-/
import VectorPage.Proofs.Additions
import VectorPage.Token.Lexer

set_option autoImplicit false

namespace VectorPage

/-! ## Runs of hyphens -/

/-- So many hyphens in a row. -/
def hyphens (n : Nat) : List Char :=
  List.replicate n '-'

/-- The characters of a message with a blank in each pair of hyphens, one pair after
the other. -/
def parted : List Char → List Char
  | '-' :: '-' :: rest => '-' :: ' ' :: '-' :: parted rest
  | c :: rest => c :: parted rest
  | [] => []

/-- What was done already is kept in front, in reverse. -/
theorem partHyphensOnto_eq (done cs : List Char) :
    partHyphensOnto done cs = done.reverse ++ parted cs := by
  fun_induction partHyphensOnto done cs with
  | case1 done rest ih => simp [ih, parted]
  | case2 done c rest single ih =>
    rw [ih, parted]
    · simp
    · exact single
  | case3 done => simp [parted]

theorem toList_partHyphens (s : String) : (partHyphens s).toList = parted s.toList := by
  rw [partHyphens, String.toList_ofList, partHyphensOnto_eq, List.reverse_nil, List.nil_append]

/-- Parting leaves the first character in its place. -/
theorem head?_parted (cs : List Char) : (parted cs).head? = cs.head? := by
  fun_cases parted cs <;> rfl

theorem hyphens_succ_prefix_iff {n : Nat} {c : Char} {cs : List Char} :
    hyphens (n + 1) <+: c :: cs ↔ c = '-' ∧ hyphens n <+: cs := by
  rw [hyphens, List.replicate_succ, List.cons_prefix_cons, eq_comm]
  rfl

theorem hyphens_one_prefix_iff {cs : List Char} : hyphens 1 <+: cs ↔ cs.head? = some '-' := by
  cases cs with
  | nil => simp [hyphens]
  | cons c rest => simp [hyphens, eq_comm]

/-- A shorter run stands wherever a longer one does. -/
theorem hyphens_one_prefix_of_two {cs : List Char} (h : hyphens 2 <+: cs) : hyphens 1 <+: cs := by
  cases cs with
  | nil => simp [hyphens] at h
  | cons c rest =>
    obtain ⟨is, -⟩ := hyphens_succ_prefix_iff.mp h
    exact hyphens_one_prefix_iff.mpr (congrArg some is)

/-- **Two hyphens in a row are left behind by three**, and by nothing else. -/
theorem pair_infix_parted_iff (cs : List Char) :
    hyphens 2 <:+: parted cs ↔ hyphens 3 <:+: cs := by
  fun_induction parted cs with
  | case1 rest ih =>
    -- what is left of this pair is its second hyphen, next to what follows
    have left : hyphens 2 <:+: '-' :: ' ' :: '-' :: parted rest
        ↔ hyphens 1 <+: rest ∨ hyphens 3 <:+: rest := by
      simp only [List.infix_cons_iff, hyphens_succ_prefix_iff, ih, hyphens_one_prefix_iff,
        head?_parted]
      simp
    have right : hyphens 3 <:+: '-' :: '-' :: rest
        ↔ hyphens 1 <+: rest ∨ hyphens 2 <+: rest ∨ hyphens 3 <:+: rest := by
      simp only [List.infix_cons_iff, hyphens_succ_prefix_iff, true_and]
    rw [left, right]
    exact ⟨Or.imp_right .inr,
      Or.rec .inl (Or.rec (fun two => .inl (hyphens_one_prefix_of_two two)) .inr)⟩
  | case2 c rest single ih =>
    -- a hyphen alone has no other behind it
    have alone : c = '-' → ¬ hyphens 1 <+: rest := by
      rintro rfl starts
      obtain ⟨rest', rfl⟩ := List.head?_eq_some_iff.mp (hyphens_one_prefix_iff.mp starts)
      exact single rest' rfl rfl
    have alone' : c = '-' → ¬ hyphens 1 <+: parted rest := by
      rw [hyphens_one_prefix_iff, head?_parted, ← hyphens_one_prefix_iff]
      exact alone
    simp only [List.infix_cons_iff, hyphens_succ_prefix_iff, ih]
    constructor
    · rintro (⟨is, starts⟩ | within)
      · exact absurd starts (alone' is)
      · exact .inr within
    · rintro (⟨is, starts⟩ | within)
      · exact absurd (hyphens_one_prefix_of_two starts) (alone is)
      · exact .inr within
  | case3 => simp [hyphens]

/-- **A message without two hyphens in a row stays as it is**, and no other does. -/
theorem parted_eq_self_iff (cs : List Char) : parted cs = cs ↔ ¬ hyphens 2 <:+: cs := by
  fun_induction parted cs with
  | case1 rest ih => simp [hyphens, List.infix_cons_iff]
  | case2 c rest single ih =>
    have alone : ¬ hyphens 2 <+: c :: rest := by
      intro starts
      obtain ⟨is, next⟩ := hyphens_succ_prefix_iff.mp starts
      obtain ⟨rest', rfl⟩ := List.head?_eq_some_iff.mp (hyphens_one_prefix_iff.mp next)
      exact single rest' is rfl
    rw [List.cons.injEq, ih, List.infix_cons_iff]
    simp [alone]
  | case3 => simp [hyphens]

/-- Blanks around a text make no run of hyphens. -/
theorem hyphens_infix_padded_iff (n : Nat) (cs : List Char) :
    hyphens (n + 1) <:+: ' ' :: (cs ++ [' ']) ↔ hyphens (n + 1) <:+: cs := by
  have tail : ¬ hyphens (n + 1) <:+ cs ++ [' '] := by
    intro ends
    rcases List.suffix_concat_iff.mp ends with empty | ⟨front, is, -⟩
    · simp [hyphens] at empty
    · rw [hyphens, List.replicate_succ', List.append_singleton_inj] at is
      exact absurd is.2 (by decide)
  rw [List.infix_cons_iff, hyphens_succ_prefix_iff, List.infix_concat_iff]
  simp [tail]

/-- A text without hyphens in front of a name adds to no run of them. -/
theorem hyphens_infix_append_iff {front : List Char} (unhyphened : '-' ∉ front) (n : Nat)
    (cs : List Char) : hyphens (n + 1) <:+: front ++ cs ↔ hyphens (n + 1) <:+: cs := by
  induction front with
  | nil => rfl
  | cons c front ih =>
    rw [List.mem_cons, not_or] at unhyphened
    rw [List.cons_append, List.infix_cons_iff, hyphens_succ_prefix_iff, ih unhyphened.2]
    simp [Ne.symm unhyphened.1]

/-! ## What stands in a comment -/

/-- What stands between the two marks of a comment. -/
def commentInside (message : String) : String :=
  " " ++ partHyphens message ++ " "

/-- A comment is what stands inside, between the two marks. -/
theorem commentMarkup_eq (message : String) :
    commentMarkup message = "<!--" ++ commentInside message ++ "-->" := by
  simp only [commentMarkup, commentInside, String.append_assoc]
  rfl

/-- Inside there is the parted message and a blank on either side, so the marks are
never met by a hyphen of the message. -/
theorem toList_commentInside (message : String) :
    (commentInside message).toList = ' ' :: (parted message.toList ++ [' ']) := by
  simp [commentInside, toList_partHyphens]

/-- **Two hyphens are left just if there were three.** Parting goes through the text
once and puts a blank into each pair it meets, so of three in a row the last two stay
side by side. -/
theorem pair_infix_commentInside_iff (message : String) :
    hyphens 2 <:+: (commentInside message).toList ↔ hyphens 3 <:+: message.toList := by
  rw [toList_commentInside, hyphens_infix_padded_iff, pair_infix_parted_iff]

/-- A message without a pair is left as it is. -/
theorem commentInside_eq_iff (message : String) :
    commentInside message = " " ++ message ++ " " ↔ ¬ hyphens 2 <:+: message.toList := by
  have padded : (" " ++ message ++ " ").toList = ' ' :: (message.toList ++ [' ']) := by simp
  rw [← String.toList_inj, toList_commentInside, padded, List.cons.injEq, List.append_left_inj,
    parted_eq_self_iff]
  simp

namespace Machine

/-! ## Which remarks there are -/

/-- The remarks that are the same in every program. -/
def fixedRemarks : List String :=
  [literalRemark, "execution limit reached", "shfill not fully implemented",
    "image/imagemask not implemented"]

theorem not_three_hyphens_of_fixed {message : String} (fixed : message ∈ fixedRemarks) :
    ¬ hyphens 3 <:+: message.toList := by
  have all : ∀ message ∈ fixedRemarks, ¬ hyphens 3 <:+: message.toList := by
    decide +kernel
  exact all message fixed

/-- In a remark that names something, all hyphens are those of the name. -/
theorem three_hyphens_iff_of_name {name message : String} (names : message ∈ nameRemarks name) :
    hyphens 3 <:+: message.toList ↔ hyphens 3 <:+: name.toList := by
  simp only [nameRemarks, List.mem_cons, List.not_mem_nil, or_false] at names
  rcases names with rfl | rfl <;> rw [String.toList_append] <;>
    exact hyphens_infix_append_iff (by decide +kernel) 2 name.toList

section Remarks

variable {limits : Limits} {level : Nat} {m m' : Machine} {message : String}

/-- An operator makes no other remarks than fixed ones. -/
theorem fixed_of_added {s : TokenStream} {op : Operator} (here : .comment message ∈ m.added s op) :
    message ∈ fixedRemarks := by
  rcases List.mem_append.mp here with painted | other
  · cases isPath_of_painted painted
  · cases op with
    | shadingFill =>
      rcases drawn : m.shading? with _ | _ | parts <;> simp [substituted, drawn] at other
      simp [fixedRemarks, other]
    | image =>
      simp only [substituted, List.mem_cons, Shape.comment.injEq, reduceCtorEq, List.not_mem_nil,
        or_false] at other
      simp [fixedRemarks, other]
    | _ => cases other

/-- **A name was remarked on**: it was the next token, and executing it added the
remark to the shapes. -/
def NameRemarked (limits : Limits) (level : Nat) (name message : String) (m m' : Machine) : Prop :=
  ∃ s s', s.next.1 = some (.operator name) ∧ Step limits level (s, m) (s', m')
    ∧ message ∈ nameRemarks name ∧ m'.picture.shapes = m.picture.shapes.push (.comment message)

/-- **A remark of the picture** was there before the move, or is a fixed one, or
names the token that is executed. -/
theorem Move.remarks (moves : Moves limits level initial m) (move : Move limits level m m')
    (here : .comment message ∈ m'.picture.shapes.toList) :
    .comment message ∈ m.picture.shapes.toList ∨ message ∈ fixedRemarks
    ∨ ∃ name, NameRemarked limits level name message m m' := by
  obtain ⟨-, nested⟩ := Identified.of_moves moves
  -- a comment pushed now is the one in question, or that one is older
  have of_push {text : String} (shapes : m'.picture.shapes = m.picture.shapes.push (.comment text)) :
      .comment message ∈ m.picture.shapes.toList ∨ message = text := by
    rw [shapes, Array.toList_push] at here
    simpa using here
  cases move with
  | @step s s' _ _ step =>
    cases stands : operatorAt? (s, m) with
    | some op =>
      have shapes := step.shapes_of_operator nested stands
      dsimp only at shapes
      rw [shapes] at here
      rcases List.mem_append.mp here with old | new
      · exact .inl old
      · exact .inr (.inl (fixed_of_added new))
    | none =>
      cases step.shapes_of_other stands with
      | silent same => exact .inl (same ▸ here)
      | @remark text remarks shapes =>
        obtain old | rfl := of_push shapes
        · exact .inl old
        · cases remarks with
          | name next names => exact .inr (.inr ⟨_, s, s', next, step, names, shapes⟩)
          | literal => exact .inr (.inl (by simp [fixedRemarks]))
  | stop =>
    obtain old | rfl := of_push rfl
    · exact .inl old
    · exact .inr (.inl (by simp [fixedRemarks]))
  -- the end of a run paints, and leaves no remark
  | finish =>
    rw [Machine.finish, paintPath_shapes] at here
    rcases List.mem_append.mp here with old | new
    · exact .inl old
    · cases isPath_of_pathAs new

/-- **Where the remarks of a picture come from**: each is one of the fixed ones, or was
made when a name was executed. -/
theorem remarks_of_moves (moves : Moves limits level initial m)
    (here : .comment message ∈ m.picture.shapes.toList) :
    message ∈ fixedRemarks ∨ ∃ name, Happened limits level m
      (NameRemarked limits level name message) := by
  induction moves with
  | refl => cases here
  | @tail m m' moves move ih =>
    rcases move.remarks moves here with old | fixed | ⟨name, remarked⟩
    · exact (ih old).imp_right fun ⟨name, happened⟩ => ⟨name, happened.later move⟩
    · exact .inl fixed
    · exact .inr ⟨name, .now moves move remarked⟩

/-- The words around a name in a remark have no hyphens, so a run of them is the
name's. -/
theorem three_hyphens_iff_of_happened {name : String}
    (h : Happened limits level m (NameRemarked limits level name message)) :
    hyphens 3 <:+: message.toList ↔ hyphens 3 <:+: name.toList := by
  obtain ⟨before, after, -, -, -, s, s', -, -, names, -⟩ := h
  exact three_hyphens_iff_of_name names

end Remarks

/-- **A comment breaks at three hyphens in a row.** Whatever the message, what stands
between the marks of its comment has two hyphens in a row if and only if the message
has three, and it is the message itself between blanks if and only if the message
has no two. And in every reachable machine, a comment of the picture has two hyphens
in a row if and only if it is a remark on an unknown operator or on a refused call,
made when the name was executed in a life that leads to the machine, and that name
has three. -/
theorem comments_break_at_three_hyphens {limits : Limits} {level : Nat} {m : Machine}
    (reachable : Reachable limits level m) (message : String) :
    commentMarkup message = "<!--" ++ commentInside message ++ "-->"
    ∧ (hyphens 2 <:+: (commentInside message).toList ↔ hyphens 3 <:+: message.toList)
    ∧ (commentInside message = " " ++ message ++ " " ↔ ¬ hyphens 2 <:+: message.toList)
    ∧ (.comment message ∈ m.picture.shapes.toList →
        (hyphens 2 <:+: (commentInside message).toList
          ↔ ∃ name, hyphens 3 <:+: name.toList
              ∧ Happened limits level m (NameRemarked limits level name message))) := by
  refine ⟨commentMarkup_eq message, pair_infix_commentInside_iff message,
    commentInside_eq_iff message, ?_⟩
  intro here
  rw [pair_infix_commentInside_iff]
  constructor
  · intro three
    rcases remarks_of_moves reachable.moves here with fixed | ⟨name, happened⟩
    · exact absurd three (not_three_hyphens_of_fixed fixed)
    · exact ⟨name, (three_hyphens_iff_of_happened happened).mp three, happened⟩
  · rintro ⟨name, three, happened⟩
    exact (three_hyphens_iff_of_happened happened).mpr three

/-- An unknown operator with two hyphens in its name, and a call refused to a
procedure with three in its name: the second comment breaks. -/
theorem comments_break_at_three_hyphens_refused :
    ∃ m : Machine, Reachable { calls := some 0 } 0 m
      ∧ m.picture.fragments.shapes
        = ["<!-- Unhandled operator: a- -b -->",
          "<!-- procedure expansion limit reached: c- --d -->"]
      ∧ ∀ message, commentMarkup message = "<!--" ++ commentInside message ++ "-->"
        ∧ (hyphens 2 <:+: (commentInside message).toList ↔ hyphens 3 <:+: message.toList)
        ∧ (commentInside message = " " ++ message ++ " " ↔ ¬ hyphens 2 <:+: message.toList)
        ∧ (.comment message ∈ m.picture.shapes.toList →
            (hyphens 2 <:+: (commentInside message).toList
              ↔ ∃ name, hyphens 3 <:+: name.toList
                  ∧ Happened { calls := some 0 } 0 m
                      (NameRemarked { calls := some 0 } 0 name message))) := by
  have ran : (initial.run { calls := some 0 } 10 (tokenize "a--b /c---d { } def c---d")).map
        (·.picture.fragments.shapes)
      = some ["<!-- Unhandled operator: a- -b -->",
          "<!-- procedure expansion limit reached: c- --d -->"] := by decide +kernel
  obtain ⟨m, ran, shapes⟩ := Option.map_eq_some_iff.mp ran
  have reachable := Reachable.of_run ran
  exact ⟨m, reachable, shapes, comments_break_at_three_hyphens reachable⟩

/-- **A name can break the comment on it.** Three hyphens in the name of an unknown
operator leave two in a row inside the comment. -/
theorem name_breaks_its_comment :
    tokenize "a---b" = [.operator "a---b"]
    ∧ (initial.run {} 5 (tokenize "a---b")).map (·.picture.fragments.shapes)
        = some ["<!-- Unhandled operator: a- --b -->"]
    ∧ commentMarkup "Unhandled operator: a---b" = "<!--" ++ " Unhandled operator: a- --b " ++ "-->"
    ∧ ['-', '-'] <:+: " Unhandled operator: a- --b ".toList := by
  refine ⟨?_, ?_, ?_, ?_⟩ <;> decide +kernel

end Machine

end VectorPage
