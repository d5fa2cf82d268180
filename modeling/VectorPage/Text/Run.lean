/-
The longest run of characters of one class at the front of a text.
-/
set_option autoImplicit false

namespace VectorPage

/-- The longest run at the front whose characters all satisfy `p`, and what
follows it. -/
def takeRun (p : Char → Bool) (cs : List Char) : List Char × List Char :=
  (cs.takeWhile p, cs.dropWhile p)

/-- The run and what follows it make up the text. -/
theorem takeRun_append (p : Char → Bool) (cs : List Char) :
    (takeRun p cs).1 ++ (takeRun p cs).2 = cs :=
  List.takeWhile_append_dropWhile

end VectorPage
