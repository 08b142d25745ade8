import OnePass.Text.Pieces

/-!
Lines of a text. Only a line feed ends a line; `normalizeNewlines` turns the two other customary
line ends into it.
-/

namespace OnePass.Text

def lines (cs : List Char) : List (List Char) := pieces '\n' cs

/-- The line with a number counted from 1, empty where the text has none. -/
def lineAt (cs : List Char) (n : Int) : List Char :=
  if 1 ≤ n then (lines cs).getD (n - 1).toNat [] else []

/-- Read a carriage return, alone or before a line feed, as a line feed. -/
def normalizeNewlines : List Char → List Char
  | [] => []
  | '\r' :: '\n' :: cs => '\n' :: normalizeNewlines cs
  | c :: cs => (if c = '\r' then '\n' else c) :: normalizeNewlines cs

theorem normalizeNewlines_of_no_return {cs : List Char} (h : '\r' ∉ cs) :
    normalizeNewlines cs = cs := by
  fun_induction normalizeNewlines cs with
  | case1 => rfl
  | case2 cs ih => simp at h
  | case3 c cs _ ih =>
    simp only [List.mem_cons, not_or] at h
    simp [ih h.2, Ne.symm h.1]

end OnePass.Text
