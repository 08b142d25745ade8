/-!
Cutting a text at a separator. A text always has at least one piece, and joining the pieces with
the separator gives the text back.
-/

namespace OnePass.Text

/-- Put a character in front of pieces: it begins a new piece or belongs to the first one. -/
def addToPieces (separator c : Char) (ps : List (List Char)) : List (List Char) :=
  if c = separator then [] :: ps
  else
    match ps with
    | [] => [[c]]
    | p :: ps => (c :: p) :: ps

def pieces (separator : Char) (cs : List Char) : List (List Char) :=
  cs.foldr (addToPieces separator) [[]]

@[simp]
theorem pieces_nil (separator : Char) : pieces separator [] = [[]] := rfl

theorem pieces_cons (separator c : Char) (cs : List Char) :
    pieces separator (c :: cs) = addToPieces separator c (pieces separator cs) := rfl

@[simp]
theorem pieces_separator (separator : Char) (cs : List Char) :
    pieces separator (separator :: cs) = [] :: pieces separator cs := by
  simp [pieces_cons, addToPieces]

theorem pieces_ne_nil (separator : Char) (cs : List Char) : pieces separator cs ≠ [] := by
  cases cs with
  | nil => simp
  | cons c cs =>
    rw [pieces_cons]
    unfold addToPieces
    split
    · simp
    · split <;> simp

theorem intercalate_pieces (separator : Char) (cs : List Char) :
    [separator].intercalate (pieces separator cs) = cs := by
  induction cs with
  | nil => rfl
  | cons c cs inductionHypothesis =>
    rw [pieces_cons]
    unfold addToPieces
    cases rest : pieces separator cs with
    | nil => exact absurd rest (pieces_ne_nil separator cs)
    | cons p ps =>
      rw [rest] at inductionHypothesis
      split
      next same => simp_all [List.intercalate]
      next => cases ps <;> simp_all [List.intercalate]

end OnePass.Text
