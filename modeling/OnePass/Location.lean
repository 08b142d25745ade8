/-!
Places in a text: the name of the text, and a line and a column counted from 1. A column counts
characters. A location that comes from elsewhere may hold any integers.
-/

namespace OnePass

structure Location where
  file : String
  line : Int
  column : Int
  deriving DecidableEq

namespace Location

def start (file : String) : Location := ⟨file, 1, 1⟩

/-- The place behind a character that stands at a place. -/
def after (l : Location) (c : Char) : Location :=
  if c = '\n' then { l with line := l.line + 1, column := 1 } else { l with column := l.column + 1 }

/-- The place behind a run of characters. -/
def afterAll (l : Location) (cs : List Char) : Location := cs.foldl after l

def text (l : Location) : String :=
  l.file ++ ":" ++ toString l.line ++ ":" ++ toString l.column

@[simp]
theorem file_after (l : Location) (c : Char) : (l.after c).file = l.file := by
  unfold after
  split <;> rfl

@[simp]
theorem afterAll_nil (l : Location) : l.afterAll [] = l := rfl

@[simp]
theorem afterAll_cons (l : Location) (c : Char) (cs : List Char) :
    l.afterAll (c :: cs) = (l.after c).afterAll cs := rfl

@[simp]
theorem afterAll_append (l : Location) (a b : List Char) :
    l.afterAll (a ++ b) = (l.afterAll a).afterAll b := List.foldl_append

@[simp]
theorem file_afterAll (l : Location) (cs : List Char) : (l.afterAll cs).file = l.file := by
  induction cs generalizing l with
  | nil => rfl
  | cons c cs inductionHypothesis => simp [inductionHypothesis]

end Location
end OnePass
