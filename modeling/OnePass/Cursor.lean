import OnePass.Location
import OnePass.Text.Line

/-!
Reading a text from its beginning to its end. A cursor knows the whole text, what is left of it,
the place of the next character and the place of the last one read.
-/

namespace OnePass

structure Cursor where
  source : List Char
  rest : List Char
  here : Location
  previous : Location
  deriving DecidableEq

namespace Cursor

/-- At the beginning of a text. -/
def start (file source : String) : Cursor :=
  ⟨source.toList, source.toList, .start file, .start file⟩

def file (c : Cursor) : String := c.here.file

def peek (c : Cursor) : Option Char := c.rest.head?

def atEnd (c : Cursor) : Bool := c.rest.isEmpty

/-- Pass one character, if there is one. -/
def advance (c : Cursor) : Cursor :=
  match c.rest with
  | [] => c
  | ch :: rest => { c with rest := rest, here := c.here.after ch, previous := c.here }

def advanceBy (c : Cursor) : Nat → Cursor
  | 0 => c
  | n + 1 => c.advance.advanceBy n

/-- The characters ahead that belong to a class, as many as there are. -/
def run (c : Cursor) (p : Char → Bool) : List Char := c.rest.takeWhile p

/-- Pass the characters ahead that belong to a class. -/
def skip (c : Cursor) (p : Char → Bool) : Cursor := c.advanceBy (c.run p).length

def lines (c : Cursor) : List String := (Text.lines c.source).map String.ofList

def lineText (c : Cursor) (line : Int) : String := String.ofList (Text.lineAt c.source line)

@[simp]
theorem source_advance (c : Cursor) : c.advance.source = c.source := by
  unfold advance
  split <;> rfl

@[simp]
theorem rest_advance (c : Cursor) : c.advance.rest = c.rest.tail := by
  unfold advance
  split <;> simp_all

theorem here_advance (c : Cursor) : c.advance.here = c.here.afterAll (c.rest.take 1) := by
  unfold advance
  split <;> simp_all

@[simp]
theorem source_advanceBy (c : Cursor) (n : Nat) : (c.advanceBy n).source = c.source := by
  induction n generalizing c with
  | zero => rfl
  | succ n inductionHypothesis => simp [advanceBy, inductionHypothesis]

@[simp]
theorem rest_advanceBy (c : Cursor) (n : Nat) : (c.advanceBy n).rest = c.rest.drop n := by
  induction n generalizing c with
  | zero => rfl
  | succ n inductionHypothesis => simp [advanceBy, inductionHypothesis]

@[simp]
theorem here_advanceBy (c : Cursor) (n : Nat) :
    (c.advanceBy n).here = c.here.afterAll (c.rest.take n) := by
  induction n generalizing c with
  | zero => rfl
  | succ n inductionHypothesis =>
    simp only [advanceBy, inductionHypothesis, here_advance, rest_advance]
    cases c.rest <;> simp

@[simp]
theorem source_skip (c : Cursor) (p : Char → Bool) : (c.skip p).source = c.source :=
  source_advanceBy ..

theorem rest_skip (c : Cursor) (p : Char → Bool) : (c.skip p).rest = c.rest.dropWhile p := by
  simp only [skip, run, rest_advanceBy]
  induction c.rest with
  | nil => rfl
  | cons ch rest inductionHypothesis =>
    by_cases h : p ch <;> simp [h, inductionHypothesis]

theorem here_skip (c : Cursor) (p : Char → Bool) : (c.skip p).here = c.here.afterAll (c.run p) := by
  simp only [skip, run, here_advanceBy]
  congr 1
  induction c.rest with
  | nil => rfl
  | cons ch rest inductionHypothesis =>
    by_cases h : p ch <;> simp [h, inductionHypothesis]

theorem run_append_rest_skip (c : Cursor) (p : Char → Bool) :
    c.run p ++ (c.skip p).rest = c.rest := by
  rw [rest_skip]
  exact List.takeWhile_append_dropWhile

theorem length_rest_skip_le (c : Cursor) (p : Char → Bool) :
    (c.skip p).rest.length ≤ c.rest.length := by
  simp [skip]

end Cursor
end OnePass
