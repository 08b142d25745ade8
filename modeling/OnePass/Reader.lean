import OnePass.Cursor

/-!
A reader of a text answers one request after the other. It splits the text into lines when it is
asked for a line the first time, and keeps them.
-/

namespace OnePass

namespace Reader

inductive Request where
  | peek
  | advance
  | atEnd
  | location
  | previous
  | lines
  | lineText (line : Int)
  deriving DecidableEq

inductive Answer where
  | char (c : Option Char)
  | flag (b : Bool)
  | place (l : Location)
  | lines (ls : List String)
  | text (s : String)
  deriving DecidableEq

/-- The characters that an answer takes from the text. -/
def Answer.taken : Request → Answer → List Char
  | .advance, .char c => c.toList
  | _, _ => []

/-- The line with a number counted from 1, empty where there is none. -/
def lineIn (ls : List String) (n : Int) : String :=
  if 1 ≤ n ∧ n ≤ ls.length then ls.getD (n - 1).toNat "" else ""

end Reader

structure Reader where
  cursor : Cursor
  kept : Option (List String)
  deriving DecidableEq

namespace Reader

/-- At the beginning of a text, before anybody has asked for a line. -/
def start (file source : String) : Reader := ⟨.start file source, none⟩

/-- The lines of the text, and the reader that keeps them. -/
def lines (r : Reader) : List String × Reader :=
  match r.kept with
  | some ls => (ls, r)
  | none => (r.cursor.lines, { r with kept := some r.cursor.lines })

/-- The answer to a request, and the reader behind it. -/
def answer (r : Reader) : Request → Answer × Reader
  | .peek => (.char r.cursor.peek, r)
  | .advance => (.char r.cursor.peek, { r with cursor := r.cursor.advance })
  | .atEnd => (.flag r.cursor.atEnd, r)
  | .location => (.place r.cursor.here, r)
  | .previous => (.place r.cursor.previous, r)
  | .lines => (.lines r.lines.1, r.lines.2)
  | .lineText n => (.text (lineIn r.lines.1 n), r.lines.2)

/-- The reader behind requests. -/
def after (r : Reader) : List Request → Reader
  | [] => r
  | q :: qs => (r.answer q).2.after qs

def answers (r : Reader) : List Request → List Answer
  | [] => []
  | q :: qs => (r.answer q).1 :: (r.answer q).2.answers qs

/-- The characters that requests take from the text, joined. -/
def taken (r : Reader) : List Request → List Char
  | [] => []
  | q :: qs => (r.answer q).1.taken q ++ (r.answer q).2.taken qs

end Reader
end OnePass
