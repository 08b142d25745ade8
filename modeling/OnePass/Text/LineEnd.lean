import OnePass.Text.Line

/-!
How editors end the lines of a file. `saved` is the content of a file that holds a text with one of
the three customary line ends throughout.
-/

namespace OnePass.Text

inductive LineEnd where
  | lineFeed
  | returnAndLineFeed
  | carriageReturn
  deriving DecidableEq

namespace LineEnd

def chars : LineEnd → List Char
  | lineFeed => ['\n']
  | returnAndLineFeed => ['\r', '\n']
  | carriageReturn => ['\r']

/-- A text with this line end in place of each line feed. -/
def write (e : LineEnd) (cs : List Char) : List Char :=
  cs.flatMap fun c => if c = '\n' then e.chars else [c]

def saved (e : LineEnd) (s : String) : ByteArray := (String.ofList (e.write s.toList)).toUTF8

@[simp]
theorem write_nil (e : LineEnd) : e.write [] = [] := rfl

@[simp]
theorem write_lineFeed (e : LineEnd) (cs : List Char) :
    e.write ('\n' :: cs) = e.chars ++ e.write cs := rfl

theorem write_cons (e : LineEnd) {c : Char} (h : c ≠ '\n') (cs : List Char) :
    e.write (c :: cs) = c :: e.write cs := by
  rw [write, List.flatMap_cons, if_neg h]
  rfl

end LineEnd
end OnePass.Text
