/-!
Terminal control sequences: escape, `[`, parameters (digits, `;` and `?`), and a closing letter.
`plain` removes them from a text.
-/

namespace OnePass.Text

def isParameter (c : Char) : Bool := c.isDigit || c == ';' || c == '?'

/-- What follows a control sequence whose escape character has been read. -/
def afterControl? : List Char → Option (List Char)
  | '[' :: cs =>
    match cs.dropWhile isParameter with
    | c :: rest => if c.isAlpha then some rest else none
    | [] => none
  | _ => none

theorem length_afterControl? {cs rest : List Char} (h : afterControl? cs = some rest) :
    rest.length < cs.length := by
  unfold afterControl? at h
  split at h
  next cs =>
    have shorter := (List.dropWhile_sublist (l := cs) isParameter).length_le
    split at h
    next c tail dropped =>
      rw [dropped] at shorter
      split at h
      · cases h
        simp at shorter ⊢
        omega
      · cases h
    · cases h
  · cases h

def plain (cs : List Char) : List Char :=
  match cs with
  | [] => []
  | c :: cs =>
    if c = '\x1b' then
      match _follows : afterControl? cs with
      | some rest => plain rest
      | none => c :: plain cs
    else c :: plain cs
termination_by cs.length
decreasing_by
  · have := length_afterControl? _follows
    simp only [List.length_cons]
    omega
  · simp
  · simp

end OnePass.Text
