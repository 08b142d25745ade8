import OnePass.Cursor
import OnePass.Diagnostic
import OnePass.Text.Blank

/-!
Scanning: the next token at a cursor. A digit starts the longest run of digits, a letter the
longest run of letters and digits, and any other character has to be a mark. Main statement: a
token that is not the end of the input, and equally a refusal, takes at least one character.
-/

namespace OnePass.Token

/-- The digits of a literal that count: without leading zeros, but never none. -/
def significant (literal : List Char) : List Char :=
  match literal.dropWhile (· == '0') with
  | [] => ['0']
  | ds => ds

/-- The value of a literal, unless it is greater than a limit. A literal with more digits than the
limit's text is refused unread. The sign of a negative limit lets a literal pass that has one digit
more than the limit, and that can be more than are ever read. -/
def literalValue (limit : Int) (literal : List Char) : Except Diagnostic.Cause Nat :=
  let ds := significant literal
  let outOfRange := .integerOutOfRange (String.ofList literal) limit
  if (toString limit).length < ds.length then .error outOfRange
  else if limit < 0 ∧ Text.Numeral.maxDigits < ds.length then .error (.tooManyDigits ds.length)
  else
    let n := Nat.ofDigitChars 10 ds 0
    if (n : Int) ≤ limit then .ok n else .error outOfRange

/-- A diagnostic at the place where a lexeme starts. -/
def refusal (c : Cursor) (cause : Diagnostic.Cause) : Diagnostic :=
  ⟨cause, some c.here, some (c.lineText c.here.line)⟩

def scanNumeral (limit : Int) (c : Cursor) : Except Diagnostic Token × Cursor :=
  let literal := c.run Char.isDigit
  let next := c.skip Char.isDigit
  match literalValue limit literal with
  | .ok n => (.ok ⟨.uint, .number n, c.here, next.here⟩, next)
  | .error cause => (.error (refusal c cause), next)

def scanWord (c : Cursor) : Except Diagnostic Token × Cursor :=
  let word := String.ofList (c.run Char.isAlphanum)
  let next := c.skip Char.isAlphanum
  (.ok ⟨Kind.ofWord word, .text word, c.here, next.here⟩, next)

def scanMark (c : Cursor) (ch : Char) : Except Diagnostic Token × Cursor :=
  let next := c.advance
  match Kind.ofMark? ch with
  | some k => (.ok ⟨k, .text ch.toString, c.here, next.here⟩, next)
  | none => (.error (refusal c (.invalidCharacter ch)), next)

/-- The next token, or the reason why there is none, and the cursor behind it. At the end of the
text the token is always `eof`. -/
def scan (limit : Int) (c : Cursor) : Except Diagnostic Token × Cursor :=
  let c := c.skip Text.isBlank
  match c.rest with
  | [] => (.ok ⟨.eof, .nothing, c.here, c.here⟩, c)
  | ch :: _ =>
    if ch.isDigit then scanNumeral limit c
    else if ch.isAlpha then scanWord c
    else scanMark c ch

theorem length_rest_skip_lt {c : Cursor} {p : Char → Bool} {ch : Char} {rest : List Char}
    (ahead : c.rest = ch :: rest) (belongs : p ch = true) :
    (c.skip p).rest.length < c.rest.length := by
  rw [Cursor.rest_skip, ahead, List.dropWhile_cons_of_pos belongs]
  simpa using Nat.lt_succ_of_le (List.dropWhile_sublist p).length_le

theorem rest_scanNumeral (limit : Int) (c : Cursor) :
    (scanNumeral limit c).2 = c.skip Char.isDigit := by
  unfold scanNumeral
  dsimp only
  split <;> rfl

theorem rest_scanMark (c : Cursor) (ch : Char) : (scanMark c ch).2 = c.advance := by
  unfold scanMark
  dsimp only
  split <;> rfl

/-- Scanning reaches the end of the input or passes a character. -/
theorem scan_progress (limit : Int) (c : Cursor) :
    (∃ here next, scan limit c = (.ok ⟨.eof, .nothing, here, here⟩, next) ∧ next.rest = []) ∨
      (scan limit c).2.rest.length < c.rest.length := by
  have blanks := c.length_rest_skip_le Text.isBlank
  unfold scan
  dsimp only
  split
  next ended => exact .inl ⟨_, _, rfl, ended⟩
  next ch rest ahead =>
    refine .inr (Nat.lt_of_lt_of_le ?_ blanks)
    split
    next digit =>
      rw [rest_scanNumeral]
      exact length_rest_skip_lt ahead digit
    next =>
      split
      next letter =>
        exact length_rest_skip_lt ahead (by simp [Char.isAlphanum, letter])
      next =>
        rw [rest_scanMark, Cursor.rest_advance, ahead]
        simp

end OnePass.Token
