import OnePass.Diagnostic
import OnePass.Text.Blank

/-!
Spelling: which texts the tokens come from. A text is laid out as lexemes with blanks before each
of them and at the end. Two lexemes need a blank between them where the second would continue the
first. Some lexemes are no tokens: a character that is no mark, and a numeral above the limit.
-/

namespace OnePass

inductive Lexeme where
  | word (cs : List Char)
  | numeral (ds : List Char)
  | mark (c : Char)
  deriving DecidableEq

namespace Lexeme

def spelling : Lexeme → List Char
  | word cs => cs
  | numeral ds => ds
  | mark c => [c]

def isValid : Lexeme → Bool
  | word [] => false
  | word (c :: cs) => c.isAlpha && cs.all Char.isAlphanum
  | numeral ds => !ds.isEmpty && ds.all Char.isDigit
  | mark c => (Token.Kind.ofMark? c).isSome

/-- What a character that is not blank can begin: a word, a numeral, or any other single one. -/
def isFormed : Lexeme → Bool
  | mark c => !Text.isBlank c && !c.isAlphanum
  | x => x.isValid

/-- Why a lexeme is not a token under a limit, if it is none. A numeral above a negative limit can
be too long to be read, and yet not longer than the limit's text. -/
def fault? (limit : Int) : Lexeme → Option Diagnostic.Cause
  | word _ => none
  | numeral ds =>
    let count := (ds.dropWhile (· == '0')).length
    if (Nat.ofDigitChars 10 ds 0 : Int) ≤ limit then none
    else if limit < 0 ∧ Text.Numeral.maxDigits < count ∧ count ≤ (toString limit).length then
      some (.tooManyDigits count)
    else some (.integerOutOfRange (String.ofList ds) limit)
  | mark c => if (Token.Kind.ofMark? c).isSome then none else some (.invalidCharacter c)

def kind : Lexeme → Token.Kind
  | word cs => .ofWord (String.ofList cs)
  | numeral _ => .uint
  | mark c => (Token.Kind.ofMark? c).getD .eof

def value : Lexeme → Token.Value
  | word cs => .text (String.ofList cs)
  | numeral ds => .number (Nat.ofDigitChars 10 ds 0)
  | mark c => .text c.toString

/-- Whether a character would continue a lexeme. -/
def continues : Lexeme → Char → Bool
  | word _, c => c.isAlphanum
  | numeral _, c => c.isDigit
  | mark _, _ => false

/-- The token of a lexeme that starts at a place. -/
def token (l : Lexeme) (start : Location) : Token :=
  ⟨l.kind, l.value, start, start.afterAll l.spelling⟩

theorem isValid_word {cs : List Char} :
    (word cs).isValid = true ↔
      ∃ c rest, cs = c :: rest ∧ c.isAlpha = true ∧ ∀ ch ∈ rest, ch.isAlphanum = true := by
  constructor
  · intro valid
    cases cs with
    | nil => simp [isValid] at valid
    | cons c rest => exact ⟨c, rest, rfl, by simpa [isValid] using valid⟩
  · rintro ⟨c, rest, rfl, letter, letters⟩
    simpa [isValid, letter] using letters

theorem isValid_numeral {ds : List Char} :
    (numeral ds).isValid = true ↔ ds ≠ [] ∧ ∀ d ∈ ds, d.isDigit = true := by
  simp [isValid]

theorem isAlphanum_of_isValid_word {cs : List Char} (valid : (word cs).isValid = true) :
    ∀ ch ∈ cs, ch.isAlphanum = true := by
  obtain ⟨c, rest, rfl, letter, letters⟩ := isValid_word.mp valid
  exact List.forall_mem_cons.mpr ⟨by simp [Char.isAlphanum, letter], letters⟩

theorem spelling_ne_nil {l : Lexeme} (valid : l.isValid = true) : l.spelling ≠ [] := by
  cases l with
  | word cs => cases cs <;> simp_all [isValid, spelling]
  | numeral ds => cases ds <;> simp_all [isValid, spelling]
  | mark c => simp [spelling]

end Lexeme

/-- Lexemes, each with the blanks before it, and the blanks at the end. -/
structure Layout where
  lexemes : List (List Char × Lexeme)
  trailing : List Char
  deriving DecidableEq

namespace Layout

def text (l : Layout) : List Char :=
  l.lexemes.flatMap (fun (gap, x) => gap ++ x.spelling) ++ l.trailing

def tokensFrom (start : Location) : List (List Char × Lexeme) → List Char → List Token
  | [], trailing =>
    let here := start.afterAll trailing
    [⟨.eof, .nothing, here, here⟩]
  | (gap, x) :: rest, trailing =>
    let here := start.afterAll gap
    x.token here :: tokensFrom (here.afterAll x.spelling) rest trailing

/-- The tokens of a text that is laid out so. -/
def tokens (l : Layout) (start : Location) : List Token := tokensFrom start l.lexemes l.trailing

/-- No lexeme is continued by the next one. -/
def isSeparated : List (List Char × Lexeme) → Bool
  | (_, x) :: (gap, y) :: rest =>
    (!gap.isEmpty || !(y.spelling.head?.any x.continues)) && isSeparated ((gap, y) :: rest)
  | _ => true

/-- Every lexeme is a token under a limit. -/
def isWithin (limit : Int) (l : Layout) : Bool :=
  l.lexemes.all fun (_, x) => (x.fault? limit).isNone

def isValid (l : Layout) : Bool :=
  l.lexemes.all (fun (gap, x) => gap.all Text.isBlank && x.isValid) &&
    l.trailing.all Text.isBlank && isSeparated l.lexemes

end Layout
end OnePass
