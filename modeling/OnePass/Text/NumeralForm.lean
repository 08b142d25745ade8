import Mathlib.Data.Nat.Digits.Defs
import OnePass.Text.Numeral

/-!
The form of an integer in a setting, part by part: what stands around it, its sign, and its digits.
The number is the one whose decimal digits these are.
-/

namespace OnePass.Text.Numeral

/-- A run of digits with their values. Single underscores may stand between two digits. -/
inductive IsDigits : List Char → List Nat → Prop where
  | single {c : Char} {d : Nat} : digitValue? c = some d → IsDigits [c] [d]
  | next {c : Char} {d : Nat} {cs : List Char} {ds : List Nat} :
      digitValue? c = some d → IsDigits cs ds → IsDigits (c :: cs) (d :: ds)
  | apart {c : Char} {d : Nat} {cs : List Char} {ds : List Nat} :
      digitValue? c = some d → IsDigits cs ds → IsDigits (c :: '_' :: cs) (d :: ds)

inductive Sign where
  | none
  | plus
  | minus
  deriving DecidableEq

namespace Sign

def chars : Sign → List Char
  | none => []
  | plus => ['+']
  | minus => ['-']

def apply : Sign → Nat → Int
  | none, n | plus, n => n
  | minus, n => -n

end Sign

/-- The parts of a written integer. -/
structure Form where
  before : List Char
  sign : Sign
  digits : List Char
  values : List Nat
  after : List Char
  isMargin_before : ∀ c ∈ before, isMargin c = true
  isDigits : IsDigits digits values
  length_le : values.length ≤ maxDigits
  isMargin_after : ∀ c ∈ after, isMargin c = true

namespace Form

def text (f : Form) : List Char := f.before ++ (f.sign.chars ++ f.digits) ++ f.after

/-- Digits are written with the most significant one first. -/
def value (f : Form) : Int := f.sign.apply (Nat.ofDigits 10 f.values.reverse)

end Form

/-- The text is an integer with blanks around, and this is its value. -/
def Denotes (s : String) (n : Int) : Prop := ∃ f : Form, f.text = s.toList ∧ f.value = n

end OnePass.Text.Numeral
