import OnePass.Text.Blank
import OnePass.Text.Digit

/-!
Integers as people write them in a setting: blanks around, one optional sign, decimal digits of
any script, and single underscores between digits. The blanks here do not include U+001C to
U+001F. A numeral with more than `maxDigits` digits is refused, leading zeros counted.
-/

namespace OnePass.Text.Numeral

def maxDigits : Nat := 4300

def isMargin (c : Char) : Bool :=
  isBlank c && !(decide (0x1c ≤ c.toNat) && decide (c.toNat ≤ 0x1f))

/-- The values of a run of digits, with single underscores only between two of them. -/
def digits? : List Char → Option (List Nat)
  | [] => none
  | [c] => (digitValue? c).map fun d => [d]
  | c :: '_' :: cs => do return (← digitValue? c) :: (← digits? cs)
  | c :: d :: cs => do return (← digitValue? c) :: (← digits? (d :: cs))

/-- The number that digits denote, most significant first. -/
def value (digits : List Nat) : Nat := digits.foldl (fun n d => 10 * n + d) 0

def magnitude? (cs : List Char) : Option Nat := do
  let ds ← digits? cs
  if ds.length ≤ maxDigits then some (value ds) else none

def read? (s : String) : Option Int :=
  match trim isMargin s.toList with
  | '-' :: cs => (magnitude? cs).map fun n => -(n : Int)
  | '+' :: cs => (magnitude? cs).map fun n => (n : Int)
  | cs => (magnitude? cs).map fun n => (n : Int)

end OnePass.Text.Numeral
