import OnePass.Instruction
import OnePass.Lexeme

/-!
Formulas, and the ways to write them. A formula is written with parentheses where the order of its
operations asks for them: around a sum that an operation takes as its right operand, around a sum in
a product, around a product that a product takes as its right operand, and around whatever has a
sign before it and is no number, name or group itself. More parentheses and plus signs do not change
what is said.
-/

namespace OnePass

/-- What an expression says, however it is written. -/
inductive Formula where
  | number (n : Nat)
  | name (x : String)
  | negative (f : Formula)
  | binary (o : Operation) (left right : Formula)
  deriving DecidableEq

namespace Formula

/-- The operands come before their operation, the left one before the right one. -/
def code (names : List String) : Formula → List Instruction
  | number n => [.lit n]
  | name x => [.lod (names.idxOf x)]
  | negative f => .lit 0 :: f.code names ++ [.operate .sub]
  | binary o l r => l.code names ++ r.code names ++ [.operate o]

def names : Formula → List String
  | number _ => []
  | name x => [x]
  | negative f => f.names
  | binary _ l r => l.names ++ r.names

def numbers : Formula → List Nat
  | number n => [n]
  | name _ => []
  | negative f => f.numbers
  | binary _ l r => l.numbers ++ r.numbers

/-- The names are words that are no keywords, and the numbers are within a limit. -/
structure IsWritable (limit : Int) (f : Formula) : Prop where
  names : ∀ x ∈ f.names, (Lexeme.word x.toList).isValid = true ∧ Token.Kind.ofWord x = .ident
  numbers : ∀ n ∈ f.numbers, (n : Int) ≤ limit

end Formula

/-- A formula with the groups and the plus signs that are written without need. -/
inductive Writing where
  | number (n : Nat)
  | name (x : String)
  | negative (w : Writing)
  | binary (o : Operation) (left right : Writing)
  | group (w : Writing)
  | positive (w : Writing)
  deriving DecidableEq

namespace Writing

def formula : Writing → Formula
  | number n => .number n
  | name x => .name x
  | negative w => .negative w.formula
  | binary o l r => .binary o l.formula r.formula
  | group w | positive w => w.formula

/-- How tightly what is written holds together. -/
inductive Shape where
  | atom
  | signed
  | product
  | sum
  deriving DecidableEq

namespace Shape

def looseness : Shape → Nat
  | atom => 0
  | signed => 1
  | product => 2
  | sum => 3

def ofOperation : Operation → Shape
  | .add | .sub => sum
  | .mul | .div => product

/-- The loosest right operand that needs no parentheses. -/
def ofRight : Operation → Shape
  | .add | .sub => product
  | .mul | .div => signed

end Shape

def shape : Writing → Shape
  | number _ | name _ | group _ => .atom
  | negative _ | positive _ => .signed
  | binary o _ _ => .ofOperation o

/-- A mark that stands nowhere yet. -/
def mark (k : Token.Kind) (c : Char) : Token := ⟨k, .text c.toString, .start "", .start ""⟩

def operator : Operation → Token
  | .add => mark .plus '+'
  | .sub => mark .minus '-'
  | .mul => mark .times '*'
  | .div => mark .slash '/'

def grouped (ts : List Token) : List Token := mark .lparen '(' :: ts ++ [mark .rparen ')']

/-- Tokens in parentheses, if they hold together less tightly than they have to. -/
def enclosed (loosest shape : Shape) (ts : List Token) : List Token :=
  if shape.looseness ≤ loosest.looseness then ts else grouped ts

/-- The tokens of what is written, before they stand anywhere. -/
def tokens : Writing → List Token
  | number n => [⟨.uint, .number n, .start "", .start ""⟩]
  | name x => [⟨.ident, .text x, .start "", .start ""⟩]
  | negative w => mark .minus '-' :: enclosed .atom w.shape w.tokens
  | positive w => mark .plus '+' :: enclosed .atom w.shape w.tokens
  | group w => grouped w.tokens
  | binary o l r =>
    enclosed (.ofOperation o) l.shape l.tokens ++ operator o :: enclosed (.ofRight o) r.shape r.tokens

end Writing
end OnePass
